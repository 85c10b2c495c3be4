import DepNorm.Text.CaseTable

/-!
Texts that are given a capital. The upper case of a character may be several characters: "ß" becomes
"SS".
-/

namespace DepNorm

def upperChars (c : Char) : List Char :=
  if c.toNat < 128 then [c.toUpper]
  else
    match longUpperRuns.findSome? fun (run, more) => (run.image? c.toNat).map (· :: more) with
    | some codes => codes.map Char.ofNat
    | none => [((upperRuns.findSome? fun run => run.image? c.toNat).map Char.ofNat).getD c]

namespace Text

/-- The text with its first character in upper case. -/
def capitalize : List Char → List Char
  | [] => []
  | c :: rest => upperChars c ++ rest

theorem capitalize_cons_of_ascii {c : Char} (h : c.toNat < 128) (rest : List Char) :
    capitalize (c :: rest) = c.toUpper :: rest := by
  rw [capitalize, upperChars, if_pos h]
  rfl

example : capitalize "élan vital".toList = "Élan vital".toList ∧
    capitalize "ßa".toList = "SSa".toList := by decide +kernel

end Text

end DepNorm
