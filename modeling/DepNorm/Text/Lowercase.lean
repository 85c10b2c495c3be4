import DepNorm.Text.CaseTable

/-!
Lower-casing of whole texts. It is not a map on characters: U+0130 becomes two characters, and a
capital sigma becomes a final sigma at the end of a word. A sigma ends a word if, ignorable
characters left aside, a cased letter comes before it and none comes after it.
-/

namespace DepNorm

/-- Lower case of one character, wherever it stands. -/
def lowerChar (c : Char) : Char :=
  if c.toNat < 128 then c.toLower
  else ((lowerRuns.findSome? fun run => run.image? c.toNat).map Char.ofNat).getD c

/-- What holds of the first 128 characters, one by one, holds of each of ASCII. -/
theorem forall_ascii {P : Char → Prop} (h : ∀ code < 128, P (Char.ofNat code)) (c : Char)
    (hc : c.toNat < 128) : P c :=
  Char.ofNat_toNat c ▸ h c.toNat hc

namespace Text

/-- Whether the first character that is not ignorable is a cased letter. -/
def opensWithCased (text : List Char) : Bool :=
  match text.dropWhile caseIgnorable.has with
  | [] => false
  | c :: _ => casedLetters.has c

/-- Lower case of a character between the text before it, read backwards, and the text after it. -/
def lowerAt (before : List Char) (c : Char) (after : List Char) : List Char :=
  if c = 'Σ' then
    if opensWithCased before && !opensWithCased after then ['ς'] else ['σ']
  else if c = 'İ' then ['i', '\u0307']
  else [lowerChar c]

def lowercase (text : List Char) : List Char :=
  go [] text
where
  /-- Lower case of the second text when the first stands before it, read backwards. -/
  go (before : List Char) : List Char → List Char
    | [] => []
    | c :: after => lowerAt before c after ++ go (c :: before) after

example : lowercase "ΟΔΟΣ Σ'".toList = "οδος σ'".toList := by decide +kernel

example : lowercase "MORE Than İ".toList = "more than i\u0307".toList := by decide +kernel

end Text

end DepNorm
