/-!
Indices as text. An index is read from one or more ASCII digits, with at most one plus sign in
front, and is below 2 to the power of 64; leading zeros are allowed. It is written without sign and
without leading zeros, and what is written is read back.
-/

namespace DepNorm.Text

/-- Indices lie below this bound. -/
def indexBound : Nat := 18446744073709551616

/-- Takes one plus sign off the front. -/
def dropPlus : List Char → List Char
  | '+' :: rest => rest
  | text => text

/-- The index that the text stands for. -/
def readIndex? (text : List Char) : Option Nat :=
  let digits := dropPlus text
  if !digits.isEmpty && digits.all Char.isDigit then
    let value := Nat.ofDigitChars 10 digits 0
    if value < indexBound then some value else none
  else none

def writeIndex (index : Nat) : List Char := Nat.toDigits 10 index

theorem readIndex?_lt {text : List Char} {index : Nat} (h : readIndex? text = some index) :
    index < indexBound := by
  simp only [readIndex?] at h
  split at h
  · split at h
    · injection h with h
      omega
    · cases h
  · cases h

theorem isDigit_of_mem_writeIndex {index : Nat} {c : Char} (h : c ∈ writeIndex index) :
    c.isDigit = true :=
  Nat.isDigit_of_mem_toDigits (by decide) (by decide) h

theorem not_mem_writeIndex {index : Nat} {c : Char} (h : c.isDigit = false) :
    c ∉ writeIndex index :=
  fun hc => Bool.false_ne_true (h.symm.trans (isDigit_of_mem_writeIndex hc))

theorem writeIndex_ne_nil (index : Nat) : writeIndex index ≠ [] := by simp [writeIndex]

theorem readIndex?_writeIndex {index : Nat} (h : index < indexBound) :
    readIndex? (writeIndex index) = some index := by
  have digit : ∀ c ∈ writeIndex index, c.isDigit = true := fun c => isDigit_of_mem_writeIndex
  have plain : dropPlus (writeIndex index) = writeIndex index := by
    unfold dropPlus
    split
    · next rest heq => simpa using digit '+' (by simp [heq])
    · rfl
  simp only [readIndex?, plain]
  rw [if_pos (by simpa [writeIndex_ne_nil] using digit), writeIndex, Nat.ofDigitChars_ten_toDigits]
  exact if_pos h

end DepNorm.Text
