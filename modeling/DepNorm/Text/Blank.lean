/-!
White space, as the Unicode property White_Space has it, and the three things done with it: cutting
it off the end of a text, cutting it off both ends, and splitting a text into its words.

Texts are lists of characters here and in the other text modules.
-/

namespace DepNorm

/-- Closed ranges of code points, ascending and apart. -/
abbrev CodeRanges := List (Nat × Nat)

def CodeRanges.has (ranges : CodeRanges) (c : Char) : Bool :=
  ranges.any fun r => r.1 ≤ c.toNat && c.toNat ≤ r.2

/-- The 25 characters with the property White_Space. -/
def blankRanges : CodeRanges :=
  [(0x09, 0x0D), (0x20, 0x20), (0x85, 0x85), (0xA0, 0xA0), (0x1680, 0x1680), (0x2000, 0x200A),
   (0x2028, 0x2029), (0x202F, 0x202F), (0x205F, 0x205F), (0x3000, 0x3000)]

def isBlank (c : Char) : Bool := blankRanges.has c

example : (blankRanges.map fun r => r.2 + 1 - r.1).sum = 25 := by decide

namespace Text

def trimStart (text : List Char) : List Char := text.dropWhile isBlank

def trimEnd (text : List Char) : List Char := (text.reverse.dropWhile isBlank).reverse

def trim (text : List Char) : List Char := trimEnd (trimStart text)

/-- The maximal runs of characters that are not blank. -/
def words (text : List Char) : List (List Char) :=
  (text.splitOnP isBlank).filter fun word => !word.isEmpty

example : words " a  bc\t".toList = ["a".toList, "bc".toList] := by decide

end Text

end DepNorm
