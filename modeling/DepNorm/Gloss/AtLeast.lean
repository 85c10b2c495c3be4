import DepNorm.Regex.Capture
import DepNorm.Regex.Parser
import DepNorm.Text.Uppercase

/-!
Lower bounds at the front of a sentence. "At least three cats sleep" says "Three cats sleep". The
bound is a quantity word or begins with a digit; its letters need not end with a word.
-/

namespace DepNorm.Gloss

/-- A lower bound, and the quantity in it. -/
def lowerBound? : Option Regex :=
  Regex.parse? ("^[Aa]t least (a few|one|two|three|four|five|six|seven|eight|nine|ten|" ++
    "eleven|twelve|[0-9]+)").toList

/-- The sentence without "At least", if a quantity follows. -/
def atLeast? (text : List Char) : Option (List Char) := do
  let found ← (← lowerBound?).captures? text
  let quantity ← found.group? 1
  return Text.capitalize (quantity ++ found.after)

example : (atLeast? "at least a few dogs bark".toList).map String.ofList =
    some "A few dogs bark" := by decide +kernel

end DepNorm.Gloss
