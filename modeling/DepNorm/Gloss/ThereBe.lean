import DepNorm.Operator
import DepNorm.Regex.Capture
import DepNorm.Regex.Parser
import DepNorm.Text.Uppercase

/-!
Existential sentences. "There are cats who purr" says "Some cats purr": the opening goes, the last
relative pronoun goes, and what is left is given the quantifier "Some", unless it opens with an
operator of its own.
-/

namespace DepNorm.Gloss

/-- A sentence of one line with an existential opening, and what stands before and after a relative
pronoun in it. -/
def existential? : Option Regex :=
  Regex.parse? ("^[Tt]here (?:is|are|was|were|will be|would be|has been|have been) (.*) " ++
    "(?:who|which) (.*)$").toList

/-- Opens a noun phrase with a quantifier: with its own, in upper case, or with "Some". -/
def quantified (body : List Char) : List Char :=
  if opensWithOperator body then Text.capitalize body else "Some ".toList ++ body

/-- The sentence without its existential opening and its relative pronoun. -/
def thereBe? (text : List Char) : Option (List Char) := do
  let found ← (← existential?).captures? text
  let before ← found.group? 1
  let after ← found.group? 2
  return quantified (before ++ ' ' :: after)

example : (thereBe? "There are cats who like dogs who bark".toList).map String.ofList =
    some "Some cats who like dogs bark" := by decide +kernel

end DepNorm.Gloss
