import DepNorm.Operator
import DepNorm.Splice.Edit

/-!
Determiners. Articles that govern nothing are dropped. Then the edges into question pronouns that
govern nothing become determiner edges.
-/

namespace DepNorm.Splice

def isArticle (word : String) : Bool := ["the", "a", "an"].any (sameLetters word)

/-- The leaves whose tokens pass the test. -/
def leavesWhere (graph : Graph) (test : Token → Bool) : List Nat :=
  graph.leaves.filter fun index => (graph.token? index).any test

def toDeterminer (key : EdgeKey) : EditM Unit := do
  let edge ← EditM.takeEdge .determiner key
  EditM.putEdge (edge.relabel "det")

/-- Relabels the edges into a token that are not determiner edges, one after the other. The answer
is the keys that they had. -/
def allToDeterminer (index : Nat) : EditM (List EdgeKey) := do
  let others := ((← get).incoming index).filter (·.relation != "det")
  let keys := others.map Edge.key
  keys.forM toDeterminer
  return keys

def determiner : EditM Nat := do
  let articles := leavesWhere (← get) fun token => isArticle token.word
  articles.forM fun index => discard <| EditM.takeToken .determiner index
  let pronouns := leavesWhere (← get) fun token => token.tag == "WP"
  let relabelled ← pronouns.mapM allToDeterminer
  return articles.length + relabelled.flatten.length

end DepNorm.Splice
