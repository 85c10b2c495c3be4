import DepNorm.Splice.Edit

/-!
Operators at the root. A root that is an operator gives its place to one of its dependents: to the
first one after it in the sentence, or else to its first one. The edge between the two is turned
round and called `op`.
-/

namespace DepNorm.Splice

/-- The edge to the dependent that takes the root's place. -/
def heirEdge? (graph : Graph) (root : Nat) : Option Edge :=
  let outgoing := graph.outgoing root
  outgoing.find? (root < ·.dependent) <|> outgoing.head?

/-- Replaces a root that is an operator and has dependents. The answer says whether it did. -/
def replaceRoot (root : Nat) : EditM Bool := do
  let graph ← get
  if (graph.token? root).any Token.isOperator then
    let some edge := heirEdge? graph root | return false
    discard <| EditM.takeEdge .operatorRoot edge.key
    EditM.moveRoot root edge.dependent
    EditM.putEdge { Edge.made edge.dependent root "op" with weight := edge.weight }
    return true
  else return false

/-- Goes through the roots that the graph has at the start. -/
def operatorRoot : EditM Nat := do
  let replaced ← (← get).roots.mapM replaceRoot
  return replaced.count true

end DepNorm.Splice
