import DepNorm.Graph.Basic

/-!
What a search may see of a graph. The listed indices are the candidates for the anchor, in order;
an index may be listed and have no token, and an arc may lead to an index without one.
-/

namespace DepNorm

/-- An edge as seen from its governor. -/
structure Arc where
  dependent : Nat
  relation : String
  deriving DecidableEq, Repr

structure View where
  indices : List Nat
  token? : Nat → Option Token
  outgoing : Nat → List Arc

def Edge.arc (edge : Edge) : Arc where
  dependent := edge.dependent
  relation := edge.relation

/-- A graph lists its tokens by index, and outgoing edges by dependent and relation. -/
def Graph.view (graph : Graph) : View where
  indices := graph.indices
  token? := graph.token?
  outgoing index := (graph.outgoing index).map Edge.arc

end DepNorm
