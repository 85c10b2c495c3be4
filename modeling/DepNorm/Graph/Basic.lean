import DepNorm.Graph.Edge

/-!
Dependency graphs: the tokens of a sentence in the order of their indices, numbered edges in the
order of their numbers, and the roots in ascending order. `WellFormed` in
`DepNorm.Graph.WellFormed` says what a graph promises beyond its type; every operation keeps it.
-/

namespace DepNorm

structure Graph where
  tokens : List Token := []
  /-- The edges with their numbers. -/
  arcs : List (Nat × Edge) := []
  /-- The indices of the roots. -/
  roots : List Nat := []
  /-- The number of the next new edge. -/
  nextEdge : Nat := 0
  deriving DecidableEq, Repr

namespace Graph

instance : Membership Nat Graph where
  mem graph index := ∃ token ∈ graph.tokens, token.index = index

instance (index : Nat) (graph : Graph) : Decidable (index ∈ graph) :=
  inferInstanceAs (Decidable (∃ token ∈ graph.tokens, token.index = index))

theorem mem_iff {index : Nat} {graph : Graph} :
    index ∈ graph ↔ ∃ token ∈ graph.tokens, token.index = index := Iff.rfl

def token? (graph : Graph) (index : Nat) : Option Token :=
  graph.tokens.find? fun token => token.index == index

def indices (graph : Graph) : List Nat := graph.tokens.map Token.index

@[simp] theorem mem_indices {index : Nat} {graph : Graph} :
    index ∈ graph.indices ↔ index ∈ graph := by
  simp [indices, mem_iff]

def edges (graph : Graph) : List Edge := graph.arcs.map Prod.snd

def edge? (graph : Graph) (number : Nat) : Option Edge :=
  (graph.arcs.find? fun arc => arc.1 == number).map Prod.snd

/-- The number of the edge with the given key. -/
def find? (graph : Graph) (key : EdgeKey) : Option Nat :=
  (graph.arcs.find? fun arc => arc.2.key == key).map Prod.fst

def sortedEdges (graph : Graph) : List Edge := Edge.sort Edge.byEnds graph.edges

/-- The edges that leave a token, sorted by dependent and relation. -/
def outgoing (graph : Graph) (index : Nat) : List Edge :=
  Edge.sort Edge.byDependent (graph.edges.filter fun edge => edge.governor == index)

/-- The numbers of the edges that leave a token, in ascending order. -/
def outgoingNumbers (graph : Graph) (index : Nat) : List Nat :=
  (graph.arcs.filter fun arc => arc.2.governor == index).map Prod.fst

def incoming (graph : Graph) (index : Nat) : List Edge :=
  graph.edges.filter fun edge => edge.dependent == index

def hasDependents (graph : Graph) (index : Nat) : Bool :=
  graph.edges.any fun edge => edge.governor == index

def leaves (graph : Graph) : List Nat :=
  graph.indices.filter fun index => !graph.hasDependents index

end Graph

end DepNorm
