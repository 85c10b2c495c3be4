import DepNorm.Fault
import DepNorm.Graph.Basic

/-!
Changes to a graph. A token replaces the one with its index; removing it takes the edges that touch
it and its root mark away. An edge is added only between tokens of the graph, under the next
number, unless an edge with its key is there already.
-/

namespace DepNorm.Graph

/-! ### Tokens -/

def insertToken (graph : Graph) (token : Token) : Graph :=
  { graph with
    tokens := graph.tokens.filter (·.index < token.index) ++
      token :: graph.tokens.filter (token.index < ·.index) }

/-- Takes the token with the given index away, if there is one, together with its edges and its
root mark. -/
def eraseToken (graph : Graph) (index : Nat) : Graph :=
  { graph with
    tokens := graph.tokens.filter (·.index != index)
    arcs := graph.arcs.filter fun arc => arc.2.governor != index && arc.2.dependent != index
    roots := graph.roots.filter (· != index) }

def takeToken? (graph : Graph) (index : Nat) : Option (Token × Graph) :=
  (graph.token? index).map fun token => (token, graph.eraseToken index)

/-! ### Edges -/

/-- The number under which the edge stands in the graph that results. -/
def addEdge (graph : Graph) (edge : Edge) : Except Fault (Nat × Graph) :=
  if edge.governor ∉ graph then .error (.unknownToken edge.governor)
  else if edge.dependent ∉ graph then .error (.unknownToken edge.dependent)
  else
    match graph.find? edge.key with
    | some number => .ok (number, graph)
    | none =>
      .ok (graph.nextEdge,
        { graph with
          arcs := graph.arcs ++ [(graph.nextEdge, edge)]
          nextEdge := graph.nextEdge + 1 })

def eraseEdge (graph : Graph) (number : Nat) : Graph :=
  { graph with arcs := graph.arcs.filter (·.1 != number) }

def takeNumbered? (graph : Graph) (number : Nat) : Option (Edge × Graph) :=
  (graph.edge? number).map fun edge => (edge, graph.eraseEdge number)

def takeEdge? (graph : Graph) (key : EdgeKey) : Option (Edge × Graph) :=
  (graph.find? key).bind graph.takeNumbered?

/-- Puts the edge with the given key under another relation. The edge is taken out and added again,
so it gets a new number, and gives way to an edge that has its new key already. The answer is
`none` if no edge has the key. -/
def relabelEdge (graph : Graph) (key : EdgeKey) (relation : String) :
    Except Fault (Option Nat × Graph) :=
  match graph.takeEdge? key with
  | none => .ok (none, graph)
  | some (edge, rest) => do
    let (number, graph) ← rest.addEdge (edge.relabel relation)
    return (some number, graph)

/-! ### Roots -/

/-- Makes an index a root, whether or not it has a token. -/
def markRoot (graph : Graph) (index : Nat) : Graph :=
  { graph with roots := graph.roots.filter (· < index) ++ index :: graph.roots.filter (index < ·) }

def addRoot (graph : Graph) (index : Nat) : Except Fault Graph :=
  if index ∈ graph then .ok (graph.markRoot index) else .error (.unknownToken index)

def eraseRoot (graph : Graph) (index : Nat) : Graph :=
  { graph with roots := graph.roots.filter (· != index) }

/-- Fails with the first end of an edge, or the first root, that is no token. -/
def check (graph : Graph) : Except Fault Unit :=
  let ends := graph.edges.flatMap fun edge => [edge.governor, edge.dependent]
  match (ends ++ graph.roots).find? (· ∉ graph) with
  | some index => .error (.unknownToken index)
  | none => .ok ()

end DepNorm.Graph
