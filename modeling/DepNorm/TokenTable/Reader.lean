import DepNorm.Graph.Update
import DepNorm.TokenTable.Row

/-!
From a token table to the graph it describes. The lines are read first, each knowing the indices
that the lines before it have used. Then the edges are added, line by line, so that a head may
stand on a later line than its dependent; a head that no line describes is a fault of the line
that names it.
-/

namespace DepNorm.TokenTable

/-- Reads the lines from the given line number on; rows keep the numbers of their lines. -/
def readRows (seen : List Nat) (number : Nat) : List (List Char) → Except Fault (List (Nat × Row))
  | [] => .ok []
  | line :: lines =>
    let line := Text.trimEnd line
    if isSkipped line then readRows seen (number + 1) lines
    else
      match Row.read seen (columns line) with
      | .error fault => .error (.malformed number fault)
      | .ok row => do
        let rows ← readRows (row.token.index :: seen) (number + 1) lines
        return (number, row) :: rows

/-- Adds edges, all of which come from the line with the given number. -/
def addEdges (number : Nat) (graph : Graph) (edges : List Edge) : Except Fault Graph :=
  edges.foldlM
    (fun graph edge =>
      match graph.addEdge edge with
      | .ok (_, graph) => .ok graph
      | .error _ => .error (.malformed number (.headIsNoToken edge.governor)))
    graph

/-- The graph of the rows. -/
def build (rows : List (Nat × Row)) : Except Fault Graph := do
  let tokens := rows.foldl (fun graph row => graph.insertToken row.2.token) {}
  let graph ← rows.foldlM (fun graph row => addEdges row.1 graph row.2.edges) tokens
  let roots := rows.filter fun row => row.2.head = .root
  return roots.foldl (fun graph row => graph.markRoot row.2.token.index) graph

def read (text : String) : Except Fault Graph := do
  build (← readRows [] 1 (Text.lines text.toList))

end DepNorm.TokenTable
