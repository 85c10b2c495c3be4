import DepNorm.Graph.Update

/-!
Edits of a graph, step by step. A step that fails ends the edit and leaves the graph as the steps
before it have made it.
-/

namespace DepNorm

abbrev EditM := ExceptT Fault (StateM Graph)

namespace EditM

/-- Runs an edit: its outcome, and the graph that it leaves. -/
def on {α : Type} (edit : EditM α) (graph : Graph) : Except Fault α × Graph := (edit.run).run graph

def takeEdge (rule : Rule) (key : EdgeKey) : EditM Edge := do
  match (← get).takeEdge? key with
  | some (edge, graph) =>
    set graph
    return edge
  | none => throw (.missingEdge rule key)

def takeToken (rule : Rule) (index : Nat) : EditM Token := do
  match (← get).takeToken? index with
  | some (token, graph) =>
    set graph
    return token
  | none => throw (.missingToken rule index)

def putEdge (edge : Edge) : EditM Unit := do
  let (_, graph) ← (← get).addEdge edge
  set graph

/-- Makes one index a root in place of another. -/
def moveRoot (old new : Nat) : EditM Unit := do
  modify (·.eraseRoot old)
  let graph ← (← get).addRoot new
  set graph

end EditM

end DepNorm
