import DepNorm.Pattern.Basic

/-!
Patterns from declarations. Nodes and edges may be declared in any mixture; a capture belongs to
the edge declared last before it. Accepted are the patterns whose node names are distinct, whose
edges join declared nodes, and in which each edge starts from a node reached by then and each node
is reached in the end.
-/

namespace DepNorm

inductive PatternFault where
  | noNodes
  | repeatedNode (name : String)
  | undeclaredNode (name : String)
  /-- The edge starts from a node that no edge before it has reached. -/
  | unreachedGovernor (governor dependent : String)
  | unconnectedNode (name : String)
  deriving DecidableEq, Repr

def PatternFault.message (pattern : String) : PatternFault → String
  | noNodes => s!"pattern `{pattern}` declares no nodes"
  | repeatedNode name => s!"pattern `{pattern}` declares node `{name}` twice"
  | undeclaredNode name => s!"pattern `{pattern}` uses undeclared node `{name}`"
  | unreachedGovernor governor dependent =>
    s!"pattern `{pattern}`: edge {governor} -> {dependent} starts from an unreached node"
  | unconnectedNode name => s!"pattern `{pattern}`: node `{name}` is not connected"

namespace Pattern

inductive Declaration where
  | node (name : String) (test : NodeTest)
  | edge (governor dependent : String) (relation : RelationTest) (optional : Bool)
  /-- Names the relation of the last edge. -/
  | capture (name : String)
  deriving DecidableEq, Repr

structure Draft where
  nodes : List PatternNode := []
  edges : List PatternEdge := []
  deriving DecidableEq, Repr

def onLast (change : PatternEdge → PatternEdge) : List PatternEdge → List PatternEdge
  | [] => []
  | [edge] => [change edge]
  | edge :: edges => edge :: onLast change edges

def Draft.add (draft : Draft) : Declaration → Draft
  | .node name test => { draft with nodes := draft.nodes ++ [{ name, test }] }
  | .edge governor dependent relation optional =>
    { draft with edges := draft.edges ++ [{ governor, dependent, relation, optional }] }
  | .capture name =>
    { draft with edges := onLast (fun edge => { edge with capture := some name }) draft.edges }

def Draft.ofList (declarations : List Declaration) : Draft := declarations.foldl Draft.add {}

/-- The first name that stands in the list, or in `seen`, before. -/
def firstRepeated? (seen : List String) : List String → Option String
  | [] => none
  | name :: names => if name ∈ seen then some name else firstRepeated? (name :: seen) names

/-- The names reached when the edges are followed in order, starting from those in `reached`. -/
def reach (declared reached : List String) : List PatternEdge → Except PatternFault (List String)
  | [] => .ok reached
  | edge :: edges =>
    if edge.governor ∉ declared then .error (.undeclaredNode edge.governor)
    else if edge.dependent ∉ declared then .error (.undeclaredNode edge.dependent)
    else if edge.governor ∉ reached then
      .error (.unreachedGovernor edge.governor edge.dependent)
    else reach declared (edge.dependent :: reached) edges

/-- The pattern that a draft describes, or the first fault in it. -/
def ofDraft (name : String) (draft : Draft) : Except PatternFault Pattern :=
  match draft.nodes with
  | [] => .error .noNodes
  | anchor :: others => do
    let names := draft.nodes.map PatternNode.name
    if let some repeated := firstRepeated? [] names then throw (.repeatedNode repeated)
    let reached ← reach names [anchor.name] draft.edges
    if let some orphan := names.find? (· ∉ reached) then throw (.unconnectedNode orphan)
    return { name, anchor, others, edges := draft.edges }

def declare (name : String) (declarations : List Declaration) : Except PatternFault Pattern :=
  ofDraft name (.ofList declarations)

end Pattern

end DepNorm
