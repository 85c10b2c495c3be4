import DepNorm.Graph.Edge
import DepNorm.Rule

/-!
What can go wrong: with a rule on a graph, with a graph operation, with a configuration, and with a
line of a token table. The wording of each fault is `Fault.message`.
-/

namespace DepNorm

/-- What is wrong with a line of a token table. -/
inductive LineFault where
  | tooFewColumns (found : Nat)
  | reservedIndex
  | duplicateIndex (index : Nat)
  | notAnIndex (field : String)
  | notAHeadAndRelation (item : String)
  | headIsNoToken (head : Nat)
  deriving DecidableEq, Repr

def LineFault.message : LineFault → String
  | tooFewColumns found => s!"expected at least 6 columns, found {found}"
  | reservedIndex => "token index 0 is reserved for the virtual root"
  | duplicateIndex index => s!"duplicate token index {index}"
  | notAnIndex field => s!"`{field}` is not a token index"
  | notAHeadAndRelation item => s!"extra edge `{item}` is not head:relation"
  | headIsNoToken head => s!"head {head} is not a token"

inductive Fault where
  /-- A rule found no edge where its match had seen one. -/
  | missingEdge (rule : Rule) (key : EdgeKey)
  | missingToken (rule : Rule) (index : Nat)
  | unknownToken (index : Nat)
  /-- A rule took the last root of a graph that still has tokens. -/
  | rootless (rule : Rule)
  | unknownFilter (name : String)
  /-- Lines are counted from one. -/
  | malformed (line : Nat) (fault : LineFault)
  deriving DecidableEq, Repr

def Fault.message : Fault → String
  | missingEdge rule key => s!"rule `{rule.name}` could not remove edge {key.toText}"
  | missingToken rule index => s!"rule `{rule.name}` could not remove node {index}"
  | unknownToken index => s!"node {index} is not part of the graph"
  | rootless rule => s!"rule `{rule.name}` left the graph without a root"
  | unknownFilter name => s!"unknown rewrite filter `{name}`"
  | malformed line fault => s!"line {line}: {fault.message}"

end DepNorm
