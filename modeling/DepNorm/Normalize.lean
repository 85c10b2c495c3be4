import DepNorm.Filters
import DepNorm.Gloss.AtLeast
import DepNorm.Gloss.ThereBe
import DepNorm.Splice.Clause
import DepNorm.Splice.Determiner
import DepNorm.Splice.OperatorRoot
import DepNorm.Splice.Quantity

/-!
Normalization of a sentence, as text or as a dependency graph: the rules for it run in their order,
each on what the one before has left, and a rule that is switched off is passed over. A rule may
not take the last root of a graph that still has tokens.
-/

namespace DepNorm

/-- What became of one rule. -/
structure Pass where
  rule : Rule
  enabled : Bool
  /-- How often the rule changed something. -/
  changes : Nat
  deriving DecidableEq, Repr

/-- The rules that changed something. -/
def Pass.fired (passes : List Pass) : List Rule :=
  (passes.filter fun pass => 0 < pass.changes).map Pass.rule

namespace Filters

/-! ### Text -/

/-- The rules on text; each gives the changed text if it applies. -/
def textRules : List (Rule × (List Char → Option (List Char))) :=
  [(.thereBe, Gloss.thereBe?), (.atLeast, Gloss.atLeast?)]

def passText (filters : Filters) (rule : Rule) (change? : List Char → Option (List Char)) :
    StateM (List Char) Pass := do
  if rule ∈ filters then
    match change? (← get) with
    | some text =>
      set text
      return ⟨rule, true, 1⟩
    | none => return ⟨rule, true, 0⟩
  else return ⟨rule, false, 0⟩

def normalizeText (filters : Filters) (text : String) : String × List Pass :=
  let (passes, changed) :=
    (textRules.mapM fun rule => filters.passText rule.1 rule.2).run text.toList
  (String.ofList changed, passes)

/-! ### Graphs -/

/-- The rules on graphs; each gives the number of its changes. -/
def graphRules : List (Rule × EditM Nat) :=
  [(.quantity, Splice.quantity), (.operatorRoot, Splice.operatorRoot),
   (.determiner, Splice.determiner), (.clause, Splice.clause)]

def passGraph (filters : Filters) (rule : Rule) (splice : EditM Nat) : EditM Pass := do
  if rule ∈ filters then
    let rooted := !(← get).roots.isEmpty
    let changes ← splice
    let graph ← get
    graph.check
    if rooted && graph.roots.isEmpty && !graph.tokens.isEmpty then throw (.rootless rule)
    return ⟨rule, true, changes⟩
  else return ⟨rule, false, 0⟩

def passesGraph (filters : Filters) : EditM (List Pass) :=
  graphRules.mapM fun rule => filters.passGraph rule.1 rule.2

/-- The normalized graph, or the fault of the first rule that failed. -/
def normalizeGraph (filters : Filters) (graph : Graph) : Except Fault (Graph × List Pass) :=
  match filters.passesGraph.on graph with
  | (.ok passes, graph) => .ok (graph, passes)
  | (.error fault, _) => .error fault

end Filters

end DepNorm
