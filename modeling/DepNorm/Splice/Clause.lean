import DepNorm.Pattern.Search
import DepNorm.Splice.Edit
import DepNorm.Text.Lowercase

/-!
Comparative clauses with a verb of their own. In "I have more than he has" the main verb governs
the second "has", which governs "than" and "he". After the splice the main verb governs "he" by a
relation named for the preposition, "has" hangs below "he", the preposition is gone, and all else
that "has" governed hangs below the main verb. It is done once.
-/

namespace DepNorm.Splice

/-- As in "I have more than he has". -/
def comparativeClause : Pattern where
  name := "terminal has"
  anchor := { name := "root" }
  others := [
    { name := "has", test := .wordHas (.oneOfWords ["has", "have", "had", "is", "was"]) },
    { name := "prep", test := .tag "IN" },
    { name := "pobj" }]
  edges :=
    [{ governor := "root", dependent := "has",
       relation := .has (.oneOfWords ["advcl", "dep"]), capture := some "clause" },
     { governor := "has", dependent := "prep", relation := .exact "mark" },
     { governor := "has", dependent := "pobj", relation := .exact "nsubj" }]

/-- The relation of what hangs below a preposition: "more than" gives "nmod:more_than". -/
def prepositionRelation (preposition : String) : String :=
  "nmod:" ++ String.ofList
    ((Text.lowercase preposition.toList).map fun c => if c = ' ' then '_' else c)

/-- Takes out the edge with the given number, if there is one. -/
def detach (number : Nat) : EditM (Option Edge) := do
  match (← get).takeNumbered? number with
  | some (edge, graph) =>
    set graph
    return some edge
  | none => return none

/-- Takes out the edges that leave a token, in the order of their numbers. -/
def detachAll (index : Nat) : EditM (List Edge) := do
  let edges ← ((← get).outgoingNumbers index).mapM detach
  return edges.filterMap id

def collapse (root verb preposition object : Nat) (relation : String) : EditM Unit := do
  discard <| EditM.takeEdge .clause { governor := root, dependent := verb, relation }
  discard <| EditM.takeEdge .clause
    { governor := verb, dependent := preposition, relation := "mark" }
  discard <| EditM.takeEdge .clause { governor := verb, dependent := object, relation := "nsubj" }
  let token ← EditM.takeToken .clause preposition
  let detached ← detachAll verb
  EditM.putEdge (.made root object (prepositionRelation token.word))
  EditM.putEdge (.made object verb "mark")
  detached.forM fun edge => EditM.putEdge (.made root edge.dependent edge.relation)

def clause : EditM Nat := do
  let some found := comparativeClause.find? (← get).view | return 0
  let some root := found.node? "root" | return 0
  let some verb := found.node? "has" | return 0
  let some preposition := found.node? "prep" | return 0
  let some object := found.node? "pobj" | return 0
  let some relation := found.relation? "clause" | return 0
  collapse root verb preposition object relation
  return 1

end DepNorm.Splice
