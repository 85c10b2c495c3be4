import DepNorm.Operator
import DepNorm.Pattern.Search
import DepNorm.Splice.Edit

/-!
Quantity heads. In "eats a lot of cake" the verb governs "lot", and "lot" governs "cake"; after the
splice the verb governs "cake", and "lot" is an adjectival modifier of it. The same is done for a
numeral that is the subject, as in "three of the cats sleep". Each is done once. Then every numeral
edge into "one" becomes a determiner edge.
-/

namespace DepNorm.Splice

/-- As in "eats a lot of cake". -/
def aLotOf : Pattern where
  name := "a lot of"
  anchor := { name := "verb" }
  others := [{ name := "lot", test := .word "lot" }, { name := "a", test := .word "a" },
    { name := "obj" }]
  edges :=
    [{ governor := "verb", dependent := "lot", relation := .exact "dobj" },
     { governor := "lot", dependent := "a", relation := .exact "det", optional := true },
     { governor := "lot", dependent := "obj", relation := .exact "nmod:of" }]

/-- As in "three of the cats sleep". -/
def numeralOf : Pattern where
  name := "N of"
  anchor := { name := "verb" }
  others := [{ name := "num", test := .tag "CD" }, { name := "obj" }]
  edges :=
    [{ governor := "verb", dependent := "num", relation := .exact "nsubj" },
     { governor := "num", dependent := "obj", relation := .exact "nmod:of" }]

/-- Hangs the object of the quantity directly below the verb, under the relation that the quantity
had, and the quantity below its object. -/
def lowerQuantity (relation : String) (verb quantity object : Nat) : EditM Unit := do
  discard <| EditM.takeEdge .quantity { governor := verb, dependent := quantity, relation }
  discard <| EditM.takeEdge .quantity
    { governor := quantity, dependent := object, relation := "nmod:of" }
  EditM.putEdge (.made verb object relation)
  EditM.putEdge (.made object quantity "amod")

/-- Lowers the quantity in the first match of the pattern. The answer is the number of changes. -/
def lowerFirst (pattern : Pattern) (quantity relation : String) : EditM Nat := do
  let some found := pattern.find? (← get).view | return 0
  let some verb := found.node? "verb" | return 0
  let some head := found.node? quantity | return 0
  let some object := found.node? "obj" | return 0
  lowerQuantity relation verb head object
  return 1

def isOne (word : String) : Bool := sameLetters word "one" || word == "1"

def numeralsOne (graph : Graph) : List Edge :=
  graph.sortedEdges.filter fun edge =>
    edge.relation == "num" && (graph.token? edge.dependent).any fun token => isOne token.word

/-- Takes out all numeral edges into "one" and puts them back as determiner edges. -/
def onesToDeterminers : EditM Nat := do
  let numerals ← ((numeralsOne (← get)).map Edge.key).mapM (EditM.takeEdge .quantity)
  numerals.forM fun edge => EditM.putEdge (edge.relabel "det")
  return numerals.length

def quantity : EditM Nat := do
  let lots ← lowerFirst aLotOf "lot" "dobj"
  let numerals ← lowerFirst numeralOf "num" "nsubj"
  let ones ← onesToDeterminers
  return lots + numerals + ones

end DepNorm.Splice
