import DepNorm.Graph.Edge
import DepNorm.Regex.Basic

/-!
Patterns of a few named nodes joined by edges, to be found in a dependency graph. The first node is
the anchor, and every edge goes out from a node that the anchor or an earlier edge has reached. An
optional edge may stay unmatched; its dependent, and what hangs below it, is then left unbound.
-/

namespace DepNorm

/-- What a pattern asks of a token. -/
inductive NodeTest where
  | any
  | word (word : String)
  | tag (tag : String)
  /-- The expression is found in the word. -/
  | wordHas (regex : Regex)
  deriving DecidableEq, Repr

def NodeTest.holds : NodeTest → Token → Bool
  | any, _ => true
  | word w, token => token.word == w
  | tag t, token => token.tag == t
  | wordHas regex, token => regex.foundIn token.word.toList

/-- What a pattern asks of a relation. -/
inductive RelationTest where
  | exact (relation : String)
  /-- The expression is found in the relation. -/
  | has (regex : Regex)
  deriving DecidableEq, Repr

def RelationTest.holds : RelationTest → String → Bool
  | exact r, relation => relation == r
  | has regex, relation => regex.foundIn relation.toList

structure PatternNode where
  name : String
  test : NodeTest := .any
  deriving DecidableEq, Repr

structure PatternEdge where
  governor : String
  dependent : String
  relation : RelationTest
  optional : Bool := false
  /-- The name under which the matched relation is reported. -/
  capture : Option String := none
  deriving DecidableEq, Repr

structure Pattern where
  name : String
  anchor : PatternNode
  others : List PatternNode
  edges : List PatternEdge
  deriving DecidableEq, Repr

namespace Pattern

def nodes (pattern : Pattern) : List PatternNode := pattern.anchor :: pattern.others

def test (pattern : Pattern) (name : String) : NodeTest :=
  ((pattern.nodes.find? fun node => node.name == name).map PatternNode.test).getD .any

end Pattern

end DepNorm
