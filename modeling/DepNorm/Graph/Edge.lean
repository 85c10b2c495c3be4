/-!
Tokens of a sentence and the labelled edges between them. A token is known by its index, its
position in the sentence. What identifies an edge is its key: the two ends, the relation and
whether it is a secondary edge.
-/

namespace DepNorm

structure Token where
  index : Nat
  word : String
  /-- The dictionary form of the word. -/
  baseForm : String
  tag : String
  /-- The mark of an operator, put there by an annotator. -/
  operator : Option String := none
  deriving DecidableEq, Repr

def Token.isOperator (token : Token) : Bool := token.operator.isSome

/-- The bits of a binary64 number. Weights are carried along and never computed with. -/
structure Weight where
  bits : UInt64
  deriving DecidableEq, Repr

namespace Weight

def zero : Weight := ⟨0⟩

def one : Weight := ⟨0x3FF0000000000000⟩

end Weight

structure Edge where
  governor : Nat
  dependent : Nat
  relation : String
  weight : Weight := .one
  /-- A secondary edge, beside those of the dependency tree. -/
  extra : Bool := false
  /-- Made by a rule, not by the parser of the sentence. -/
  synthetic : Bool := false
  deriving DecidableEq, Repr

structure EdgeKey where
  governor : Nat
  dependent : Nat
  relation : String
  extra : Bool := false
  deriving DecidableEq, Repr

namespace EdgeKey

def toText (key : EdgeKey) : String :=
  s!"{key.governor} -{key.relation}-> {key.dependent}" ++ if key.extra then " (extra)" else ""

end EdgeKey

namespace Edge

/-- A primary edge made by a rule. -/
def made (governor dependent : Nat) (relation : String) : Edge where
  governor := governor
  dependent := dependent
  relation := relation
  weight := .zero
  synthetic := true

def key (edge : Edge) : EdgeKey where
  governor := edge.governor
  dependent := edge.dependent
  relation := edge.relation
  extra := edge.extra

def relabel (edge : Edge) (relation : String) : Edge := { edge with relation }

@[simp] theorem key_relabel (edge : Edge) (relation : String) :
    (edge.relabel relation).key = { edge.key with relation } := rfl

def byDependent : Edge → Edge → Ordering :=
  compareLex (compareOn dependent) (compareOn relation)

def byGovernor : Edge → Edge → Ordering :=
  compareLex (compareOn governor) (compareOn relation)

def byEnds : Edge → Edge → Ordering :=
  compareLex (compareOn governor) byDependent

/-- Sorts edges; those that compare as equal keep their order. -/
def sort (order : Edge → Edge → Ordering) (edges : List Edge) : List Edge :=
  edges.mergeSort fun a b => (order a b).isLE

end Edge

end DepNorm
