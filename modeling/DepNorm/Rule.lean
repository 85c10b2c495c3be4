/-!
The rules, in the order in which they run: the first two work on the text of a sentence, the others
on its dependency graph.
-/

namespace DepNorm

inductive Rule where
  | thereBe
  | atLeast
  | quantity
  | operatorRoot
  | determiner
  | clause
  deriving DecidableEq, Repr

namespace Rule

def all : List Rule := [thereBe, atLeast, quantity, operatorRoot, determiner, clause]

/-- The name by which configurations and reports call the rule. -/
def name : Rule → String
  | thereBe => "therebe"
  | atLeast => "atleastafew"
  | quantity => "mods"
  | operatorRoot => "rootedq"
  | determiner => "dropdet"
  | clause => "has"

def ofName? (name : String) : Option Rule := all.find? fun rule => rule.name == name

/-- Place in the order of the rules, counted from zero. -/
def position : Rule → Nat
  | thereBe => 0
  | atLeast => 1
  | quantity => 2
  | operatorRoot => 3
  | determiner => 4
  | clause => 5

@[simp] theorem ofName?_name (rule : Rule) : ofName? rule.name = some rule := by
  cases rule <;> decide

theorem name_of_ofName? {name : String} {rule : Rule} (h : ofName? name = some rule) :
    rule.name = name := by
  simpa using List.find?_some h

end Rule

end DepNorm
