import DepNorm.Text.Blank
import DepNorm.Fault

/-!
Sets of rules. A set is written as the names of its rules in the order of the rules, joined by
commas; it is read from names in any order, with blanks around them, repetitions and empty items.
-/

namespace DepNorm

/-- The rules that are switched on, one bit for each, the first rule's bit being the lowest. -/
structure Filters where
  bits : BitVec 6
  deriving DecidableEq, Repr

namespace Filters

instance : Membership Rule Filters where
  mem filters rule := filters.bits.getLsbD rule.position = true

instance (rule : Rule) (filters : Filters) : Decidable (rule ∈ filters) :=
  inferInstanceAs (Decidable (filters.bits.getLsbD rule.position = true))

instance : EmptyCollection Filters where
  emptyCollection := ⟨0#6⟩

instance : Singleton Rule Filters where
  singleton rule := ⟨1#6 <<< rule.position⟩

instance : Insert Rule Filters where
  insert rule filters := ⟨filters.bits ||| 1#6 <<< rule.position⟩

@[simp] theorem not_mem_empty (rule : Rule) : rule ∉ (∅ : Filters) := by
  cases rule <;> decide

@[simp] theorem mem_insert {rule new : Rule} {filters : Filters} :
    rule ∈ insert new filters ↔ rule = new ∨ rule ∈ filters := by
  cases rule <;> cases new <;> simp [Membership.mem, Insert.insert, Rule.position]

@[simp] theorem mem_singleton {rule new : Rule} : rule ∈ ({new} : Filters) ↔ rule = new := by
  cases rule <;> cases new <;> decide

/-- The set with the given bits, if no other bit is set. -/
def ofBits? (bits : Nat) : Option Filters := if bits < 64 then some ⟨BitVec.ofNat 6 bits⟩ else none

/-- The set with the given bits, other bits left aside. -/
def ofLowBits (bits : Nat) : Filters := ⟨BitVec.ofNat 6 bits⟩

def ofList (rules : List Rule) : Filters := rules.foldl (fun filters rule => insert rule filters) ∅

def toList (filters : Filters) : List Rule := Rule.all.filter (· ∈ filters)

/-- All rules but the one that drops determiners. -/
def standard : Filters :=
  ofList [.thereBe, .atLeast, .quantity, .operatorRoot, .clause]

/-- The items of a comma list, without blanks around them and without the empty ones. -/
def items (config : String) : List String :=
  (((config.toList.splitOn ',').map Text.trim).filter fun item => !item.isEmpty).map String.ofList

/-- The set that a configuration names. An item that is no rule's name is a fault, the first such
item being the one reported. -/
def parse (config : String) : Except Fault Filters :=
  (items config).foldlM
    (fun filters item =>
      match Rule.ofName? item with
      | some rule => .ok (insert rule filters)
      | none => .error (.unknownFilter item))
    ∅

def toText (filters : Filters) : String := ",".intercalate (filters.toList.map Rule.name)

/-- The name of the rule, for a set of a single rule. -/
def name? (filters : Filters) : Option String :=
  match filters.toList with
  | [rule] => some rule.name
  | _ => none

def ofName? (name : String) : Option Filters := (Rule.ofName? name).map singleton

example : standard.bits = 47#6 := by decide

example : standard.toText = "therebe,atleastafew,mods,rootedq,has" := by decide +kernel

end Filters

end DepNorm
