import DepNorm.Regex.Basic

/-!
The text form of regular expressions: plain characters, `.`, classes such as `[ab]` and `[0-9]`,
`+` and `*` behind an item, `|` between branches, groups `(` … `)`, which are numbered from one as
they open, or `(?:` … `)`, which are not, and the anchors `^` and `$`. Any other use of a special
character is refused.

The reader goes through the text once and keeps the groups that are still open on a stack.
-/

namespace DepNorm.Regex

/-- A group that is being read: its number, if it has one, the branches that are complete, and the
items of the branch at hand, last first. -/
structure OpenGroup where
  number : Option Nat := none
  branches : Option Regex := none
  items : List Regex := []

namespace OpenGroup

/-- What stands in the group so far. -/
def body (group : OpenGroup) : Regex :=
  match group.branches with
  | none => concat group.items.reverse
  | some branches => .alt branches (concat group.items.reverse)

/-- The group as it would be if it ended here. -/
def close (group : OpenGroup) : Regex :=
  match group.number with
  | none => group.body
  | some number => .group number group.body

def push (group : OpenGroup) (item : Regex) : OpenGroup :=
  { group with items := item :: group.items }

def nextBranch (group : OpenGroup) : OpenGroup :=
  { group with branches := some group.body, items := [] }

/-- Puts a repetition around the last item, if there is one. -/
def repeatLast? (group : OpenGroup) (repetition : Regex → Regex) : Option OpenGroup :=
  match group.items with
  | [] => none
  | last :: before => some { group with items := repetition last :: before }

end OpenGroup

/-- The characters that have a meaning of their own. -/
def isSpecial (c : Char) : Bool :=
  c ∈ ['\\', '.', '+', '*', '?', '(', ')', '|', '[', ']', '\x7b', '\x7d', '^', '$']

mutual

/-- Reads on outside of a class, when the last group to open had the number `last`, with the group
at hand and the groups around it. -/
def readItems (last : Nat) (group : OpenGroup) (outer : List OpenGroup) :
    List Char → Option Regex
  | [] => if outer.isEmpty then some group.close else none
  | '|' :: rest => readItems last group.nextBranch outer rest
  | '(' :: '?' :: ':' :: rest => readItems last {} (group :: outer) rest
  | '(' :: '?' :: _ => none
  | '(' :: rest => readItems (last + 1) { number := some (last + 1) } (group :: outer) rest
  | ')' :: rest =>
    match outer with
    | [] => none
    | around :: outer => readItems last (around.push group.close) outer rest
  | '*' :: rest => (group.repeatLast? star).bind fun group => readItems last group outer rest
  | '+' :: rest => (group.repeatLast? plus).bind fun group => readItems last group outer rest
  | '.' :: rest => readItems last (group.push any) outer rest
  | '^' :: rest => readItems last (group.push textStart) outer rest
  | '$' :: rest => readItems last (group.push textEnd) outer rest
  | '[' :: rest => readClass last group outer [] rest
  | c :: rest => if isSpecial c then none else readItems last (group.push (char c)) outer rest

/-- Reads on inside of a class of which `ranges` have been read. -/
def readClass (last : Nat) (group : OpenGroup) (outer : List OpenGroup)
    (ranges : List (Char × Char)) : List Char → Option Regex
  | [] => none
  | ']' :: rest =>
    if ranges.isEmpty then none else readItems last (group.push (oneOf ranges.reverse)) outer rest
  | low :: '-' :: high :: rest =>
    if isSpecial low || isSpecial high then none
    else readClass last group outer ((low, high) :: ranges) rest
  | c :: rest => if isSpecial c then none else readClass last group outer ((c, c) :: ranges) rest

end

/-- The expression that a text stands for. -/
def parse? (text : List Char) : Option Regex := readItems 0 {} [] text

example : (parse? "^l.t$".toList).map (·.foundIn "lot".toList) = some true := by decide

example : (parse? "^(?:a|[0-9]+)$".toList).map (·.foundIn "a1".toList) = some false := by decide

end DepNorm.Regex
