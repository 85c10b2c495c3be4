import DepNorm.Fault
import DepNorm.Text.Blank
import DepNorm.Text.Lines
import DepNorm.Text.Numeral

/-!
One line of a token table: index, word, base form, tag, head and relation, and perhaps an operator
mark and secondary edges. The head is `_` for a token without head, `0` for a root, or the index of
the governor. Secondary edges are items `head:relation` joined by `|`; an operator mark or a list
of secondary edges that is `_` counts as absent.
-/

namespace DepNorm.TokenTable

inductive Head where
  | none
  | root
  | token (index : Nat)
  deriving DecidableEq, Repr

structure Row where
  token : Token
  head : Head
  /-- The relation to the head, if the head is a token. -/
  relation : String
  /-- Heads and relations of the secondary edges. -/
  extras : List (Nat × String)
  deriving DecidableEq, Repr

def readIndex (field : List Char) : Except LineFault Nat :=
  match Text.readIndex? field with
  | some index => .ok index
  | none => .error (.notAnIndex (String.ofList field))

def Head.read (field : List Char) : Except LineFault Head :=
  if field = ['_'] then .ok .none
  else if field = ['0'] then .ok .root
  else (readIndex field).map .token

/-- Reads an item `head:relation`; the relation may hold further colons. -/
def readExtra (item : List Char) : Except LineFault (Nat × String) :=
  match item.dropWhile (· != ':') with
  | [] => .error (.notAHeadAndRelation (String.ofList item))
  | _ :: relation =>
    (readIndex (item.takeWhile (· != ':'))).map fun head => (head, String.ofList relation)

/-- The content of an optional column, where `_` stands for none. -/
def readOptional (field : Option (List Char)) : Option (List Char) :=
  field.filter fun field => field != ['_']

def readExtras (field : Option (List Char)) : Except LineFault (List (Nat × String)) :=
  match readOptional field with
  | none => .ok []
  | some field => (field.splitOn '|').mapM readExtra

/-- Splits a line without blanks at its end into columns: at the tabs if there are any, else into
words. -/
def columns (line : List Char) : List (List Char) :=
  if '\t' ∈ line then line.splitOn '\t' else Text.words line

/-- Reads the columns of a line when the indices in `seen` are taken. -/
def Row.read (seen : List Nat) : List (List Char) → Except LineFault Row
  | index :: word :: baseForm :: tag :: head :: relation :: others => do
    let index ← readIndex index
    if index = 0 then throw .reservedIndex
    if index ∈ seen then throw (.duplicateIndex index)
    let head ← Head.read head
    let extras ← readExtras others[1]?
    return {
      token := {
        index
        word := String.ofList word
        baseForm := String.ofList baseForm
        tag := String.ofList tag
        operator := (readOptional others[0]?).map String.ofList }
      head
      relation := String.ofList relation
      extras }
  | columns => .error (.tooFewColumns columns.length)

/-- The edges into the row's token: the one from its head, then the secondary ones. -/
def Row.edges (row : Row) : List Edge :=
  (match row.head with
    | .token head => [{ governor := head, dependent := row.token.index, relation := row.relation }]
    | _ => []) ++
  row.extras.map fun extra =>
    { governor := extra.1, dependent := row.token.index, relation := extra.2, extra := true }

/-- A blank line, or a comment: a line that opens with `#` after any blanks. -/
def isSkipped (line : List Char) : Bool :=
  match Text.trimStart line with
  | [] => true
  | c :: _ => c = '#'

end DepNorm.TokenTable
