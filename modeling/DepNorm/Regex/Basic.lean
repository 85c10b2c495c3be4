/-!
Regular expressions that are searched for in a text. `Regex.residues` says what is left to be
matched after one character has been read; a search keeps the set of all that may be left, so it
reads the text once. The anchors hold only at the very start and the very end of the text, so the
test for an empty match is told where it stands.
-/

namespace DepNorm

inductive Regex where
  | empty
  | char (c : Char)
  /-- Any character but a line feed. -/
  | any
  /-- A character in one of the closed ranges. -/
  | oneOf (ranges : List (Char × Char))
  | seq (first second : Regex)
  | alt (left right : Regex)
  | star (body : Regex)
  | plus (body : Regex)
  | textStart
  | textEnd
  /-- The group with the number, which keeps the text that it matches. -/
  | group (number : Nat) (body : Regex)
  deriving DecidableEq, Repr

namespace Regex

/-- Whether the expression matches the empty piece of text at a place that is or is not the start
and is or is not the end of the text. -/
def nullable (atStart atEnd : Bool) : Regex → Bool
  | empty => true
  | char _ | any | oneOf _ => false
  | seq first second => first.nullable atStart atEnd && second.nullable atStart atEnd
  | alt left right => left.nullable atStart atEnd || right.nullable atStart atEnd
  | star _ => true
  | plus body => body.nullable atStart atEnd
  | textStart => atStart
  | textEnd => atEnd
  | group _ body => body.nullable atStart atEnd

/-- The expressions of which one has to match the rest of a piece of text after its first
character `c`. -/
def residues (atStart : Bool) (c : Char) : Regex → List Regex
  | empty | textStart | textEnd => []
  | char d => if c = d then [empty] else []
  | any => if c = '\n' then [] else [empty]
  | oneOf ranges => if ranges.any fun r => r.1 ≤ c && c ≤ r.2 then [empty] else []
  | seq first second =>
    (first.residues atStart c).map (seq · second) ++
      if first.nullable atStart false then second.residues atStart c else []
  | alt left right => left.residues atStart c ++ right.residues atStart c
  | star body => (body.residues atStart c).map (seq · (star body))
  | plus body => (body.residues atStart c).map (seq · (star body))
  | group _ body => body.residues atStart c

/-- Whether the expression matches some piece of the text. -/
def foundIn (regex : Regex) (text : List Char) : Bool :=
  go true [regex] text
where
  /-- The search goes on from a place where one of `states` has to match, or a match may begin. -/
  go (atStart : Bool) (states : List Regex) : List Char → Bool
    | [] => states.any (nullable atStart true)
    | c :: rest =>
      states.any (nullable atStart false) ||
        go false (states.flatMap (residues atStart c) ++ [regex]).eraseDups rest

def concat (items : List Regex) : Regex := items.foldr seq empty

def word (text : String) : Regex := concat (text.toList.map char)

def choice (first : Regex) (others : List Regex) : Regex := others.foldl alt first

/-- One of the words, as the whole of the text. -/
def oneOfWords (words : List String) : Regex :=
  match words.map word with
  | [] => oneOf []
  | first :: others => seq textStart (seq (choice first others) textEnd)

example : (oneOfWords ["dep", "advcl"]).foundIn "dep".toList = true := by decide

example : (oneOfWords ["dep", "advcl"]).foundIn "depx".toList = false := by decide

end Regex

end DepNorm
