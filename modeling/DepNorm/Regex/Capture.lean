import DepNorm.Regex.Basic

/-!
Matching with groups, by going back at a dead end. Where an expression matches in several ways, the
ways are tried in an order: those of an earlier branch come first, and a repetition is tried the
sooner the longer it goes on. The first way after which the rest of the expression matches too is
the one that counts.
-/

namespace DepNorm.Regex

/-- A place that the match of an expression has come to. -/
structure Place where
  atStart : Bool
  /-- The text after the place. -/
  after : List Char
  /-- The texts of the groups that have matched, by their numbers, the last one first. -/
  groups : List (Nat × List Char) := []
  deriving DecidableEq, Repr

namespace Place

/-- Goes on behind the next character, if it passes the test. -/
def step? (place : Place) (test : Char → Bool) (next : Place → Option Place) : Option Place :=
  match place.after with
  | [] => none
  | c :: rest => if test c then next { place with atStart := false, after := rest } else none

def upTo (place further : Place) : List Char :=
  place.after.take (place.after.length - further.after.length)

/-- The later place, with the text up to it as the text of a group. -/
def record (place : Place) (number : Nat) (further : Place) : Place :=
  { further with groups := (number, place.upTo further) :: further.groups }

def group? (place : Place) (number : Nat) : Option (List Char) := place.groups.lookup number

end Place

/-- Does `once` as often as possible, then goes on with `next`. What takes no text ends it. -/
def repeat? (once : (Place → Option Place) → Place → Option Place)
    (next : Place → Option Place) (place : Place) : Option Place :=
  (once (fun further =>
      if further.after.length < place.after.length then repeat? once next further
      else next further) place).or (next place)
termination_by place.after.length

/-- Matches from the place on and goes on with `next`, in the first way in which `next` succeeds. -/
def match? : Regex → (Place → Option Place) → Place → Option Place
  | empty, next, place => next place
  | char c, next, place => place.step? (· == c) next
  | any, next, place => place.step? (· != '\n') next
  | oneOf ranges, next, place =>
    place.step? (fun c => ranges.any fun r => r.1 ≤ c && c ≤ r.2) next
  | seq first second, next, place => first.match? (second.match? next) place
  | alt left right, next, place => (left.match? next place).or (right.match? next place)
  | star body, next, place => repeat? body.match? next place
  | plus body, next, place => body.match? (repeat? body.match? next) place
  | textStart, next, place => if place.atStart then next place else none
  | textEnd, next, place => if place.after.isEmpty then next place else none
  | group number body, next, place =>
    body.match? (fun further => next (place.record number further)) place

/-- Where the first match ends at the leftmost place of the text that has one, with the texts of its
groups. -/
def captures? (regex : Regex) (text : List Char) : Option Place :=
  go true text
where
  go (atStart : Bool) : List Char → Option Place
    | [] => regex.match? some { atStart, after := [] }
    | c :: rest => (regex.match? some { atStart, after := c :: rest }).or (go false rest)

end DepNorm.Regex
