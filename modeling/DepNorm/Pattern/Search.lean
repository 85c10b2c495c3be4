import DepNorm.Pattern.Basic
import DepNorm.Pattern.View

/-!
The search for a pattern. The anchor is bound to each listed index in turn, and then the edges of
the pattern are taken in order. For an edge whose governor is bound, the search tries each outgoing
arc that fits and goes on with the next edge; if nothing comes of any of them, an optional edge is
given up and its dependent set aside. Edges that start from a node set aside are passed over. The
first way to get through all edges is the match.

What has been decided so far is kept on a trail that only grows at its ends, so a way that leads
nowhere is undone by cutting the trail back to a mark.
-/

namespace DepNorm

/-- Pattern nodes with the indices bound to them, and captured relations, each in the order in
which they were found. -/
structure Match where
  bindings : List (String × Nat) := []
  captures : List (String × String) := []
  deriving DecidableEq, Repr

namespace Match

def node? (found : Match) (name : String) : Option Nat := found.bindings.lookup name

/-- The relation captured under a name, the first one if there are several. -/
def relation? (found : Match) (name : String) : Option String := found.captures.lookup name

def uses (found : Match) (index : Nat) : Bool :=
  found.bindings.any fun binding => binding.2 == index

end Match

structure Trail extends Match where
  /-- Pattern nodes that were left without a token. -/
  aside : List String := []
  deriving DecidableEq, Repr

namespace Trail

/-- Lengths of the parts of a trail. -/
structure Mark where
  bindings : Nat
  captures : Nat
  aside : Nat

def mark (trail : Trail) : Mark where
  bindings := trail.bindings.length
  captures := trail.captures.length
  aside := trail.aside.length

def rewind (trail : Trail) (mark : Mark) : Trail where
  bindings := trail.bindings.take mark.bindings
  captures := trail.captures.take mark.captures
  aside := trail.aside.take mark.aside

/-- A node set aside counts as such until it is bound. -/
def isAside (trail : Trail) (name : String) : Bool :=
  trail.aside.contains name && (trail.node? name).isNone

/-- Gives up a node, if it is not bound. It is set aside once more if it was aside already. -/
def giveUp (trail : Trail) (name : String) : Trail :=
  if (trail.node? name).isSome then trail else { trail with aside := trail.aside ++ [name] }

/-- Sets a node aside that has not been decided on. -/
def setAside (trail : Trail) (name : String) : Trail :=
  if trail.isAside name then trail else trail.giveUp name

/-- Records that the edge is matched by the arc. -/
def follow (trail : Trail) (edge : PatternEdge) (arc : Arc) : Trail :=
  { trail with
    bindings :=
      if (trail.node? edge.dependent).isSome then trail.bindings
      else trail.bindings ++ [(edge.dependent, arc.dependent)]
    captures :=
      match edge.capture with
      | some name => trail.captures ++ [(name, arc.relation)]
      | none => trail.captures }

end Trail

namespace Pattern

/-- Whether the arc may match the edge: its relation passes, and it leads to the token bound to the
edge's dependent or, if none is bound, to a token that passes the test and is not in use. -/
def fits (view : View) (pattern : Pattern) (trail : Trail) (edge : PatternEdge) (arc : Arc) :
    Bool :=
  edge.relation.holds arc.relation &&
    match trail.node? edge.dependent with
    | some index => arc.dependent == index
    | none =>
      !trail.uses arc.dependent &&
        (view.token? arc.dependent).any (pattern.test edge.dependent).holds

variable {m : Type → Type} [Monad m]

/-- Goes a way and, if it leads nowhere, cuts the trail back to where it was. -/
def attempt (way : StateT Trail m Bool) : StateT Trail m Bool := do
  let mark := (← get).mark
  if ← way then return true
  modify (·.rewind mark)
  return false

/-- Gets past an edge and then, by `further`, through the edges after it, if there is a way. -/
def getPast (view : View) (pattern : Pattern) (edge : PatternEdge) (further : StateT Trail m Bool) :
    StateT Trail m Bool := do
  let trail ← get
  if trail.isAside edge.governor then
    attempt do
      modify (·.setAside edge.dependent)
      further
  else
    match trail.node? edge.governor with
    | none => return false
    | some governor =>
      let arcs := (view.outgoing governor).filter (fits view pattern trail edge)
      let followed ← arcs.anyM fun arc =>
        attempt do
          modify (·.follow edge arc)
          further
      if followed then return true
      if edge.optional then
        attempt do
          modify (·.giveUp edge.dependent)
          further
      else return false

/-- Gets through the remaining edges, if there is a way. -/
def extend (view : View) (pattern : Pattern) : List PatternEdge → StateM Trail Bool
  | [] => return true
  | edge :: edges => getPast view pattern edge (extend view pattern edges)

def matchAt? (view : View) (pattern : Pattern) (index : Nat) : Option Match :=
  if (view.token? index).any pattern.anchor.test.holds then
    let start : Trail := { bindings := [(pattern.anchor.name, index)] }
    let (found, trail) := (extend view pattern pattern.edges).run start
    if found then some trail.toMatch else none
  else none

def find? (pattern : Pattern) (view : View) : Option Match :=
  view.indices.findSome? (matchAt? view pattern)

end Pattern

end DepNorm
