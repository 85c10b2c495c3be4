import DepNorm.Proofs.Pattern.Search
import DepNorm.Proofs.Related

/-!
The search in a view whose tokens have other names. A search compares names for equality only and
tries what the view lists in the order in which it is listed. So in a view that lists the renamed
tokens and arcs it goes the same ways, and it finds the renamed match.
-/

namespace DepNorm

/-! ### What is renamed -/

/-- The tokens are the same to the rules: no rule looks at a dictionary form or at what mark an
operator has. -/
structure Token.Like (token other : Token) : Prop where
  word : other.word = token.word
  tag : other.tag = token.tag
  isOperator : other.isOperator = token.isOperator

theorem Token.Like.any_eq {token? other? : Option Token} (h : Option.Rel Token.Like token? other?)
    {test : Token → Bool}
    (htest : ∀ {token other : Token}, token.Like other → test other = test token) :
    other?.any test = token?.any test := by
  cases h with
  | none => rfl
  | some hlike => exact htest hlike

theorem NodeTest.holds_like (test : NodeTest) {token other : Token} (h : token.Like other) :
    test.holds other = test.holds token := by
  cases test <;> simp only [holds, h.word, h.tag]

def Arc.rename (index : Nat → Nat) (arc : Arc) : Arc :=
  { arc with dependent := index arc.dependent }

namespace Match

variable (index : Nat → Nat) (found : Match)

def rename : Match :=
  { found with bindings := found.bindings.map fun binding => (binding.1, index binding.2) }

@[simp] theorem rename_id : rename id = id := by
  funext found
  simp [rename]

@[simp] theorem node?_rename (name : String) :
    (found.rename index).node? name = (found.node? name).map index := by
  simp only [node?, rename]
  induction found.bindings with
  | nil => rfl
  | cons binding bindings ih =>
      rw [List.map_cons, List.lookup_cons, List.lookup_cons]
      cases name == binding.1 with
      | true => rfl
      | false => exact ih

@[simp] theorem relation?_rename (name : String) :
    (found.rename index).relation? name = found.relation? name := rfl

theorem uses_rename {index : Nat → Nat} (hindex : index.Injective) (name : Nat) :
    (found.rename index).uses (index name) = found.uses name := by
  simp only [uses, rename, List.any_map, Function.comp_def, hindex.beq_eq]

end Match

namespace Trail

variable (index : Nat → Nat) (trail : Trail)

def rename : Trail := { trail with toMatch := trail.toMatch.rename index }

@[simp] theorem node?_rename (name : String) :
    (trail.rename index).node? name = (trail.node? name).map index := Match.node?_rename _ _ _

@[simp] theorem isAside_rename (name : String) :
    (trail.rename index).isAside name = trail.isAside name := by
  rw [isAside, isAside, node?_rename, Option.isNone_map]
  rfl

theorem giveUp_rename (name : String) :
    (trail.rename index).giveUp name = (trail.giveUp name).rename index := by
  rw [giveUp, giveUp, node?_rename, Option.isSome_map]
  split <;> rfl

theorem setAside_rename (name : String) :
    (trail.rename index).setAside name = (trail.setAside name).rename index := by
  rw [setAside, setAside, isAside_rename, giveUp_rename]
  split <;> rfl

theorem follow_rename (edge : PatternEdge) (arc : Arc) :
    (trail.rename index).follow edge (arc.rename index) =
      (trail.follow edge arc).rename index := by
  simp only [follow, node?_rename, Option.isSome_map]
  simp only [rename, Match.rename, Arc.rename]
  split <;> simp

end Trail

/-! ### The search -/

/-- The second view lists what the first one lists, in the same order, with the tokens renamed. -/
structure View.Renamed (index : Nat → Nat) (view other : View) : Prop where
  injective : index.Injective
  indices : other.indices = view.indices.map index
  token? : ∀ name, Option.Rel Token.Like (view.token? name) (other.token? (index name))
  outgoing : ∀ name, other.outgoing (index name) = (view.outgoing name).map (Arc.rename index)

namespace View.Renamed

open Pattern

variable {index : Nat → Nat} {view other : View} (h : View.Renamed index view other)
  (pattern : Pattern)

include h

theorem fits (trail : Trail) (edge : PatternEdge) (arc : Arc) :
    Pattern.fits other pattern (trail.rename index) edge (arc.rename index) =
      Pattern.fits view pattern trail edge arc := by
  rw [Pattern.fits, Pattern.fits, Trail.node?_rename]
  cases trail.node? edge.dependent with
  | some bound => simp only [Option.map_some, Arc.rename, h.injective.beq_eq]
  | none =>
      have huses : (trail.rename index).uses (index arc.dependent) = trail.uses arc.dependent :=
        Match.uses_rename _ h.injective _
      simp only [Option.map_none, Arc.rename, huses,
        Token.Like.any_eq (h.token? arc.dependent) (NodeTest.holds_like _)]

theorem through? (edges : List PatternEdge) (trail : Trail) :
    Pattern.through? other pattern edges (trail.rename index) =
      (Pattern.through? view pattern edges trail).map (Trail.rename index) := by
  induction edges generalizing trail with
  | nil => rfl
  | cons edge edges ih =>
      have hskip : Pattern.through? other pattern edges
          ((trail.rename index).setAside edge.dependent) =
            (Pattern.through? view pattern edges (trail.setAside edge.dependent)).map
              (Trail.rename index) := by
        rw [Trail.setAside_rename, ih]
      have hgiveUp : Pattern.through? other pattern edges
          ((trail.rename index).giveUp edge.dependent) =
            (Pattern.through? view pattern edges (trail.giveUp edge.dependent)).map
              (Trail.rename index) := by
        rw [Trail.giveUp_rename, ih]
      have hfollow (governor : Nat) :
          ((other.outgoing (index governor)).filter
              (Pattern.fits other pattern (trail.rename index) edge)).findSome? (fun arc =>
            Pattern.through? other pattern edges ((trail.rename index).follow edge arc)) =
          (((view.outgoing governor).filter (Pattern.fits view pattern trail edge)).findSome?
            fun arc => Pattern.through? view pattern edges (trail.follow edge arc)).map
              (Trail.rename index) := by
        rw [h.outgoing, List.filter_map, List.findSome?_map, List.map_findSome?]
        simp only [Function.comp_def, h.fits, Trail.follow_rename, ih]
      -- An edge is skipped, followed or given up in both searches alike.
      rw [Pattern.through?, Pattern.through?, Trail.isAside_rename, Trail.node?_rename, hskip]
      split
      · rfl
      · cases trail.node? edge.governor with
        | none => rfl
        | some governor =>
            simp only [Option.map_some, hfollow, hgiveUp]
            generalize List.findSome? _ _ = followed
            cases followed with
            | some last => rfl
            | none => split <;> rfl

theorem matchAt? (name : Nat) :
    Pattern.matchAt? other pattern (index name) =
      (Pattern.matchAt? view pattern name).map (Match.rename index) := by
  have hstart := h.through? pattern pattern.edges { bindings := [(pattern.anchor.name, name)] }
  rw [matchAt?_eq, matchAt?_eq, Token.Like.any_eq (h.token? name) (NodeTest.holds_like _)]
  split
  · rw [Option.map_map]
    refine (congrArg (Option.map Trail.toMatch) hstart).trans ?_
    rw [Option.map_map]
    rfl
  · rfl

theorem find? : pattern.find? other = (pattern.find? view).map (Match.rename index) := by
  rw [Pattern.find?, Pattern.find?, h.indices, List.findSome?_map, List.map_findSome?]
  simp only [Function.comp_def, h.matchAt?]

end View.Renamed

end DepNorm
