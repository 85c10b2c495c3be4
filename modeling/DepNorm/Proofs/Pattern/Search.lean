import DepNorm.Pattern.Search

/-!
The search without its state. `Pattern.through?` gives the trail at the end of the first way through
the edges, and `run_extend` says that the stateful search finds this trail or, if there is none,
ends with the trail that it was given.
-/

namespace DepNorm

namespace Trail

variable (trail : Trail) (name : String) (edge : PatternEdge) (arc : Arc)

/-! ### Growing and cutting back -/

@[simp] theorem bindings_giveUp : (trail.giveUp name).bindings = trail.bindings := by
  unfold giveUp
  split <;> rfl

@[simp] theorem captures_giveUp : (trail.giveUp name).captures = trail.captures := by
  unfold giveUp
  split <;> rfl

theorem setAside_eq_or : trail.setAside name = trail ∨ trail.setAside name = trail.giveUp name := by
  unfold setAside
  split
  · exact .inl rfl
  · exact .inr rfl

@[simp] theorem bindings_setAside : (trail.setAside name).bindings = trail.bindings := by
  rcases trail.setAside_eq_or name with h | h
  · rw [h]
  · rw [h, bindings_giveUp]

@[simp] theorem captures_setAside : (trail.setAside name).captures = trail.captures := by
  rcases trail.setAside_eq_or name with h | h
  · rw [h]
  · rw [h, captures_giveUp]

@[simp] theorem aside_follow : (trail.follow edge arc).aside = trail.aside := rfl

theorem captures_follow : (trail.follow edge arc).captures =
    trail.captures ++ (edge.capture.map fun name => (name, arc.relation)).toList := by
  unfold follow
  cases edge.capture with
  | some name => rfl
  | none => exact (List.append_nil _).symm

theorem aside_prefix_giveUp : trail.aside <+: (trail.giveUp name).aside := by
  unfold giveUp
  split
  · exact List.prefix_refl _
  · exact List.prefix_append _ _

theorem aside_prefix_setAside : trail.aside <+: (trail.setAside name).aside := by
  rcases trail.setAside_eq_or name with h | h
  · exact h.symm ▸ List.prefix_refl _
  · exact h.symm ▸ trail.aside_prefix_giveUp name

theorem bindings_prefix_follow : trail.bindings <+: (trail.follow edge arc).bindings := by
  simp only [follow]
  split
  · exact List.prefix_refl _
  · exact List.prefix_append _ _

theorem captures_prefix_follow : trail.captures <+: (trail.follow edge arc).captures := by
  rw [captures_follow]
  exact List.prefix_append _ _

/-- A trail that has only grown at its ends is cut back to what it was. -/
theorem rewind_mark {longer : Trail} (hbindings : trail.bindings <+: longer.bindings)
    (hcaptures : trail.captures <+: longer.captures) (haside : trail.aside <+: longer.aside) :
    longer.rewind trail.mark = trail := by
  simp only [rewind, mark, ← List.prefix_iff_eq_take.mp hbindings,
    ← List.prefix_iff_eq_take.mp hcaptures, ← List.prefix_iff_eq_take.mp haside]

theorem rewind_giveUp : (trail.giveUp name).rewind trail.mark = trail := by
  refine trail.rewind_mark ?_ ?_ (trail.aside_prefix_giveUp name)
  · simp only [bindings_giveUp, List.prefix_refl]
  · simp only [captures_giveUp, List.prefix_refl]

theorem rewind_setAside : (trail.setAside name).rewind trail.mark = trail := by
  refine trail.rewind_mark ?_ ?_ (trail.aside_prefix_setAside name)
  · simp only [bindings_setAside, List.prefix_refl]
  · simp only [captures_setAside, List.prefix_refl]

theorem rewind_follow : (trail.follow edge arc).rewind trail.mark = trail := by
  refine trail.rewind_mark (trail.bindings_prefix_follow edge arc)
    (trail.captures_prefix_follow edge arc) ?_
  simp only [aside_follow, List.prefix_refl]

theorem decided_giveUp : (trail.node? name).isSome ∨ name ∈ (trail.giveUp name).aside := by
  unfold giveUp
  split
  · next hbound => exact .inl hbound
  · exact .inr (by simp)

theorem decided_setAside :
    (trail.node? name).isSome ∨ name ∈ (trail.setAside name).aside := by
  unfold setAside
  split
  · next haside => exact .inr (by simpa using (Bool.and_eq_true_iff.mp haside).1)
  · exact trail.decided_giveUp name

end Trail

namespace Pattern

variable (view : View) (pattern : Pattern)

/-- The trail at the end of the first way through the edges. -/
def through? : List PatternEdge → Trail → Option Trail
  | [], trail => some trail
  | edge :: edges, trail =>
    if trail.isAside edge.governor then through? edges (trail.setAside edge.dependent)
    else
      match trail.node? edge.governor with
      | none => none
      | some governor =>
        (((view.outgoing governor).filter (fits view pattern trail edge)).findSome? fun arc =>
          through? edges (trail.follow edge arc)) <|>
        if edge.optional then through? edges (trail.giveUp edge.dependent) else none

/-- How a search ends that began with the given trail. -/
def ended (trail : Trail) : Option Trail → Bool × Trail
  | some last => (true, last)
  | none => (false, trail)

theorem run_get_bind {α σ : Type} (next : σ → StateM σ α) (state : σ) :
    (get >>= next : StateM σ α).run state = (next state).run state := rfl

theorem run_bind {α β σ : Type} (first : StateM σ α) (next : α → StateM σ β) (state : σ) :
    (first >>= next).run state = (next (first.run state).1).run (first.run state).2 := rfl

theorem run_attempt {trail : Trail} {change : Trail → Trail} {way : StateM Trail Bool}
    {result : Option Trail} (hway : way.run (change trail) = ended (change trail) result)
    (hchange : (change trail).rewind trail.mark = trail) :
    (attempt do modify change; way).run trail = ended trail result := by
  have hmodify : (do modify change; way : StateM Trail Bool).run trail =
      ended (change trail) result := hway
  rw [attempt, run_get_bind, run_bind, hmodify]
  cases result with
  | none => exact congrArg (Prod.mk false) hchange
  | some last => rfl

theorem run_anyM {α : Type} {trail : Trail} {way : α → StateM Trail Bool}
    {result : α → Option Trail} (hway : ∀ a, (way a).run trail = ended trail (result a))
    (items : List α) : (items.anyM way).run trail = ended trail (items.findSome? result) := by
  induction items with
  | nil => rfl
  | cons a items ih =>
      rw [List.anyM_cons, run_bind, hway, List.findSome?_cons]
      cases result a with
      | none => exact ih
      | some last => rfl

/-- The search ends in the first way through, and otherwise leaves the trail as it was. -/
theorem run_extend (edges : List PatternEdge) (trail : Trail) :
    (extend view pattern edges).run trail = ended trail (through? view pattern edges trail) := by
  induction edges generalizing trail with
  | nil => rfl
  | cons edge edges ih =>
      -- All ways on are attempts, so none leaves a trace if it leads nowhere.
      have hskip : (attempt do modify (·.setAside edge.dependent); extend view pattern edges).run
          trail = ended trail (through? view pattern edges (trail.setAside edge.dependent)) :=
        run_attempt (ih _) (trail.rewind_setAside edge.dependent)
      have hgiveUp : (attempt do modify (·.giveUp edge.dependent); extend view pattern edges).run
          trail = ended trail (through? view pattern edges (trail.giveUp edge.dependent)) :=
        run_attempt (ih _) (trail.rewind_giveUp edge.dependent)
      have hfollow (arc : Arc) :
          (attempt do modify (·.follow edge arc); extend view pattern edges).run trail =
            ended trail (through? view pattern edges (trail.follow edge arc)) :=
        run_attempt (ih _) (trail.rewind_follow edge arc)
      rw [extend, getPast, run_get_bind, through?]
      by_cases haside : trail.isAside edge.governor
      · rw [if_pos haside, if_pos haside]
        exact hskip
      · rw [if_neg haside, if_neg haside]
        cases trail.node? edge.governor with
        | none => rfl
        | some governor =>
            simp only [run_bind, run_anyM hfollow]
            cases List.findSome? (fun arc => through? view pattern edges (trail.follow edge arc))
              ((view.outgoing governor).filter (fits view pattern trail edge)) with
            | some last => rfl
            | none =>
                cases edge.optional with
                | true => exact hgiveUp
                | false => rfl

theorem matchAt?_eq (index : Nat) :
    matchAt? view pattern index =
      if (view.token? index).any pattern.anchor.test.holds then
        (through? view pattern pattern.edges
          { bindings := [(pattern.anchor.name, index)] }).map Trail.toMatch
      else none := by
  simp only [matchAt?, run_extend]
  cases through? view pattern pattern.edges { bindings := [(pattern.anchor.name, index)] } <;> rfl

end Pattern

end DepNorm
