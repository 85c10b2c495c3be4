import DepNorm.Proofs.Pattern.First

/-!
Searches in wider views. A wider view lists the same indices and gives the same tokens, and what
leaves an index leaves it there too, all this in any order and with anything besides. The search
takes other ways in it: it tries other entries first, and an optional edge that had no entry may get
one, whose token is then in use. No match is lost by this. Whatever could be chosen can still be
chosen, only that an entry may stand at another position.
-/

namespace DepNorm

/-- What the first view shows, the second shows as well. -/
structure View.Within (view wider : View) : Prop where
  indices : view.indices ⊆ wider.indices
  token {index : Nat} {token : Token} (h : view.token? index = some token) :
    wider.token? index = some token
  outgoing (index : Nat) : view.outgoing index ⊆ wider.outgoing index

namespace Pattern

variable {view wider : View} {pattern : Pattern} {bound last : Bindings}
  {edges : List PatternEdge} {choices : List Choice} {taken : List (PatternEdge × Arc)}

theorem Admits.within {edge : PatternEdge} {arc : Arc} (hwithin : view.Within wider)
    (h : Admits view pattern bound edge arc) : Admits wider pattern bound edge arc := by
  refine ⟨h.relation, h.dependent.imp_right ?_⟩
  rintro ⟨hnone, hunused, token, htoken, htest⟩
  exact ⟨hnone, hunused, token, hwithin.token htoken, htest⟩

theorem Selects.within (hwithin : view.Within wider)
    (h : Selects view pattern bound edges choices taken last) :
    ∃ choices, Selects wider pattern bound edges choices taken last := by
  induction h with
  | done bound => exact ⟨[], .done bound⟩
  | pass hgovernor _ ih =>
      obtain ⟨choices, rest⟩ := ih
      exact ⟨_, .pass hgovernor rest⟩
  | entry hgovernor harc hadmits _ ih =>
      obtain ⟨choices, rest⟩ := ih
      have hmem := hwithin.outgoing _ (List.mem_of_getElem? harc)
      obtain ⟨position, hposition⟩ := List.mem_iff_getElem?.mp hmem
      exact ⟨_, .entry hgovernor hposition (hadmits.within hwithin) rest⟩
  | skip hgovernor hoptional _ ih =>
      obtain ⟨choices, rest⟩ := ih
      exact ⟨_, .skip hgovernor hoptional rest⟩

theorem Leads.within (hwithin : view.Within wider) (h : Leads view pattern bound edges) :
    Leads wider pattern bound edges := by
  obtain ⟨_, taken, last, hselects⟩ := h
  obtain ⟨choices, hselects⟩ := hselects.within hwithin
  exact ⟨choices, taken, last, hselects⟩

/-- A pattern that is accepted and found in a view is found in every wider view. -/
theorem found_in_wider {name : String} {declarations : List Declaration} {pattern : Pattern}
    (hdeclare : declare name declarations = .ok pattern) {view wider : View}
    (hwithin : view.Within wider) (hfound : (pattern.find? view).isSome = true) :
    (pattern.find? wider).isSome = true := by
  have hgoverned := governed_of_declare hdeclare
  rw [isSome_find?_iff hgoverned] at hfound ⊢
  obtain ⟨index, hindex, token, htoken, htest, hleads⟩ := hfound
  exact ⟨index, hwithin.indices hindex, token, hwithin.token htoken, htest,
    hleads.within hwithin⟩

/-- The view `eatsCake` with a subject, which comes first among the indices and among what leaves
the verb. It has no mark. -/
def dogEatsCake : View where
  indices := [3, 1, 2]
  token?
    | 3 => some { index := 3, word := "dog", baseForm := "dog", tag := "NN" }
    | index => eatsCake.token? index
  outgoing
    | 1 => { dependent := 3, relation := "nsubj" } :: eatsCake.outgoing 1
    | index => eatsCake.outgoing index

/-- In `dogEatsCake` the pattern is found as in `eatsCake`, though the optional edge can be matched
there by an entry from which nothing leads on. -/
theorem found_in_wider_dogEatsCake :
    eatsCake.Within dogEatsCake ∧ (verbAndNounPattern.find? dogEatsCake).isSome = true := by
  have hwithin : eatsCake.Within dogEatsCake := by
    refine ⟨by decide, fun {index token} htoken => ?_, fun index => ?_⟩
    · have hindex : index ≠ 3 := by
        rintro rfl
        cases htoken
      simpa only [dogEatsCake] using htoken
    · by_cases hindex : index = 1
      · subst hindex
        exact List.subset_cons_self _ _
      · simp only [dogEatsCake]
        exact List.Subset.refl _
  have hdeclare : declare "verb and noun" verbAndNoun = .ok verbAndNounPattern := by decide
  have hfound : (verbAndNounPattern.find? eatsCake).isSome = true := by decide
  exact ⟨hwithin, found_in_wider hdeclare hwithin hfound⟩

end Pattern

end DepNorm
