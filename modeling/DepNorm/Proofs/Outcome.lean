import Mathlib.Data.List.Forall2
import Mathlib.Order.Defs.Unbundled

/-!
Computations that end in a value or in a fault, taken apart: what a sequence of two that ended in a
value did on the way, and what a fold that ended in a value did to its state.
-/

namespace DepNorm.Outcome

variable {α β σ ε : Type}

theorem exists_of_bind_eq_ok {first : Except ε α} {next : α → Except ε β} {b : β}
    (h : (first >>= next) = .ok b) : ∃ a, first = .ok a ∧ next a = .ok b := by
  cases first with
  | error fault => cases h
  | ok a => exact ⟨a, rfl, h⟩

theorem related_of_foldlM_eq_ok {R : σ → σ → Prop} [IsPreorder σ R] {move : σ → α → Except ε σ}
    (hmove : ∀ s a s', move s a = .ok s' → R s s') {items : List α} {first last : σ}
    (h : items.foldlM move first = .ok last) : R first last := by
  induction items generalizing first with
  | nil =>
      cases h
      exact refl_of R _
  | cons a items ih =>
      rw [List.foldlM_cons] at h
      obtain ⟨next, hnext, hrest⟩ := exists_of_bind_eq_ok h
      exact trans_of R (hmove _ _ _ hnext) (ih hrest)

theorem exists_of_map_eq_ok {f : α → β} {outcome : Except ε α} {b : β}
    (h : outcome.map f = .ok b) : ∃ a, outcome = .ok a ∧ f a = b := by
  cases outcome with
  | error fault => cases h
  | ok a =>
      cases h
      exact ⟨a, rfl, rfl⟩

/-- A list of values comes out if each item gives the value at its place. -/
theorem mapM_eq_ok_iff {f : α → Except ε β} {items : List α} {values : List β} :
    items.mapM f = .ok values ↔ List.Forall₂ (fun a b => f a = .ok b) items values := by
  induction items generalizing values with
  | nil =>
      rw [List.forall₂_nil_left_iff]
      exact ⟨fun h => (Except.ok.inj h).symm, fun h => congrArg Except.ok h.symm⟩
  | cons a items ih =>
      rw [List.mapM_cons, List.forall₂_cons_left_iff]
      constructor
      · intro h
        obtain ⟨b, hb, h⟩ := exists_of_bind_eq_ok h
        obtain ⟨rest, hrest, h⟩ := exists_of_bind_eq_ok h
        cases h
        exact ⟨b, rest, hb, ih.mp hrest, rfl⟩
      · rintro ⟨b, rest, hb, hrest, rfl⟩
        rw [hb, ih.mpr hrest]
        rfl

theorem exists_of_mem_right {R : α → β → Prop} {items : List α} {others : List β}
    (h : List.Forall₂ R items others) {b : β} (hb : b ∈ others) : ∃ a ∈ items, R a b := by
  induction h with
  | nil => cases hb
  | @cons a _ items _ hfirst _ ih =>
      rcases List.mem_cons.mp hb with rfl | hb
      · exact ⟨a, List.mem_cons_self, hfirst⟩
      · exact (ih hb).imp fun _ => And.imp_left (List.mem_cons_of_mem _)

theorem exists_of_mem_of_mapM_eq_ok {f : α → Except ε β} {items : List α} {values : List β}
    (h : items.mapM f = .ok values) {b : β} (hb : b ∈ values) : ∃ a ∈ items, f a = .ok b :=
  exists_of_mem_right (mapM_eq_ok_iff.mp h) hb

theorem mapM_eq_ok {f : α → Except ε β} {g : α → β} {items : List α}
    (h : ∀ a ∈ items, f a = .ok (g a)) : items.mapM f = .ok (items.map g) :=
  mapM_eq_ok_iff.mpr (List.forall₂_map_right_iff.mpr (List.forall₂_same.mpr h))

theorem exists_of_foldlM {P : σ → Prop} {move : σ → α → Except ε σ} {items : List α}
    (hmove : ∀ s, P s → ∀ a ∈ items, ∃ s', move s a = .ok s' ∧ P s') {first : σ}
    (hfirst : P first) :
    ∃ last, items.foldlM move first = .ok last ∧ P last := by
  induction items generalizing first with
  | nil => exact ⟨first, rfl, hfirst⟩
  | cons a items ih =>
      obtain ⟨next, hnext, hinv⟩ := hmove first hfirst a List.mem_cons_self
      rw [List.foldlM_cons, hnext]
      exact ih (fun s hs other hother => hmove s hs other (List.mem_cons_of_mem _ hother)) hinv

/-- A fold ends in the fault of the first move that has one, if an invariant holds until then. -/
theorem exists_foldlM_error {P : σ → Prop} {R : ε → Prop} {move : σ → α → Except ε σ}
    {before after : List α} {a : α}
    (hbefore : ∀ s, P s → ∀ b ∈ before, ∃ s', move s b = .ok s' ∧ P s')
    (ha : ∀ s, P s → ∃ fault, move s a = .error fault ∧ R fault) {first : σ} (hfirst : P first) :
    ∃ fault, (before ++ a :: after).foldlM move first = .error fault ∧ R fault := by
  obtain ⟨s, hs, hinv⟩ := exists_of_foldlM hbefore hfirst
  obtain ⟨fault, hfault, hR⟩ := ha s hinv
  refine ⟨fault, ?_, hR⟩
  rw [List.foldlM_append, hs]
  change (a :: after).foldlM move s = .error fault
  rw [List.foldlM_cons, hfault]
  rfl

theorem exists_first {p : α → Prop} {items : List α} (h : ∃ a ∈ items, p a) :
    ∃ before a after, items = before ++ a :: after ∧ (∀ b ∈ before, ¬ p b) ∧ p a := by
  classical
  obtain ⟨a, hfirst⟩ : ∃ a, (items.find? fun a => decide (p a)) = some a := by
    rw [← Option.isSome_iff_exists, List.find?_isSome]
    simpa using h
  obtain ⟨ha, before, after, hitems, hbefore⟩ := List.find?_eq_some_iff_append.mp hfirst
  exact ⟨before, a, after, hitems, by simpa using hbefore, by simpa using ha⟩

theorem of_foldlM_eq_ok {P : List α → σ → Prop} {move : σ → α → Except ε σ} {items : List α}
    (hmove : ∀ done s s', ∀ a ∈ items, P done s → move s a = .ok s' → P (done ++ [a]) s')
    {first last : σ} (hfirst : P [] first) (h : items.foldlM move first = .ok last) :
    P items last := by
  suffices hrest : ∀ rest done, done ++ rest = items → ∀ s, P done s →
      rest.foldlM move s = .ok last → P items last from hrest items [] rfl first hfirst h
  intro rest
  induction rest with
  | nil =>
      intro done hitems s hs hlast
      cases hlast
      rwa [← hitems, List.append_nil]
  | cons a rest ih =>
      intro done hitems s hs hlast
      rw [List.foldlM_cons] at hlast
      obtain ⟨next, hnext, hlast⟩ := exists_of_bind_eq_ok hlast
      have ha : a ∈ items := hitems ▸ List.mem_append_right done List.mem_cons_self
      exact ih (done ++ [a]) (by simpa using hitems) next
        (hmove done s next a ha hs hnext) hlast

end DepNorm.Outcome
