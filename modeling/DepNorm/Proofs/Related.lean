import Mathlib.Data.List.Forall2

/-!
Lists whose items are related one by one. What a test finds or keeps on both sides is related again
if it tells related items alike, and so are the lists sorted by orders that compare related items
alike.
-/

namespace DepNorm

variable {α β : Type} {R : α → β → Prop} {items : List α} {items' : List β}

theorem forall₂_map_eq {γ : Type} {f : α → γ} {f' : β → γ} (h : List.Forall₂ R items items')
    (heq : ∀ {a b}, R a b → f' b = f a) : items'.map f' = items.map f := by
  rw [← List.forall₂_eq_eq_eq, List.forall₂_map_left_iff, List.forall₂_map_right_iff]
  exact h.flip.imp fun b a hab => heq hab

theorem forall₂_eq_map_iff {f : α → β} :
    List.Forall₂ (fun a b => b = f a) items items' ↔ items' = items.map f := by
  constructor
  · intro h
    have heq : items'.map id = items.map f := forall₂_map_eq h fun hab => hab
    rwa [List.map_id] at heq
  · rintro rfl
    exact List.forall₂_map_right_iff.mpr (List.forall₂_same.mpr fun _ _ => rfl)

theorem forall₂_filter (h : List.Forall₂ R items items') {test : α → Bool} {test' : β → Bool}
    (htest : ∀ {a b}, R a b → test' b = test a) :
    List.Forall₂ R (items.filter test) (items'.filter test') :=
  List.rel_filter (fun _ _ hab => by simp only [htest hab]) h

theorem rel_find? (h : List.Forall₂ R items items') {test : α → Bool} {test' : β → Bool}
    (htest : ∀ {a b}, R a b → test' b = test a) :
    Option.Rel R (items.find? test) (items'.find? test') := by
  induction h with
  | nil => exact .none
  | @cons a b _ _ hab _ ih =>
      rw [List.find?_cons, List.find?_cons, htest hab]
      split
      · exact .some hab
      · exact ih

theorem rel_head? (h : List.Forall₂ R items items') : Option.Rel R items.head? items'.head? := by
  cases h with
  | nil => exact .none
  | cons hab _ => exact .some hab

theorem rel_orElse {first second : Option α} {first' second' : Option β}
    (h : Option.Rel R first first') (h' : Option.Rel R second second') :
    Option.Rel R (first <|> second) (first' <|> second') := by
  cases h with
  | none => exact h'
  | some hab => exact .some hab

/-- A sort moves both lists in the same way: they are the two halves of one list of pairs. -/
theorem forall₂_mergeSort (h : List.Forall₂ R items items') {le : α → α → Bool}
    {le' : β → β → Bool} (hle : ∀ {a b a' b'}, R a a' → R b b' → le' a' b' = le a b) :
    List.Forall₂ R (items.mergeSort le) (items'.mergeSort le') := by
  obtain ⟨hlength, hzip⟩ := List.forall₂_iff_zip.mp h
  have hfst : (items.zip items').map Prod.fst = items := List.map_fst_zip (Nat.le_of_eq hlength)
  have hsnd : (items.zip items').map Prod.snd = items' :=
    List.map_snd_zip (Nat.le_of_eq hlength.symm)
  have hsort : ((items.zip items').mergeSort fun p q => le p.1 q.1).map Prod.fst =
      items.mergeSort le := by
    rw [List.map_mergeSort (s := le) fun _ _ _ _ => rfl, hfst]
  have hsort' : ((items.zip items').mergeSort fun p q => le p.1 q.1).map Prod.snd =
      items'.mergeSort le' := by
    rw [List.map_mergeSort (s := le') fun p hp q hq => (hle (hzip hp) (hzip hq)).symm, hsnd]
  rw [← hsort, ← hsort', List.forall₂_map_left_iff, List.forall₂_map_right_iff,
    List.forall₂_same]
  exact fun p hp => hzip (List.mem_mergeSort.mp hp)

end DepNorm
