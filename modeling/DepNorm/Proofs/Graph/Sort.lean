import DepNorm.Graph.Edge
import Mathlib.Data.List.Nodup
import Mathlib.Data.List.Sort

/-!
Sorting edges. Sorts keep the order of edges that they do not tell apart, so what a sort makes of a
list depends on the edges in it and on the order in which such edges stand.
-/

namespace DepNorm

/-! ### Pairs in a list -/

theorem sublist_or_swap {α : Type} {items : List α} {a b : α} (ha : a ∈ items) (hb : b ∈ items)
    (hne : a ≠ b) : [a, b].Sublist items ∨ [b, a].Sublist items := by
  obtain ⟨front, back, rfl⟩ := List.append_of_mem ha
  rcases List.mem_append.mp hb with hb | hb
  · exact .inr ((List.singleton_sublist.mpr hb).append (List.singleton_sublist.mpr (by simp)))
  · have hback : b ∈ back := (List.mem_cons.mp hb).resolve_left hne.symm
    exact .inl (((List.singleton_sublist.mpr hback).cons_cons a).trans
      (List.sublist_append_right front (a :: back)))

theorem not_sublist_swap {α : Type} {items : List α} (h : items.Nodup) {a b : α}
    (hab : [a, b].Sublist items) : ¬ [b, a].Sublist items := by
  intro hba
  induction items with
  | nil => cases hab
  | cons item items ih =>
      obtain ⟨hnew, hnodup⟩ := List.nodup_cons.mp h
      cases hab with
      | cons _ hab =>
          cases hba with
          | cons _ hba => exact ih hnodup hab hba
          | cons_cons _ hba => exact hnew (hab.subset (by simp))
      | cons_cons _ hab =>
          cases hba with
          | cons _ hba => exact hnew (hba.subset (by simp))
          | cons_cons _ hba => exact hnew (List.singleton_sublist.mp hba)

theorem pair_sublist_filter {α : Type} {items : List α} {test : α → Bool} {a b : α}
    (ha : test a = true) (hb : test b = true) :
    [a, b].Sublist (items.filter test) ↔ [a, b].Sublist items := by
  constructor
  · exact fun h => h.trans List.filter_sublist
  · intro h
    simpa [ha, hb] using h.filter test

theorem orderedInsert_append {α : Type} {r : α → α → Prop} [DecidableRel r] {a : α}
    {front back : List α} (hfront : ∀ b ∈ front, ¬ r a b) (hback : ∀ b ∈ back, r a b) :
    (front ++ back).orderedInsert r a = front ++ a :: back := by
  induction front with
  | nil =>
      cases back with
      | nil => rfl
      | cons b back => exact List.orderedInsert_cons_of_le r back (hback b List.mem_cons_self)
  | cons b front ih =>
      obtain ⟨hb, hfront⟩ := List.forall_mem_cons.mp hfront
      rw [List.cons_append, List.orderedInsert_of_not_le r _ hb, ih hfront, List.cons_append]

/-! ### Sorted edges -/

namespace Edge

variable {order : Edge → Edge → Ordering} {edges others : List Edge}

instance : Std.TransCmp Edge.byDependent := by
  unfold Edge.byDependent
  infer_instance

instance : Std.TransCmp Edge.byGovernor := by
  unfold Edge.byGovernor
  infer_instance

instance : Std.TransCmp Edge.byEnds := by
  unfold Edge.byEnds
  infer_instance

theorem isLE_total [Std.OrientedCmp order] (a b : Edge) :
    ((order a b).isLE || (order b a).isLE) = true := by
  have hswap : order a b = (order b a).swap := Std.OrientedCmp.eq_swap
  rw [hswap]
  cases order b a <;> rfl

theorem isLE_trans [Std.TransCmp order] (a b c : Edge) (hab : (order a b).isLE = true)
    (hbc : (order b c).isLE = true) : (order a c).isLE = true := Std.TransCmp.isLE_trans hab hbc

theorem sorted_sort [Std.TransCmp order] (edges : List Edge) :
    (sort order edges).Pairwise fun a b => (order a b).isLE = true :=
  List.pairwise_mergeSort isLE_trans isLE_total edges

theorem pairwise_sort [Std.TransCmp order] (h : edges.Nodup) :
    (sort order edges).Pairwise fun a b =>
      (order a b).isLE = true ∧ ((order b a).isLE = true → [a, b].Sublist edges) := by
  have hnodup : (sort order edges).Nodup := (List.mergeSort_perm edges _).nodup_iff.mpr h
  refine List.pairwise_iff_forall_sublist.mpr fun {a b} hab => ?_
  refine ⟨List.pairwise_iff_forall_sublist.mp (sorted_sort edges) hab, fun hle => ?_⟩
  have hmem {edge : Edge} (hedge : edge ∈ sort order edges) : edge ∈ edges :=
    List.mem_mergeSort.mp hedge
  have hne : a ≠ b := List.pairwise_iff_forall_sublist.mp hnodup hab
  refine (sublist_or_swap (hmem (hab.subset (by simp))) (hmem (hab.subset (by simp)))
    hne).resolve_right fun hba => ?_
  exact not_sublist_swap hnodup hab (List.pair_sublist_mergeSort isLE_trans isLE_total hle hba)

/-- Lists with the same edges are sorted in the same way if edges that compare as equal stand in the
same order in both. -/
theorem sort_eq_sort [Std.TransCmp order] (hperm : others.Perm edges) (hnodup : edges.Nodup)
    (hties : ∀ a b, order a b = .eq → ([a, b].Sublist others ↔ [a, b].Sublist edges)) :
    sort order others = sort order edges := by
  have hties (a b : Edge) (hab : (order a b).isLE = true) (hba : (order b a).isLE = true) :
      [a, b].Sublist others ↔ [a, b].Sublist edges :=
    hties a b (Std.OrientedCmp.isLE_antisymm hab hba)
  have hsame : (sort order others).Pairwise fun a b =>
      (order a b).isLE = true ∧ ((order b a).isLE = true → [a, b].Sublist edges) := by
    refine (pairwise_sort (hperm.nodup_iff.mpr hnodup)).imp fun {a b} ⟨hle, hkept⟩ => ?_
    exact ⟨hle, fun hge => (hties a b hle hge).mp (hkept hge)⟩
  refine List.Perm.eq_of_pairwise (fun a b _ _ hab hba => ?_) hsame (pairwise_sort hnodup)
    (((List.mergeSort_perm others _).trans hperm).trans (List.mergeSort_perm edges _).symm)
  exact absurd (hba.2 hab.1) (not_sublist_swap hnodup (hab.2 hba.1))

/-- The sort in a form that recurses on the list, so that it can be evaluated in a proof. -/
theorem sort_eq_insertionSort [Std.TransCmp order] (edges : List Edge) :
    sort order edges = edges.insertionSort fun a b => (order a b).isLE = true := by
  induction edges with
  | nil => rw [sort, List.mergeSort_nil, List.insertionSort_nil]
  | cons edge edges ih =>
      have hsorted : (sort order (edge :: edges)).Pairwise fun a b => (order a b).isLE = true :=
        sorted_sort _
      obtain ⟨front, back, hcons, hedges, hfront⟩ :
          ∃ front back, sort order (edge :: edges) = front ++ edge :: back ∧
            sort order edges = front ++ back ∧ ∀ other ∈ front, (!(order edge other).isLE) = true :=
        List.mergeSort_cons isLE_trans isLE_total edge edges
      rw [hcons, List.pairwise_append, List.pairwise_cons] at hsorted
      rw [List.insertionSort_cons, ← ih, hcons, hedges, orderedInsert_append _ hsorted.2.1.1]
      exact fun other hother => by simpa using hfront other hother

end Edge

end DepNorm
