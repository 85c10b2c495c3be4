import DepNorm.Proofs.Graph.Exchange
import DepNorm.Proofs.Graph.Sort
import DepNorm.Proofs.Splice.OperatorRoot
import Mathlib.Data.String.Basic

/-!
A single operator at the root, and the dependent that takes its place. The edges that leave the root
are searched in sorted order, by dependent and then by relation, and edges that the sort does not
tell apart stand in the order of their numbers. So the first edge that passes a test on dependents
leads to the least of them, and is the least of the edges that do.
-/

namespace DepNorm

open DepNorm.Graph EditM

variable {graph next : Graph} {root heir : Nat}

/-! ### The first edge that leaves a token -/

theorem Edge.byDependent_isLE_iff {a b : Edge} :
    (Edge.byDependent a b).isLE = true ↔
      a.dependent < b.dependent ∨ a.dependent = b.dependent ∧ a.relation ≤ b.relation := by
  rw [Edge.byDependent, compareLex, Ordering.isLE_then_iff_or, compareOn, compareOn,
    Nat.compare_eq_lt, Nat.compare_eq_eq, Std.LawfulBCmp.isLE_iff_le]

theorem related_of_find? {α : Type} {R : α → α → Prop} {items : List α} (h : items.Pairwise R)
    {test : α → Bool} {first : α} (hfind : items.find? test = some first) :
    ∀ item ∈ items, test item = true → item = first ∨ R first item := by
  obtain ⟨-, before, after, rfl, hbefore⟩ := List.find?_eq_some_iff_append.mp hfind
  intro item hitem htest
  rcases List.mem_append.mp hitem with hitem | hitem
  · have hnot := hbefore item hitem
    rw [htest] at hnot
    cases hnot
  · refine (List.mem_cons.mp hitem).imp_right fun hitem => ?_
    exact (List.pairwise_cons.mp (List.pairwise_append.mp h).2.1).1 item hitem

namespace Graph

/-- Edges that stand in an order have numbers in that order. -/
theorem WellFormed.number_lt_of_sublist (h : graph.WellFormed) {arc other : Nat × Edge}
    (harc : arc ∈ graph.arcs) (hother : other ∈ graph.arcs)
    (hedges : [arc.2, other.2].Sublist graph.edges) : arc.1 < other.1 := by
  obtain ⟨pair, hpair, heq⟩ := List.sublist_map_iff.mp hedges
  obtain ⟨first, rest, rfl, hfirst, hrest⟩ := List.map_eq_cons_iff.mp heq.symm
  obtain ⟨second, last, rfl, hsecond, hlast⟩ := List.map_eq_cons_iff.mp hrest
  obtain rfl := List.map_eq_nil_iff.mp hlast
  have hfirst := h.arc_eq_of_key_eq (hpair.subset (by simp)) harc (congrArg Edge.key hfirst)
  have hsecond := h.arc_eq_of_key_eq (hpair.subset (by simp)) hother (congrArg Edge.key hsecond)
  rw [hfirst, hsecond] at hpair
  exact List.pairwise_iff_forall_sublist.mp h.numbers_ascending hpair

/-- Of the edges that lead from the root to one dependent, the first by relation and then by
number. -/
structure LeadsFirst (graph : Graph) (root heir : Nat) (arc : Nat × Edge) : Prop where
  mem : arc ∈ graph.arcs
  governor : arc.2.governor = root
  dependent : arc.2.dependent = heir
  relation_le : ∀ other ∈ graph.arcs, other.2.governor = root → other.2.dependent = heir →
    arc.2.relation ≤ other.2.relation
  number_le : ∀ other ∈ graph.arcs, other.2.governor = root → other.2.dependent = heir →
    other.2.relation = arc.2.relation → arc.1 ≤ other.1

theorem WellFormed.of_find?_outgoing (h : graph.WellFormed) (test : Nat → Bool) {edge : Edge}
    (hfind : (graph.outgoing root).find? (fun edge => test edge.dependent) = some edge) :
    IsLeast {dependent | graph.Governs root dependent ∧ test dependent = true} edge.dependent ∧
      ∃ arc, graph.LeadsFirst root edge.dependent arc ∧ arc.2 = edge := by
  have hnodup : (graph.edges.filter (·.governor == root)).Nodup := (nodup_edges h).filter _
  have hfirst := related_of_find? (Edge.pairwise_sort hnodup) hfind
  have htest : test edge.dependent = true := by simpa using List.find?_some hfind
  obtain ⟨hedge, hgovernor⟩ := mem_outgoing.mp (List.mem_of_find?_eq_some hfind)
  constructor
  · refine ⟨⟨⟨edge, hedge, hgovernor, rfl⟩, htest⟩, ?_⟩
    rintro _ ⟨⟨other, hother, hgovernor', rfl⟩, htest'⟩
    rcases hfirst other (mem_outgoing.mpr ⟨hother, hgovernor'⟩) htest' with rfl | ⟨hle, -⟩
    · exact le_rfl
    · exact (Edge.byDependent_isLE_iff.mp hle).elim Nat.le_of_lt fun h => h.1.le
  · obtain ⟨arc, harc, rfl⟩ := List.mem_map.mp hedge
    -- To the sort, edges to the same dependent differ in their relations only.
    have hafter (other : Nat × Edge) (hother : other ∈ graph.arcs) (hfrom : other.2.governor = root)
        (hto : other.2.dependent = arc.2.dependent) :
        other.2 = arc.2 ∨ arc.2.relation ≤ other.2.relation ∧
          (other.2.relation = arc.2.relation → arc.1 < other.1) := by
      have hmem := mem_outgoing.mpr ⟨mem_edges_of_mem_arcs hother, hfrom⟩
      refine (hfirst other.2 hmem (by rw [hto, htest])).imp_right fun ⟨hle, hties⟩ => ?_
      constructor
      · exact ((Edge.byDependent_isLE_iff.mp hle).resolve_left hto.not_gt).2
      · intro hrelation
        have hpair := hties (Edge.byDependent_isLE_iff.mpr (.inr ⟨hto, hrelation.le⟩))
        exact h.number_lt_of_sublist harc hother (hpair.trans List.filter_sublist)
    refine ⟨arc, ⟨harc, hgovernor, rfl, fun other hother hfrom hto => ?_,
      fun other hother hfrom hto hrelation => ?_⟩, rfl⟩
    · rcases hafter other hother hfrom hto with heq | ⟨hle, -⟩
      · rw [heq]
      · exact hle
    · rcases hafter other hother hfrom hto with heq | ⟨-, hlt⟩
      · rw [h.arc_eq_of_key_eq hother harc (congrArg Edge.key heq)]
      · exact (hlt hrelation).le

end Graph

namespace Splice

/-! ### The heir -/

/-- The first dependent after the root, or else the first one. -/
def IsHeir (graph : Graph) (root heir : Nat) : Prop :=
  IsLeast {dependent | graph.Governs root dependent ∧ root < dependent} heir ∨
    (∀ dependent, graph.Governs root dependent → dependent ≤ root) ∧
      IsLeast {dependent | graph.Governs root dependent} heir

theorem IsHeir.ne (h : IsHeir graph root heir) {dependent : Nat}
    (hgoverns : graph.Governs root dependent) (hne : dependent ≠ root) : heir ≠ root := by
  rcases h with hafter | ⟨hbefore, hleast⟩
  · exact hafter.1.2.ne'
  · have hdependent : dependent ≤ root := hbefore dependent hgoverns
    have hheir : heir ≤ dependent := hleast.2 hgoverns
    omega

theorem isHeir_of_heirEdge? (h : graph.WellFormed) {edge : Edge}
    (hedge : heirEdge? graph root = some edge) :
    IsHeir graph root edge.dependent ∧
      ∃ arc, graph.LeadsFirst root edge.dependent arc ∧ arc.2 = edge := by
  rw [heirEdge?, Option.orElse_eq_orElse, Option.orElse_eq_or, Option.or_eq_some_iff] at hedge
  rcases hedge with hafter | ⟨hnone, hhead⟩
  · obtain ⟨hleast, harc⟩ := h.of_find?_outgoing (fun dependent => root < dependent) hafter
    refine ⟨.inl ?_, harc⟩
    simpa using hleast
  · have hfirst : (graph.outgoing root).find? (fun _ => true) = some edge := by
      rw [← hhead]
      cases graph.outgoing root <;> rfl
    obtain ⟨hleast, harc⟩ := h.of_find?_outgoing (fun _ => true) hfirst
    refine ⟨.inr ⟨?_, by simpa using hleast⟩, harc⟩
    rintro _ ⟨other, hother, hgovernor, rfl⟩
    have hlate := List.find?_eq_none.mp hnone other (mem_outgoing.mpr ⟨hother, hgovernor⟩)
    simpa using hlate

/-! ### The edge that is turned round -/

/-- The key of the edge that leads from the heir back to the old root. -/
def operatorKey (root heir : Nat) : EdgeKey where
  governor := heir
  dependent := root
  relation := "op"

/-- The heir is the root, and governs the old root in place of an edge that has led to it. -/
structure Inherits (graph : Graph) (root heir : Nat) (arc : Nat × Edge) (next : Graph) :
    Prop where
  tokens : next.tokens = graph.tokens
  roots : next.roots = [heir]
  key_mem : operatorKey root heir ∈ next.keys
  /-- An edge that leads back is left as it is. -/
  arcs_of_mem : operatorKey root heir ∈ graph.keys → next.arcs = graph.arcs.erase arc
  /-- If there is none, it is made with the weight of the edge that is taken out. -/
  arcs_of_notMem : operatorKey root heir ∉ graph.keys → next.arcs = graph.arcs.erase arc ++
    [(graph.nextEdge, { Edge.made heir root "op" with weight := arc.2.weight })]

theorem inherits_of_on_replaceRoot (h : graph.WellFormed) {arc : Nat × Edge} {turned : Bool}
    (hroots : graph.roots = [root]) (hoperator : OperatorAt graph root)
    (hedge : heirEdge? graph root = some arc.2) (harc : graph.LeadsFirst root heir arc)
    (hne : heir ≠ root) (hon : (replaceRoot root).on graph = (.ok turned, next)) :
    turned = true ∧ Inherits graph root heir arc next := by
  obtain ⟨hmem, hgovernor, rfl, -, -⟩ := harc
  rw [OperatorAt] at hoperator
  rw [replaceRoot, on_get_bind, if_pos hoperator, hedge] at hon
  obtain ⟨_, taken, htake, hon⟩ := exists_of_on_bind_eq_ok hon
  obtain ⟨_, moved, hmove, hon⟩ := exists_of_on_bind_eq_ok hon
  obtain ⟨_, last, hput, hon⟩ := exists_of_on_bind_eq_ok hon
  cases hon
  obtain rfl := eq_eraseKey_of_on_takeEdge h htake
  obtain rfl := eq_markRoot_of_on_moveRoot hmove
  have hroots : (((graph.eraseKey arc.2.key).eraseRoot root).markRoot arc.2.dependent).roots =
      [arc.2.dependent] := by
    simp [markRoot, eraseRoot, eraseKey, hroots]
  -- The edge that is taken out leaves the old root, so it is not the one that leads back to it.
  have hkey : operatorKey root arc.2.dependent ∈
      (((graph.eraseKey arc.2.key).eraseRoot root).markRoot arc.2.dependent).keys ↔
        operatorKey root arc.2.dependent ∈ graph.keys := by
    rw [keys_markRoot, keys_eraseRoot, (h.exchanges_eraseKey _).keys, Set.image_empty,
      Set.union_empty, Set.mem_sdiff, Set.mem_singleton_iff]
    exact and_iff_left fun heq => hne ((congrArg EdgeKey.governor heq).trans hgovernor)
  refine ⟨rfl, ?_⟩
  rcases eq_of_on_putEdge hput with ⟨hthere, rfl⟩ | ⟨hnew, rfl⟩
  · exact {
      tokens := rfl
      roots := hroots
      key_mem := hthere
      arcs_of_mem := fun _ => h.arcs_eraseKey hmem
      arcs_of_notMem := fun hnew => absurd (hkey.mp hthere) hnew }
  · exact {
      tokens := rfl
      roots := hroots
      key_mem := mem_keys_iff_arcs.mpr ⟨_, List.mem_append_right _ (List.mem_singleton_self _), rfl⟩
      arcs_of_mem := fun hthere => absurd (hkey.mpr hthere) hnew
      arcs_of_notMem := fun _ => congrArg (· ++ _) (h.arcs_eraseKey hmem) }

/-- A single root that is an operator gives its place to its heir, if it governs anything but
itself. Of the edges that lead to the heir, the first by relation and then by number is taken out.
All other edges stay as they are, under their numbers. Only the edge that leads back may be new. -/
theorem inherits_of_operatorRoot (h : graph.Reachable) (hroots : graph.roots = [root])
    (hoperator : OperatorAt graph root)
    (hgoverns : ∃ dependent, graph.Governs root dependent ∧ dependent ≠ root) :
    ∃ heir arc result, operatorRoot.on graph = (.ok 1, result) ∧ heir ≠ root ∧
      IsHeir graph root heir ∧ graph.LeadsFirst root heir arc ∧
      Inherits graph root heir arc result := by
  obtain ⟨dependent, hgoverns, hne⟩ := hgoverns
  cases hedge : heirEdge? graph root with
  | none => exact absurd hgoverns (not_governs_of_heirEdge?_eq_none hedge dependent)
  | some edge =>
      obtain ⟨hheir, arc, harc, rfl⟩ := isHeir_of_heirEdge? h.wellFormed hedge
      have hne := hheir.ne hgoverns hne
      obtain ⟨changes, result, hon, -⟩ := (ends_operatorRoot h.wellFormed).exists_ok
      have hrun := hon
      rw [operatorRoot, on_get_bind, hroots, List.mapM_cons, List.mapM_nil] at hrun
      obtain ⟨answers, last, hanswers, hrun⟩ := exists_of_on_bind_eq_ok hrun
      obtain ⟨turned, next, hvisit, hanswers⟩ := exists_of_on_bind_eq_ok hanswers
      cases hanswers
      cases hrun
      obtain ⟨rfl, hnext⟩ :=
        inherits_of_on_replaceRoot h.wellFormed hroots hoperator hedge harc hne hvisit
      exact ⟨_, arc, _, hon, hne, hheir, harc, hnext⟩

/-- "cats all dogs", where the operator governs a noun before it, itself, and a noun after it, to
which two edges lead. -/
def catsAllDogs : Graph where
  tokens := [
    { index := 1, word := "cats", baseForm := "cat", tag := "NNS" },
    { index := 2, word := "all", baseForm := "all", tag := "DT", operator := some "all" },
    { index := 3, word := "dogs", baseForm := "dog", tag := "NNS" }]
  arcs := [
    (0, { governor := 2, dependent := 1, relation := "dep" }),
    (1, { governor := 2, dependent := 2, relation := "dep", extra := true }),
    (2, { governor := 2, dependent := 3, relation := "nsubj" }),
    (3, { governor := 2, dependent := 3, relation := "nsubj", extra := true })]
  roots := [2]
  nextEdge := 4

theorem reachable_catsAllDogs : catsAllDogs.Reachable := by
  have hread : TokenTable.read
      "1 cats cat NNS 2 dep\n2 all all DT 0 root all 2:dep\n3 dogs dog NNS 2 nsubj _ 2:nsubj" =
        .ok catsAllDogs := by decide +kernel
  exact .read hread

/-- What becomes of `catsAllDogs`: of the two edges to the second noun the first is turned round. -/
def dogsOverAll : Graph where
  tokens := catsAllDogs.tokens
  arcs := [
    (0, { governor := 2, dependent := 1, relation := "dep" }),
    (1, { governor := 2, dependent := 2, relation := "dep", extra := true }),
    (3, { governor := 2, dependent := 3, relation := "nsubj", extra := true }),
    (4, { Edge.made 3 2 "op" with weight := .one })]
  roots := [3]
  nextEdge := 5

/-- In `catsAllDogs` the noun after the operator is the heir. -/
theorem inherits_of_operatorRoot_catsAllDogs :
    catsAllDogs.roots = [2] ∧ OperatorAt catsAllDogs 2 ∧
      (∃ dependent, catsAllDogs.Governs 2 dependent ∧ dependent ≠ 2) ∧
      operatorRoot.on catsAllDogs = (.ok 1, dogsOverAll) ∧ IsHeir catsAllDogs 2 3 ∧
      ∃ arc, catsAllDogs.LeadsFirst 2 3 arc ∧ Inherits catsAllDogs 2 3 arc dogsOverAll := by
  have hgoverns : ∃ dependent, catsAllDogs.Governs 2 dependent ∧ dependent ≠ 2 :=
    ⟨3, by decide, by decide⟩
  have hrun : operatorRoot.on catsAllDogs = (.ok 1, dogsOverAll) := by
    unfold operatorRoot replaceRoot heirEdge?
    simp only [outgoing, Edge.sort_eq_insertionSort]
    decide +kernel
  obtain ⟨heir, arc, result, hon, -, hheir, harc, hnext⟩ :=
    inherits_of_operatorRoot reachable_catsAllDogs rfl (by decide) hgoverns
  cases hrun.symm.trans hon
  obtain rfl : 3 = heir := List.singleton_inj.mp hnext.roots
  exact ⟨rfl, by decide, hgoverns, hrun, hheir, arc, harc, hnext⟩

end Splice

end DepNorm
