import DepNorm.Proofs.Graph.Edit
import Mathlib.Data.Set.Card

/-!
Graphs up to their keys. What a rule does to a graph is said by the tokens, the roots and the set of
the keys that it leaves: taking an edge out removes its key from the set, and adding one inserts its
key, whether or not an edge with this key was there.
-/

namespace DepNorm.Graph

theorem ncard_eq_length {α : Type} {members : Set α} {items : List α} (hdistinct : items.Nodup)
    (hmem : ∀ item, item ∈ items ↔ item ∈ members) : members.ncard = items.length := by
  classical
  have hmembers : members = ↑items.toFinset := by
    ext item
    rw [List.coe_toFinset, Set.mem_ofPred_eq, hmem]
  rw [hmembers, Set.ncard_coe_finset, List.toFinset_card_of_nodup hdistinct]

/-! ### The keys of a graph -/

def keys (graph : Graph) : Set EdgeKey := {key | ∃ edge ∈ graph.edges, edge.key = key}

/-- An edge leads from one token to another under a relation. It may be a secondary edge. -/
def Joins (graph : Graph) (governor : Nat) (relation : String) (dependent : Nat) : Prop :=
  ∃ extra, { governor, dependent, relation, extra } ∈ graph.keys

variable {graph next : Graph} {key : EdgeKey} {edge : Edge}

theorem mem_keys : key ∈ graph.keys ↔ ∃ edge ∈ graph.edges, edge.key = key := Iff.rfl

theorem mem_keys_iff_arcs : key ∈ graph.keys ↔ ∃ arc ∈ graph.arcs, arc.2.key = key := by
  simp only [mem_keys, edges, List.mem_map]
  constructor
  · rintro ⟨edge, ⟨arc, harc, rfl⟩, hkey⟩
    exact ⟨arc, harc, hkey⟩
  · rintro ⟨arc, harc, hkey⟩
    exact ⟨arc.2, ⟨arc, harc, rfl⟩, hkey⟩

theorem key_mem_keys (h : edge ∈ graph.edges) : edge.key ∈ graph.keys := ⟨edge, h, rfl⟩

theorem joins_of_mem_edges (h : edge ∈ graph.edges) :
    graph.Joins edge.governor edge.relation edge.dependent := ⟨edge.extra, key_mem_keys h⟩

/-- Where the primary edge is missing, the edge that joins two tokens is a secondary one. -/
theorem Joins.extra_mem {governor dependent : Nat} {relation : String}
    (h : graph.Joins governor relation dependent)
    (hprimary : { governor, dependent, relation } ∉ graph.keys) :
    { governor, dependent, relation, extra := true } ∈ graph.keys := by
  obtain ⟨_ | _, hextra⟩ := h
  · exact absurd hextra hprimary
  · exact hextra

theorem mem_of_tokens_eq (h : next.tokens = graph.tokens) {index : Nat} :
    index ∈ next ↔ index ∈ graph := by
  rw [mem_iff, mem_iff, h]

theorem WellFormed.governor_mem_of_keys (h : graph.WellFormed) (hkey : key ∈ graph.keys) :
    key.governor ∈ graph := by
  obtain ⟨edge, hedge, rfl⟩ := hkey
  exact h.governor_mem edge hedge

theorem WellFormed.dependent_mem_of_keys (h : graph.WellFormed) (hkey : key ∈ graph.keys) :
    key.dependent ∈ graph := by
  obtain ⟨edge, hedge, rfl⟩ := hkey
  exact h.dependent_mem edge hedge

theorem WellFormed.mem_of_joins (h : graph.WellFormed) {governor dependent : Nat}
    {relation : String} (hjoins : graph.Joins governor relation dependent) :
    governor ∈ graph ∧ dependent ∈ graph := by
  obtain ⟨extra, hkey⟩ := hjoins
  exact ⟨h.governor_mem_of_keys hkey, h.dependent_mem_of_keys hkey⟩

@[simp] theorem keys_eraseRoot (index : Nat) : (graph.eraseRoot index).keys = graph.keys := rfl

@[simp] theorem keys_markRoot (index : Nat) : (graph.markRoot index).keys = graph.keys := rfl

theorem keys_eraseToken (index : Nat) : (graph.eraseToken index).keys =
    {key ∈ graph.keys | key.governor ≠ index ∧ key.dependent ≠ index} := by
  ext key
  simp only [mem_keys_iff_arcs, eraseToken, List.mem_filter, Bool.and_eq_true, bne_iff_ne]
  constructor
  · rintro ⟨arc, ⟨harc, htouch⟩, rfl⟩
    exact ⟨⟨arc, harc, rfl⟩, htouch⟩
  · rintro ⟨⟨arc, harc, rfl⟩, htouch⟩
    exact ⟨arc, ⟨harc, htouch⟩, rfl⟩

/-! ### Graphs with other keys -/

/-- The second graph is well formed and has the tokens and roots of the first, and the given
keys. -/
structure Rekeyed (graph : Graph) (keys : Set EdgeKey) (next : Graph) : Prop where
  wellFormed : next.WellFormed
  tokens : next.tokens = graph.tokens
  roots : next.roots = graph.roots
  keys : next.keys = keys

namespace Rekeyed

variable {keys : Set EdgeKey}

theorem mem_iff (h : Rekeyed graph keys next) {index : Nat} : index ∈ next ↔ index ∈ graph :=
  mem_of_tokens_eq h.tokens

theorem refl (h : graph.WellFormed) : Rekeyed graph graph.keys graph := ⟨h, rfl, rfl, rfl⟩

theorem trans {mid : Graph} {keys' : Set EdgeKey} (h : Rekeyed graph keys mid)
    (h' : Rekeyed mid keys' next) : Rekeyed graph keys' next :=
  ⟨h'.wellFormed, h'.tokens.trans h.tokens, h'.roots.trans h.roots, h'.keys⟩

theorem eraseToken (h : Rekeyed graph keys next) (index : Nat) :
    Rekeyed (graph.eraseToken index) {key ∈ keys | key.governor ≠ index ∧ key.dependent ≠ index}
      (next.eraseToken index) := by
  refine ⟨h.wellFormed.eraseToken index, ?_, ?_, ?_⟩
  · simp only [Graph.eraseToken, h.tokens]
  · simp only [Graph.eraseToken, h.roots]
  · rw [keys_eraseToken, h.keys]

theorem congr {keys' : Set EdgeKey} (h : Rekeyed graph keys next) (hkeys : keys = keys') :
    Rekeyed graph keys' next := hkeys ▸ h

end Rekeyed

theorem Joins.of_keys_eq {governor dependent : Nat} {relation : String}
    (h : graph.Joins governor relation dependent) (hnext : next.keys = graph.keys \ {key})
    (hne : governor = key.governor → dependent ≠ key.dependent) :
    next.Joins governor relation dependent := by
  obtain ⟨extra, hmem⟩ := h
  refine ⟨extra, ?_⟩
  rw [hnext]
  refine ⟨hmem, ?_⟩
  rintro rfl
  exact hne rfl rfl

namespace WellFormed

theorem rekeyed_eraseEdge (h : graph.WellFormed) {arc : Nat × Edge} (harc : arc ∈ graph.arcs) :
    Rekeyed graph (graph.keys \ {arc.2.key}) (graph.eraseEdge arc.1) := by
  refine ⟨h.eraseEdge arc.1, rfl, rfl, ?_⟩
  ext key
  simp only [mem_keys_iff_arcs, Graph.eraseEdge, List.mem_filter, bne_iff_ne, Set.mem_sdiff,
    Set.mem_singleton_iff]
  constructor
  · rintro ⟨other, ⟨hother, hnumber⟩, rfl⟩
    exact ⟨⟨other, hother, rfl⟩, fun heq => hnumber (h.arc_eq_of_key_eq hother harc heq ▸ rfl)⟩
  · rintro ⟨⟨other, hother, rfl⟩, hne⟩
    refine ⟨other, ⟨hother, fun heq => hne ?_⟩, rfl⟩
    have hfound := h.edge?_eq_some_iff.mpr hother
    rw [heq, h.edge?_eq_some_iff.mpr harc] at hfound
    rw [Option.some.inj hfound]

theorem exists_takeEdge? (h : graph.WellFormed) (hkey : key ∈ graph.keys) :
    ∃ edge rest, graph.takeEdge? key = some (edge, rest) ∧ edge ∈ graph.edges ∧ edge.key = key ∧
      Rekeyed graph (graph.keys \ {key}) rest := by
  obtain ⟨⟨number, edge⟩, harc, rfl⟩ := mem_keys_iff_arcs.mp hkey
  have hfind : graph.find? edge.key = some number := h.find?_eq_some_iff.mpr ⟨edge, harc, rfl⟩
  have hnumbered : graph.edge? number = some edge := h.edge?_eq_some_iff.mpr harc
  exact ⟨edge, graph.eraseEdge number, by simp [takeEdge?, takeNumbered?, hfind, hnumbered],
    mem_edges_of_mem_arcs harc, rfl, h.rekeyed_eraseEdge harc⟩

theorem exists_addEdge (h : graph.WellFormed) (hgovernor : edge.governor ∈ graph)
    (hdependent : edge.dependent ∈ graph) :
    ∃ number next, graph.addEdge edge = .ok (number, next) ∧
      Rekeyed graph (insert edge.key graph.keys) next := by
  cases hfind : graph.find? edge.key with
  | some number =>
      have hadd : graph.addEdge edge = .ok (number, graph) := by
        simp [Graph.addEdge, hgovernor, hdependent, hfind]
      obtain ⟨other, harc, hkey⟩ := mem_arcs_of_find? hfind
      have hmem : edge.key ∈ graph.keys := mem_keys_iff_arcs.mpr ⟨_, harc, hkey⟩
      exact ⟨number, graph, hadd, h, rfl, rfl, (Set.insert_eq_of_mem hmem).symm⟩
  | none =>
      have hadd : graph.addEdge edge = .ok (graph.nextEdge, { graph with
          arcs := graph.arcs ++ [(graph.nextEdge, edge)]
          nextEdge := graph.nextEdge + 1 }) := by
        simp [Graph.addEdge, hgovernor, hdependent, hfind]
      refine ⟨_, _, hadd, h.addEdge hadd, rfl, rfl, ?_⟩
      ext key
      simp [mem_keys_iff_arcs, or_and_right, exists_or, or_comm, eq_comm]

theorem exists_token? (h : graph.WellFormed) {index : Nat} (hindex : index ∈ graph) :
    ∃ token, graph.token? index = some token := by
  obtain ⟨token, htoken, hname⟩ := hindex
  exact ⟨token, h.token?_eq_some_iff.mpr ⟨htoken, hname⟩⟩

end WellFormed

end DepNorm.Graph
