import DepNorm.Pattern.View
import DepNorm.Proofs.Graph.Incoming
import DepNorm.Proofs.Graph.Sort

/-!
Graphs that differ in the numbers of their edges. What is kept is the order of the edges into each
token. It is enough for all that is seen of a graph: edges that a sort does not tell apart lead to
the same token, so sorted edges come in the same order, and so do the edges that a search tries.
-/

namespace DepNorm

namespace Graph

/-- The graphs have the same tokens, the same roots, and the same edges into each token in the same
order. -/
structure Renumbered (graph other : Graph) : Prop where
  wellFormed : graph.WellFormed
  wellFormed' : other.WellFormed
  tokens : other.tokens = graph.tokens
  roots : other.roots = graph.roots
  incoming : ∀ index, other.incoming index = graph.incoming index

namespace Renumbered

variable {graph other next next' : Graph} {edge : Edge}

theorem mem_iff (h : Renumbered graph other) {index : Nat} : index ∈ other ↔ index ∈ graph :=
  mem_of_tokens_eq h.tokens

theorem mem_edges (h : Renumbered graph other) : edge ∈ other.edges ↔ edge ∈ graph.edges := by
  rw [mem_edges_iff_incoming, h.incoming, ← mem_edges_iff_incoming]

theorem perm_edges (h : Renumbered graph other) : other.edges.Perm graph.edges := by
  exact (List.perm_ext_iff_of_nodup (nodup_edges h.wellFormed') (nodup_edges h.wellFormed)).mpr
    fun _ => h.mem_edges

theorem keys (h : Renumbered graph other) : other.keys = graph.keys := by
  ext key
  simp only [mem_keys, h.mem_edges]

/-- Sorts that tell apart what leads to different tokens give the same list. -/
theorem sort_filter (h : Renumbered graph other) {order : Edge → Edge → Ordering}
    [Std.TransCmp order] (horder : ∀ a b, order a b = .eq → a.dependent = b.dependent)
    (test : Edge → Bool) :
    Edge.sort order (other.edges.filter test) = Edge.sort order (graph.edges.filter test) := by
  refine Edge.sort_eq_sort (h.perm_edges.filter test) ((nodup_edges h.wellFormed).filter test)
    fun a b hties => ?_
  by_cases hpass : test a = true ∧ test b = true
  · have hinto (graph : Graph) : [a, b].Sublist (graph.edges.filter test) ↔
        [a, b].Sublist (graph.incoming a.dependent) := by
      rw [pair_sublist_filter hpass.1 hpass.2, Graph.incoming,
        pair_sublist_filter (by simp) (by simp [horder a b hties])]
    rw [hinto other, hinto graph, h.incoming]
  · have hnot (edges : List Edge) : ¬ [a, b].Sublist (edges.filter test) := fun hsub =>
      hpass ⟨(List.mem_filter.mp (hsub.subset (by simp))).2,
        (List.mem_filter.mp (hsub.subset (by simp))).2⟩
    exact iff_of_false (hnot _) (hnot _)

theorem sortedEdges (h : Renumbered graph other) : other.sortedEdges = graph.sortedEdges := by
  have hties (a b : Edge) (hties : Edge.byEnds a b = .eq) : a.dependent = b.dependent := by
    simp [Edge.byEnds, Edge.byDependent, compareLex, compareOn] at hties
    exact hties.2.1
  have hsort := h.sort_filter hties fun _ => true
  rw [List.filter_true, List.filter_true] at hsort
  exact hsort

theorem outgoing (h : Renumbered graph other) (index : Nat) :
    other.outgoing index = graph.outgoing index := by
  refine h.sort_filter (fun a b hties => ?_) _
  simp [Edge.byDependent, compareLex, compareOn] at hties
  exact hties.1

theorem token? (h : Renumbered graph other) : other.token? = graph.token? := by
  unfold Graph.token?
  rw [h.tokens]

theorem view (h : Renumbered graph other) : other.view = graph.view := by
  have hout : other.outgoing = graph.outgoing := funext h.outgoing
  simp only [Graph.view, indices, h.tokens, h.token?, hout]

theorem hasDependents (h : Renumbered graph other) (index : Nat) :
    other.hasDependents index = graph.hasDependents index := by
  rw [Bool.eq_iff_iff, Graph.hasDependents, Graph.hasDependents, List.any_eq_true, List.any_eq_true]
  simp only [h.mem_edges]

/-! ### Changes -/

theorem takeEdge? (h : Renumbered graph other) (key : EdgeKey) :
    Option.Rel (fun taken taken' => taken.1 = taken'.1 ∧ Renumbered taken.2 taken'.2)
      (graph.takeEdge? key) (other.takeEdge? key) := by
  cases htake : graph.takeEdge? key with
  | none =>
      rw [h.wellFormed.takeEdge?_eq_none_iff, ← h.keys] at htake
      rw [h.wellFormed'.takeEdge?_eq_none_iff.mpr htake]
      exact .none
  | some taken =>
      obtain ⟨edge, rest⟩ := taken
      obtain ⟨hedge, rfl, rfl⟩ := h.wellFormed.of_takeEdge? htake
      obtain ⟨edge', rest', htake', -⟩ :=
        h.wellFormed'.exists_takeEdge? (key_mem_keys (h.mem_edges.mpr hedge))
      obtain ⟨hedge', hkey, rfl⟩ := h.wellFormed'.of_takeEdge? htake'
      cases h.wellFormed'.edge_eq_of_key_eq hedge' (h.mem_edges.mpr hedge) hkey
      rw [htake']
      refine .some ⟨rfl, h.wellFormed.filter_arcs _, h.wellFormed'.filter_arcs _, h.tokens,
        h.roots, fun index => ?_⟩
      rw [incoming_eraseKey, incoming_eraseKey, h.incoming]

/-- Edges are added in orders that agree on the edges into each token. -/
theorem appends {edges edges' : List Edge} (h : Renumbered graph other)
    (hnext : Appends edges graph next) (hnext' : Appends edges' other next')
    (hedges : ∀ index, edges'.filter (·.dependent == index) =
      edges.filter (·.dependent == index)) : Renumbered next next' := by
  refine ⟨hnext.wellFormed, hnext'.wellFormed, ?_, ?_, fun index => ?_⟩
  · rw [hnext'.tokens, hnext.tokens, h.tokens]
  · rw [hnext'.roots, hnext.roots, h.roots]
  · rw [hnext'.incoming, hnext.incoming, h.incoming, hedges]

theorem eraseToken (h : Renumbered graph other) (index : Nat) :
    Renumbered (graph.eraseToken index) (other.eraseToken index) where
  wellFormed := h.wellFormed.eraseToken index
  wellFormed' := h.wellFormed'.eraseToken index
  tokens := by simp only [Graph.eraseToken, h.tokens]
  roots := by simp only [Graph.eraseToken, h.roots]
  incoming _ := by rw [incoming_eraseToken, incoming_eraseToken, h.incoming]

theorem eraseRoot (h : Renumbered graph other) (index : Nat) :
    Renumbered (graph.eraseRoot index) (other.eraseRoot index) where
  wellFormed := h.wellFormed.eraseRoot index
  wellFormed' := h.wellFormed'.eraseRoot index
  tokens := h.tokens
  roots := by simp only [Graph.eraseRoot, h.roots]
  incoming := h.incoming

theorem markRoot (h : Renumbered graph other) {index : Nat} (hindex : index ∈ graph) :
    Renumbered (graph.markRoot index) (other.markRoot index) where
  wellFormed := h.wellFormed.markRoot hindex
  wellFormed' := h.wellFormed'.markRoot (h.mem_iff.mpr hindex)
  tokens := h.tokens
  roots := by simp only [Graph.markRoot, h.roots]
  incoming := h.incoming

end Renumbered

end Graph

end DepNorm
