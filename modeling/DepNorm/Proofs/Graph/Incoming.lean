import DepNorm.Proofs.Graph.Keys

/-!
The edges that enter each token, in the order of their numbers. A change of the graph changes these
lists one by one: taking edges out filters them, and an edge that is added is put at the end of one
of them if its key is new.
-/

namespace DepNorm

open DepNorm.Graph

/-- The edges with another one at the end, unless its key is there already. -/
def Edge.append (edges : List Edge) (edge : Edge) : List Edge :=
  if edge.key ∈ edges.map Edge.key then edges else edges ++ [edge]

namespace Graph

variable {β : Type} {graph next : Graph} {edge : Edge} {index : Nat}

theorem mem_edges_iff_incoming : edge ∈ graph.edges ↔ edge ∈ graph.incoming edge.dependent := by
  simp [incoming]

/-! ### Taking edges out -/

theorem incoming_eraseToken (erased : Nat) :
    (graph.eraseToken erased).incoming index =
      (graph.incoming index).filter fun edge =>
        edge.governor != erased && edge.dependent != erased := by
  simp only [incoming, edges, eraseToken, List.filter_map, List.filter_filter, Function.comp_def,
    Bool.and_comm]

def eraseKey (graph : Graph) (key : EdgeKey) : Graph :=
  { graph with arcs := graph.arcs.filter (·.2.key != key) }

theorem WellFormed.eraseEdge_eq_eraseKey (h : graph.WellFormed) {arc : Nat × Edge}
    (harc : arc ∈ graph.arcs) : graph.eraseEdge arc.1 = graph.eraseKey arc.2.key := by
  have hfilter : graph.arcs.filter (·.1 != arc.1) = graph.arcs.filter (·.2.key != arc.2.key) := by
    refine List.filter_congr fun other hother => ?_
    rw [Bool.eq_iff_iff, bne_iff_ne, bne_iff_ne, not_iff_not]
    constructor
    · intro heq
      have hfound := h.edge?_eq_some_iff.mpr hother
      rw [heq, h.edge?_eq_some_iff.mpr harc] at hfound
      rw [Option.some.inj hfound]
    · exact fun heq => congrArg Prod.fst (h.arc_eq_of_key_eq hother harc heq)
  rw [Graph.eraseEdge, eraseKey, hfilter]

theorem WellFormed.arcs_eraseKey (h : graph.WellFormed) {arc : Nat × Edge}
    (harc : arc ∈ graph.arcs) : (graph.eraseKey arc.2.key).arcs = graph.arcs.erase arc := by
  have hnodup : graph.arcs.Nodup := h.numbers_ascending.imp fun hlt heq => hlt.ne (congrArg _ heq)
  rw [eraseKey, hnodup.erase_eq_filter]
  refine List.filter_congr fun other hother => ?_
  rw [Bool.eq_iff_iff, bne_iff_ne, bne_iff_ne, not_iff_not]
  exact ⟨h.arc_eq_of_key_eq hother harc, fun heq => by rw [heq]⟩

theorem incoming_eraseKey (key : EdgeKey) :
    (graph.eraseKey key).incoming index = (graph.incoming index).filter (·.key != key) := by
  simp only [incoming, edges, eraseKey, List.filter_map, List.filter_filter, Function.comp_def,
    Bool.and_comm]

theorem WellFormed.of_takeEdge? (h : graph.WellFormed) {key : EdgeKey}
    (htake : graph.takeEdge? key = some (edge, next)) :
    edge ∈ graph.edges ∧ edge.key = key ∧ next = graph.eraseKey key := by
  simp only [takeEdge?, takeNumbered?, Option.bind_eq_some_iff, Option.map_eq_some_iff] at htake
  obtain ⟨number, hfind, taken, hnumber, heq⟩ := htake
  cases heq
  have harc := h.edge?_eq_some_iff.mp hnumber
  obtain ⟨other, hother, rfl⟩ := h.find?_eq_some_iff.mp hfind
  obtain rfl : other = edge :=
    Option.some.inj ((h.edge?_eq_some_iff.mpr hother).symm.trans hnumber)
  exact ⟨mem_edges_of_mem_arcs harc, rfl, h.eraseEdge_eq_eraseKey harc⟩

theorem WellFormed.takeEdge?_eq_none_iff (h : graph.WellFormed) {key : EdgeKey} :
    graph.takeEdge? key = none ↔ key ∉ graph.keys := by
  constructor
  · intro htake hkey
    obtain ⟨edge, rest, htaken, -⟩ := h.exists_takeEdge? hkey
    rw [htake] at htaken
    cases htaken
  · intro hkey
    have hfind : graph.find? key = none :=
      find?_eq_none_iff.mpr fun edge hedge heq => hkey ⟨edge, hedge, heq⟩
    rw [takeEdge?, hfind]
    rfl

/-! ### Adding edges -/

/-- The second graph is the first one with edges added in their order. What was there keeps its
number, and what is new has a number that was not in use. -/
structure Appends (edges : List Edge) (graph next : Graph) : Prop where
  wellFormed : next.WellFormed
  tokens : next.tokens = graph.tokens
  roots : next.roots = graph.roots
  keys : next.keys = graph.keys ∪ {key | ∃ edge ∈ edges, edge.key = key}
  nextEdge_le : graph.nextEdge ≤ next.nextEdge
  arcs : ∃ new, next.arcs = graph.arcs ++ new ∧
    ∀ arc ∈ new, graph.nextEdge ≤ arc.1 ∧ arc.2 ∈ edges
  incoming : ∀ index, next.incoming index =
    (edges.filter (·.dependent == index)).foldl Edge.append (graph.incoming index)

theorem Appends.refl (h : graph.WellFormed) : Appends [] graph graph where
  wellFormed := h
  tokens := rfl
  roots := rfl
  keys := by simp
  nextEdge_le := le_rfl
  arcs := ⟨[], by simp⟩
  incoming _ := rfl

theorem Appends.append {mid : Graph} {edges edges' : List Edge} (h : Appends edges graph mid)
    (h' : Appends edges' mid next) : Appends (edges ++ edges') graph next where
  wellFormed := h'.wellFormed
  tokens := h'.tokens.trans h.tokens
  roots := h'.roots.trans h.roots
  keys := by
    rw [h'.keys, h.keys, Set.union_assoc]
    congr 1
    ext key
    simp only [Set.mem_union, Set.mem_ofPred_eq, List.mem_append, or_and_right, exists_or]
  nextEdge_le := h.nextEdge_le.trans h'.nextEdge_le
  arcs := by
    obtain ⟨new, harcs, hnew⟩ := h.arcs
    obtain ⟨new', harcs', hnew'⟩ := h'.arcs
    refine ⟨new ++ new', by rw [harcs', harcs, List.append_assoc], fun arc harc => ?_⟩
    rcases List.mem_append.mp harc with harc | harc
    · exact ⟨(hnew arc harc).1, List.mem_append_left _ (hnew arc harc).2⟩
    · exact ⟨h.nextEdge_le.trans (hnew' arc harc).1, List.mem_append_right _ (hnew' arc harc).2⟩
  incoming index := by
    rw [h'.incoming, h.incoming, List.filter_append, List.foldl_append]

theorem Appends.mem_iff {edges : List Edge} (h : Appends edges graph next) :
    index ∈ next ↔ index ∈ graph := mem_of_tokens_eq h.tokens

theorem appends_addEdge (h : graph.WellFormed) {number : Nat}
    (hadd : graph.addEdge edge = .ok (number, next)) : Appends [edge] graph next := by
  have hkey : edge.key ∈ (graph.incoming edge.dependent).map Edge.key ↔ edge.key ∈ graph.keys := by
    simp only [List.mem_map, incoming, List.mem_filter, beq_iff_eq, mem_keys]
    constructor
    · rintro ⟨other, ⟨hother, -⟩, heq⟩
      exact ⟨other, hother, heq⟩
    · rintro ⟨other, hother, heq⟩
      exact ⟨other, ⟨hother, congrArg EdgeKey.dependent heq⟩, heq⟩
  have hwf := h.addEdge hadd
  have hkeys : next.keys = graph.keys ∪ {key | ∃ other ∈ [edge], other.key = key} := by
    obtain ⟨hgovernor, hdependent, -⟩ := addEdge_cases hadd
    obtain ⟨number', next', hadd', hnext⟩ := h.exists_addEdge hgovernor hdependent
    cases hadd.symm.trans hadd'
    rw [hnext.keys]
    ext key
    simp [or_comm, eq_comm]
  obtain ⟨-, -, ⟨hfind, rfl⟩ | ⟨hfind, -, rfl⟩⟩ := addEdge_cases hadd
  · -- The key is there already, and the edge is not added.
    refine ⟨h, rfl, rfl, hkeys, le_rfl, ⟨[], by simp⟩, fun index => ?_⟩
    obtain ⟨other, harc, heq⟩ := mem_arcs_of_find? hfind
    by_cases hindex : edge.dependent = index
    · subst hindex
      simp [Edge.append, hkey.mpr (mem_keys_iff_arcs.mpr ⟨_, harc, heq⟩)]
    · simp [hindex]
  · refine ⟨hwf, rfl, rfl, hkeys, Nat.le_succ _, ⟨[(graph.nextEdge, edge)], by simp⟩,
      fun index => ?_⟩
    have hnew : edge.key ∉ graph.keys := by
      rintro ⟨other, hother, heq⟩
      exact find?_eq_none_iff.mp hfind other hother heq
    simp only [incoming, edges, List.map_append, List.filter_append, List.map_cons, List.map_nil]
    by_cases hindex : edge.dependent = index
    · subst hindex
      have happend : Edge.append (graph.incoming edge.dependent) edge =
          graph.incoming edge.dependent ++ [edge] := if_neg (hnew ∘ hkey.mp)
      simpa [incoming, edges] using happend.symm
    · simp [hindex]

/-! ### Adding edges one after the other -/

theorem appends_of_on_putEdge (h : graph.WellFormed) {outcome : Unit}
    (hon : (EditM.putEdge edge).on graph = (.ok outcome, next)) :
    Appends [edge] graph next ∧ edge.governor ∈ graph ∧ edge.dependent ∈ graph := by
  rw [EditM.on_putEdge] at hon
  split at hon
  · next number result hadd =>
    cases hon
    obtain ⟨hgovernor, hdependent, -⟩ := addEdge_cases hadd
    exact ⟨appends_addEdge h hadd, hgovernor, hdependent⟩
  · cases hon

/-- Edges between tokens of the graph are all added, in their order. -/
theorem exists_on_forM_putEdge (h : graph.WellFormed) {items : List β} (edge : β → Edge)
    (hends : ∀ item ∈ items, (edge item).governor ∈ graph ∧ (edge item).dependent ∈ graph) :
    ∃ next, (items.forM fun item => EditM.putEdge (edge item)).on graph = (.ok ⟨⟩, next) ∧
      Appends (items.map edge) graph next := by
  induction items generalizing graph with
  | nil => exact ⟨graph, rfl, .refl h⟩
  | cons item items ih =>
      obtain ⟨⟨hgovernor, hdependent⟩, hends⟩ := List.forall_mem_cons.mp hends
      obtain ⟨number, mid, hadd, -⟩ := h.exists_addEdge hgovernor hdependent
      have hmid := appends_addEdge h hadd
      obtain ⟨next, hon, hnext⟩ := ih hmid.wellFormed fun other hother => by
        rw [hmid.mem_iff, hmid.mem_iff]
        exact hends other hother
      refine ⟨next, ?_, hmid.append hnext⟩
      rw [List.forM_eq_forM] at hon ⊢
      rw [List.forM_cons, EditM.on_bind, EditM.on_putEdge, hadd]
      exact hon

end Graph

end DepNorm
