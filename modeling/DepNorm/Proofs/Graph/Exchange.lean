import DepNorm.Proofs.Graph.Incoming
import Mathlib.Data.Set.Insert

/-!
Changes of a graph edge by edge. Edges are taken out, known by their keys, and edges are put in,
each of which gives way to one that has its key. So what is not taken out stays as it was, under its
number and with its weight and flags, and all else is new. One exchange after another is an exchange
again, as long as the second takes out nothing that the first has put in.
-/

namespace DepNorm

open DepNorm.Graph

variable {graph mid next : Graph} {key : EdgeKey}

namespace Graph

/-- The edges with the keys in `taken` go, and the edges in `put` come. -/
structure Exchanges (graph : Graph) (taken : Set EdgeKey) (put : Set Edge) (next : Graph) :
    Prop where
  wellFormed : next.WellFormed
  tokens : next.tokens = graph.tokens
  roots : next.roots = graph.roots
  keys : next.keys = graph.keys \ taken ∪ Edge.key '' put
  nextEdge_le : graph.nextEdge ≤ next.nextEdge
  /-- What is not taken out keeps its number, its weight and its flags. -/
  kept : ∀ arc ∈ graph.arcs, arc ∈ next.arcs ↔ arc.2.key ∉ taken
  /-- All else has been put in, under a number that was not in use. -/
  new : ∀ arc ∈ next.arcs, arc ∈ graph.arcs ∨ graph.nextEdge ≤ arc.1 ∧ arc.2 ∈ put

namespace Exchanges

variable {taken taken' : Set EdgeKey} {put put' : Set Edge}

theorem congr (h : graph.Exchanges taken put next) (htaken : taken = taken') (hput : put = put') :
    graph.Exchanges taken' put' next := htaken ▸ hput ▸ h

theorem refl (h : graph.WellFormed) : graph.Exchanges ∅ ∅ graph where
  wellFormed := h
  tokens := rfl
  roots := rfl
  keys := by rw [Set.sdiff_empty, Set.image_empty, Set.union_empty]
  nextEdge_le := le_rfl
  kept _ harc := iff_of_true harc (Set.notMem_empty _)
  new _ := .inl

theorem trans (hwf : graph.WellFormed) (h : graph.Exchanges taken put mid)
    (h' : mid.Exchanges taken' put' next) (hput : ∀ edge ∈ put, edge.key ∉ taken') :
    graph.Exchanges (taken ∪ taken') (put ∪ put') next where
  wellFormed := h'.wellFormed
  tokens := h'.tokens.trans h.tokens
  roots := h'.roots.trans h.roots
  keys := by
    have hstays : Edge.key '' put \ taken' = Edge.key '' put := by
      refine sdiff_eq_left.mpr (Set.disjoint_left.mpr ?_)
      rintro _ ⟨edge, hedge, rfl⟩
      exact hput edge hedge
    rw [h'.keys, h.keys, Set.union_sdiff_distrib, hstays, Set.sdiff_sdiff, Set.image_union,
      Set.union_assoc]
  nextEdge_le := h.nextEdge_le.trans h'.nextEdge_le
  kept arc harc := by
    rw [Set.mem_union, not_or]
    constructor
    · intro hnext
      have hmid : arc ∈ mid.arcs := by
        refine (h'.new arc hnext).resolve_right fun hnew => ?_
        exact absurd (hwf.number_lt arc harc) (not_lt.mpr (h.nextEdge_le.trans hnew.1))
      exact ⟨(h.kept arc harc).mp hmid, (h'.kept arc hmid).mp hnext⟩
    · rintro ⟨htaken, htaken'⟩
      exact (h'.kept arc ((h.kept arc harc).mpr htaken)).mpr htaken'
  new arc harc := by
    rcases h'.new arc harc with hmid | ⟨hnumber, hedge⟩
    · exact (h.new arc hmid).imp_right fun ⟨hnumber, hedge⟩ => ⟨hnumber, .inl hedge⟩
    · exact .inr ⟨h.nextEdge_le.trans hnumber, .inr hedge⟩

/-- The edges of the result with a key that is not put in are the edges with it before. -/
theorem mem_arcs_iff (h : graph.Exchanges taken put next) {arc : Nat × Edge}
    (hput : arc.2 ∉ put) : arc ∈ next.arcs ↔ arc ∈ graph.arcs ∧ arc.2.key ∉ taken := by
  constructor
  · intro harc
    have hold : arc ∈ graph.arcs := (h.new arc harc).resolve_right fun hnew => hput hnew.2
    exact ⟨hold, (h.kept arc hold).mp harc⟩
  · rintro ⟨hold, htaken⟩
    exact (h.kept arc hold).mpr htaken

theorem mem_edges_iff (h : graph.Exchanges taken put next) {edge : Edge} (hput : edge ∉ put) :
    edge ∈ next.edges ↔ edge ∈ graph.edges ∧ edge.key ∉ taken := by
  simp only [edges, List.mem_map]
  constructor
  · rintro ⟨arc, harc, rfl⟩
    obtain ⟨harc, htaken⟩ := (h.mem_arcs_iff hput).mp harc
    exact ⟨⟨arc, harc, rfl⟩, htaken⟩
  · rintro ⟨⟨arc, harc, rfl⟩, htaken⟩
    exact ⟨arc, (h.mem_arcs_iff hput).mpr ⟨harc, htaken⟩, rfl⟩

theorem exists_number (h : graph.Exchanges taken put next) (hinj : put.InjOn Edge.key) {edge : Edge}
    (hedge : edge ∈ put) (hnew : edge.key ∉ graph.keys \ taken) :
    ∃ number, graph.nextEdge ≤ number ∧ (number, edge) ∈ next.arcs := by
  have hkey : edge.key ∈ next.keys := by
    rw [h.keys]
    exact .inr ⟨edge, hedge, rfl⟩
  obtain ⟨⟨number, other⟩, harc, hother⟩ := mem_keys_iff_arcs.mp hkey
  rcases h.new _ harc with hold | ⟨hnumber, hput⟩
  · refine absurd ⟨?_, ?_⟩ hnew
    · exact hother ▸ key_mem_keys (mem_edges_of_mem_arcs hold)
    · exact hother ▸ (h.kept _ hold).mp harc
  · obtain rfl : other = edge := hinj hput hedge hother
    exact ⟨number, hnumber, harc⟩

end Exchanges

/-! ### Elementary exchanges -/

theorem WellFormed.exchanges_eraseKey (h : graph.WellFormed) (key : EdgeKey) :
    graph.Exchanges {key} ∅ (graph.eraseKey key) where
  wellFormed := h.filter_arcs _
  tokens := rfl
  roots := rfl
  keys := by
    ext other
    simp only [mem_keys_iff_arcs, eraseKey, List.mem_filter, bne_iff_ne, Set.image_empty,
      Set.union_empty, Set.mem_sdiff, Set.mem_singleton_iff]
    constructor
    · rintro ⟨arc, ⟨harc, hne⟩, rfl⟩
      exact ⟨⟨arc, harc, rfl⟩, hne⟩
    · rintro ⟨⟨arc, harc, rfl⟩, hne⟩
      exact ⟨arc, ⟨harc, hne⟩, rfl⟩
  nextEdge_le := le_rfl
  kept arc harc := by
    rw [eraseKey, List.mem_filter, bne_iff_ne, and_iff_right harc, Set.mem_singleton_iff]
  new _ harc := .inl (List.mem_filter.mp harc).1

theorem Appends.exchanges {edges : List Edge} (h : Appends edges graph next) :
    graph.Exchanges ∅ {edge | edge ∈ edges} next where
  wellFormed := h.wellFormed
  tokens := h.tokens
  roots := h.roots
  keys := by
    rw [h.keys, Set.sdiff_empty]
    rfl
  nextEdge_le := h.nextEdge_le
  kept arc harc := by
    obtain ⟨new, harcs, -⟩ := h.arcs
    refine iff_of_true ?_ (Set.notMem_empty _)
    rw [harcs]
    exact List.mem_append_left new harc
  new arc harc := by
    obtain ⟨new, harcs, hnew⟩ := h.arcs
    rw [harcs] at harc
    exact (List.mem_append.mp harc).imp_right (hnew arc)

/-! ### Relabelling -/

def determiners (graph : Graph) (keys : Set EdgeKey) : Set Edge :=
  {edge | ∃ old ∈ graph.edges, old.key ∈ keys ∧ old.relabel "det" = edge}

theorem relation_of_mem_determiners {keys : Set EdgeKey} {edge : Edge}
    (h : edge ∈ graph.determiners keys) : edge.relation = "det" := by
  obtain ⟨old, -, -, rfl⟩ := h
  rfl

/-- The edges with the given keys become determiner edges. -/
abbrev Relabels (graph : Graph) (keys : Set EdgeKey) (next : Graph) : Prop :=
  graph.Exchanges keys (graph.determiners keys) next

theorem Relabels.refl (h : graph.WellFormed) : graph.Relabels ∅ graph :=
  (Exchanges.refl h).congr rfl (by simp [determiners])

theorem Relabels.union (hwf : graph.WellFormed) {keys keys' : Set EdgeKey}
    (h : graph.Relabels keys mid) (h' : mid.Relabels keys' next)
    (hothers : ∀ key ∈ keys', key.relation ≠ "det") (hnew : ∀ key ∈ keys', key ∉ keys) :
    graph.Relabels (keys ∪ keys') next := by
  have hdet (edge : Edge) (hedge : edge ∈ graph.determiners keys) : edge.key ∉ keys' :=
    fun hmem => hothers _ hmem (relation_of_mem_determiners hedge)
  have hsame (edge : Edge) (hkey : edge.key ∈ keys') :
      edge ∈ mid.edges ↔ edge ∈ graph.edges := by
    rw [h.mem_edges_iff fun hedge => hdet edge hedge hkey]
    exact and_iff_left (hnew _ hkey)
  refine (h.trans hwf h' hdet).congr rfl ?_
  ext edge
  constructor
  · rintro (⟨old, hold, hkey, rfl⟩ | ⟨old, hold, hkey, rfl⟩)
    · exact ⟨old, hold, .inl hkey, rfl⟩
    · exact ⟨old, (hsame old hkey).mp hold, .inr hkey, rfl⟩
  · rintro ⟨old, hold, hkey | hkey, rfl⟩
    · exact .inl ⟨old, hold, hkey, rfl⟩
    · exact .inr ⟨old, (hsame old hkey).mpr hold, hkey, rfl⟩

end Graph

/-! ### Edits that have succeeded -/

namespace EditM

theorem of_on_takeEdge (h : graph.WellFormed) {rule : Rule} {edge : Edge}
    (hon : (takeEdge rule key).on graph = (.ok edge, next)) :
    edge ∈ graph.edges ∧ edge.key = key ∧ next = graph.eraseKey key := by
  rw [on_takeEdge] at hon
  cases htake : graph.takeEdge? key with
  | none =>
      rw [htake] at hon
      cases hon
  | some taken =>
      rw [htake] at hon
      cases hon
      exact h.of_takeEdge? htake

theorem eq_eraseKey_of_on_takeEdge (h : graph.WellFormed) {rule : Rule} {outcome : Unit}
    (hon : (discard <| takeEdge rule key).on graph = (.ok outcome, next)) :
    next = graph.eraseKey key := by
  obtain ⟨edge, htake⟩ := exists_of_on_discard_eq_ok hon
  exact (of_on_takeEdge h htake).2.2

theorem exchanges_of_on_takeEdge (h : graph.WellFormed) {rule : Rule} {outcome : Unit}
    (hon : (discard <| takeEdge rule key).on graph = (.ok outcome, next)) :
    key ∈ graph.keys ∧ graph.Exchanges {key} ∅ next := by
  obtain ⟨edge, htake⟩ := exists_of_on_discard_eq_ok hon
  obtain ⟨hedge, rfl, rfl⟩ := of_on_takeEdge h htake
  exact ⟨key_mem_keys hedge, h.exchanges_eraseKey edge.key⟩

theorem eq_eraseToken_of_on_takeToken {rule : Rule} {index : Nat} {token : Token}
    (hon : (takeToken rule index).on graph = (.ok token, next)) :
    graph.token? index = some token ∧ next = graph.eraseToken index := by
  rw [on_takeToken, takeToken?] at hon
  cases htoken : graph.token? index with
  | none =>
      rw [htoken] at hon
      cases hon
  | some found =>
      rw [htoken] at hon
      cases hon
      exact ⟨rfl, rfl⟩

theorem eq_markRoot_of_on_moveRoot {old new : Nat} {outcome : Unit}
    (hon : (moveRoot old new).on graph = (.ok outcome, next)) :
    next = (graph.eraseRoot old).markRoot new := by
  rw [on_moveRoot, addRoot] at hon
  split at hon
  · next hadd =>
    split at hadd
    · cases hadd
      cases hon
      rfl
    · cases hadd
  · cases hon

theorem eq_of_on_putEdge {edge : Edge} {outcome : Unit}
    (hon : (putEdge edge).on graph = (.ok outcome, next)) :
    edge.key ∈ graph.keys ∧ next = graph ∨ edge.key ∉ graph.keys ∧
      next = { graph with
        arcs := graph.arcs ++ [(graph.nextEdge, edge)]
        nextEdge := graph.nextEdge + 1 } := by
  rw [on_putEdge] at hon
  split at hon
  · next number result hadd =>
    cases hon
    obtain ⟨-, -, ⟨hfind, rfl⟩ | ⟨hfind, -, rfl⟩⟩ := addEdge_cases hadd
    · obtain ⟨other, harc, hother⟩ := mem_arcs_of_find? hfind
      exact .inl ⟨mem_keys_iff_arcs.mpr ⟨_, harc, hother⟩, rfl⟩
    · refine .inr ⟨?_, rfl⟩
      rintro ⟨other, hother, heq⟩
      exact find?_eq_none_iff.mp hfind other hother heq
  · cases hon

/-- What is taken out one after the other is taken out together. -/
theorem of_on_mapM_takeEdge (h : graph.WellFormed) {rule : Rule} {keys : List EdgeKey}
    {edges : List Edge} (hon : (keys.mapM (takeEdge rule)).on graph = (.ok edges, next)) :
    edges.map Edge.key = keys ∧ (∀ edge ∈ edges, edge ∈ graph.edges) ∧
      graph.Exchanges {key | key ∈ keys} ∅ next := by
  induction keys generalizing graph edges with
  | nil =>
      cases hon
      exact ⟨rfl, fun _ hedge => absurd hedge List.not_mem_nil,
        (Exchanges.refl h).congr (by simp) rfl⟩
  | cons key keys ih =>
      rw [List.mapM_cons] at hon
      obtain ⟨edge, mid, htake, hon⟩ := exists_of_on_bind_eq_ok hon
      obtain ⟨rest, last, hrest, hon⟩ := exists_of_on_bind_eq_ok hon
      cases hon
      obtain ⟨hedge, rfl, rfl⟩ := of_on_takeEdge h htake
      have hfirst := h.exchanges_eraseKey edge.key
      obtain ⟨rfl, hedges, hrest⟩ := ih hfirst.wellFormed hrest
      refine ⟨rfl, List.forall_mem_cons.mpr ⟨hedge, fun other hother => ?_⟩,
        (hfirst.trans h hrest fun _ => False.elim).congr ?_ (Set.union_empty _)⟩
      · exact ((hfirst.mem_edges_iff (Set.notMem_empty _)).mp (hedges other hother)).1
      · ext other
        simp

theorem appends_of_on_forM_putEdge {β : Type} (h : graph.WellFormed) {items : List β}
    {edge : β → Edge} {outcome : PUnit}
    (hon : (items.forM fun item => putEdge (edge item)).on graph = (.ok outcome, next)) :
    Appends (items.map edge) graph next := by
  rw [List.forM_eq_forM] at hon
  induction items generalizing graph with
  | nil =>
      cases hon
      exact .refl h
  | cons item items ih =>
      rw [List.forM_cons] at hon
      obtain ⟨_, mid, hput, hon⟩ := exists_of_on_bind_eq_ok hon
      have hmid := (appends_of_on_putEdge h hput).1
      exact hmid.append (ih hmid.wellFormed hon)

end EditM

end DepNorm
