import DepNorm.Proofs.Graph.Exchange
import DepNorm.Proofs.Graph.Numbers

/-!
Relabelling an edge. The edge is taken out and put in again, and what comes of that depends on the
new key. If no other edge has it, be it that it is the old key, the edge comes back under a number
that has never been in use. If another edge has it, that one stays as it is and the first one is
lost.
-/

namespace DepNorm.Graph

variable {graph next : Graph} {key : EdgeKey} {relation : String} {number : Nat}

/-- No other edge than that with the key has the key with the new relation. -/
def Vacant (graph : Graph) (key : EdgeKey) (relation : String) : Prop :=
  { key with relation } ∉ graph.keys ∨ { key with relation } = key

/-- What the second graph is if the edge with the key has been put under another relation. The
number is that of the edge with the new key. -/
structure Relabelled (graph : Graph) (key : EdgeKey) (relation : String) (number : Nat)
    (next : Graph) : Prop where
  tokens : next.tokens = graph.tokens
  roots : next.roots = graph.roots
  keys : next.keys = insert { key with relation } (graph.keys \ {key})
  find? : next.find? { key with relation } = some number
  /-- All other edges keep their numbers, weights and flags. -/
  kept : ∀ arc ∈ graph.arcs, arc.2.key ≠ key → arc ∈ next.arcs
  /-- The edge keeps its weight and its flags, and gets a number that no edge has ever had. -/
  moved : Vacant graph key relation → ∀ edge ∈ graph.edges, edge.key = key →
    next.edge? number = some (edge.relabel relation) ∧ (∀ arc ∈ graph.arcs, arc.1 < number) ∧
      (∀ log, Logged log graph → number = log.length) ∧ next.arcs.length = graph.arcs.length
  /-- The edge has given way to another one, whose number it is. -/
  merged : ∀ arc ∈ graph.arcs, arc.2.key = { key with relation } → arc.2.key ≠ key →
    number = arc.1 ∧ next.arcs.length + 1 = graph.arcs.length

theorem mem_arcs_eraseKey {arc : Nat × Edge} :
    arc ∈ (graph.eraseKey key).arcs ↔ arc ∈ graph.arcs ∧ arc.2.key ≠ key := by
  rw [eraseKey, List.mem_filter, bne_iff_ne]

namespace WellFormed

variable {arc : Nat × Edge}

/-- Relabelling does not fail: the edge is there to be taken out, and its ends are still there when
it is put in again. -/
theorem exists_relabelEdge (h : graph.WellFormed) (harc : arc ∈ graph.arcs) (relation : String) :
    ∃ number next, graph.relabelEdge arc.2.key relation = .ok (some number, next) ∧
      (graph.eraseKey arc.2.key).addEdge (arc.2.relabel relation) = .ok (number, next) := by
  have hedge := mem_edges_of_mem_arcs harc
  obtain ⟨edge, rest, htake, -⟩ := h.exists_takeEdge? (key_mem_keys hedge)
  obtain ⟨hmem, hkey, rfl⟩ := h.of_takeEdge? htake
  obtain rfl := h.edge_eq_of_key_eq hmem hedge hkey
  have hrest : (graph.eraseKey arc.2.key).WellFormed := h.filter_arcs _
  have hgovernor : (arc.2.relabel relation).governor ∈ graph.eraseKey arc.2.key :=
    h.governor_mem arc.2 hedge
  obtain ⟨number, next, hadd, -⟩ := hrest.exists_addEdge hgovernor (h.dependent_mem arc.2 hedge)
  refine ⟨number, next, ?_, hadd⟩
  rw [relabelEdge, htake]
  simp only [hadd]
  rfl

theorem exchanges_of_addEdge (h : graph.WellFormed)
    (hadd : (graph.eraseKey arc.2.key).addEdge (arc.2.relabel relation) = .ok (number, next)) :
    graph.Exchanges {arc.2.key} {arc.2.relabel relation} next := by
  have htaken := h.exchanges_eraseKey arc.2.key
  have hput := (appends_addEdge htaken.wellFormed hadd).exchanges
  refine (htaken.trans h hput fun _ => False.elim).congr (Set.union_empty _) ?_
  ext edge
  simp

theorem relabelled_of_addEdge (h : graph.WellFormed) (harc : arc ∈ graph.arcs)
    (hadd : (graph.eraseKey arc.2.key).addEdge (arc.2.relabel relation) = .ok (number, next)) :
    Relabelled graph arc.2.key relation number next := by
  have hexchange := h.exchanges_of_addEdge hadd
  have hlength : (graph.eraseKey arc.2.key).arcs.length + 1 = graph.arcs.length := by
    rw [h.arcs_eraseKey harc, List.length_erase_add_one harc]
  have hkeys : next.keys = insert { arc.2.key with relation } (graph.keys \ {arc.2.key}) := by
    rw [hexchange.keys, Set.image_singleton, Set.union_singleton, Edge.key_relabel]
  have hkept (other : Nat × Edge) (hother : other ∈ graph.arcs) (hne : other.2.key ≠ arc.2.key) :
      other ∈ next.arcs := (hexchange.kept other hother).mpr hne
  obtain ⟨-, -, ⟨hfind, rfl⟩ | ⟨hnone, rfl, hnext⟩⟩ := addEdge_cases hadd
  · -- Another edge has the new key, and stays.
    obtain ⟨other, hother, hkey⟩ := mem_arcs_of_find? hfind
    obtain ⟨hother, hne⟩ := mem_arcs_eraseKey.mp hother
    refine ⟨hexchange.tokens, hexchange.roots, hkeys, hfind, hkept, ?_, ?_⟩
    · rintro (hvacant | hsame)
      · exact absurd (mem_keys_iff_arcs.mpr ⟨_, hother, hkey⟩) hvacant
      · exact absurd (hkey.trans hsame) hne
    · intro found hfound hfoundKey _
      obtain rfl := h.arc_eq_of_key_eq hfound hother (hfoundKey.trans hkey.symm)
      exact ⟨rfl, hlength⟩
  · -- The new key was free, or is the old one, and the edge comes back under a new number.
    have hnew : (graph.nextEdge, arc.2.relabel relation) ∈ next.arcs := by
      rw [hnext]
      exact List.mem_append_right _ (List.mem_singleton_self _)
    refine ⟨hexchange.tokens, hexchange.roots, hkeys, ?_, hkept, ?_, ?_⟩
    · exact hexchange.wellFormed.find?_eq_some_iff.mpr ⟨_, hnew, rfl⟩
    · intro _ edge hedge hkey
      obtain rfl := h.edge_eq_of_key_eq hedge (mem_edges_of_mem_arcs harc) hkey
      refine ⟨hexchange.wellFormed.edge?_eq_some_iff.mpr hnew, h.number_lt,
        fun log hlog => hlog.places.1, ?_⟩
      rw [hnext, List.length_append, List.length_singleton, hlength]
    · intro other hother hkey hne
      have hrest := mem_edges_of_mem_arcs (mem_arcs_eraseKey.mpr ⟨hother, hne⟩)
      exact absurd hkey (find?_eq_none_iff.mp hnone _ hrest)

end WellFormed

/-- Relabelling never fails. If no edge has the key it changes nothing, and otherwise the edge is
found under the new relation. -/
theorem relabelled_of_relabelEdge (h : graph.Reachable) (key : EdgeKey) (relation : String) :
    (key ∉ graph.keys → graph.relabelEdge key relation = .ok (none, graph)) ∧
      (key ∈ graph.keys → ∃ number next,
        graph.relabelEdge key relation = .ok (some number, next) ∧
          Relabelled graph key relation number next) := by
  constructor
  · intro hkey
    rw [relabelEdge, h.wellFormed.takeEdge?_eq_none_iff.mpr hkey]
  · intro hkey
    obtain ⟨arc, harc, rfl⟩ := mem_keys_iff_arcs.mp hkey
    obtain ⟨number, next, hrelabel, hadd⟩ := h.wellFormed.exists_relabelEdge harc relation
    exact ⟨number, next, hrelabel, h.wellFormed.relabelled_of_addEdge harc hadd⟩

/-- "one cat", where the numeral hangs below the noun by a primary edge and by two secondary ones,
one of which is a determiner edge. -/
def oneCat : Graph where
  tokens := [
    { index := 1, word := "one", baseForm := "one", tag := "CD" },
    { index := 2, word := "cat", baseForm := "cat", tag := "NN" }]
  arcs := [
    (0, { governor := 2, dependent := 1, relation := "num" }),
    (1, { governor := 2, dependent := 1, relation := "num", extra := true }),
    (2, { governor := 2, dependent := 1, relation := "det", extra := true })]
  roots := [2]
  nextEdge := 3

theorem reachable_oneCat : oneCat.Reachable := by
  have hread : TokenTable.read "1 one one CD 2 num _ 2:num|2:det\n2 cat cat NN 0 root" =
      .ok oneCat := by decide +kernel
  exact .read hread

def numeralOfCat (extra : Bool) : EdgeKey where
  governor := 2
  dependent := 1
  relation := "num"
  extra := extra

/-- In `oneCat` the primary numeral edge becomes a determiner edge under a new number, and the
secondary one gives way to the edge that is a determiner edge already. -/
theorem relabelled_of_relabelEdge_oneCat :
    (∃ next, oneCat.relabelEdge (numeralOfCat false) "det" = .ok (some 3, next) ∧
        Relabelled oneCat (numeralOfCat false) "det" 3 next) ∧
      ∃ next, oneCat.relabelEdge (numeralOfCat true) "det" = .ok (some 2, next) ∧
        Relabelled oneCat (numeralOfCat true) "det" 2 next := by
  have hkey (extra : Bool) : numeralOfCat extra ∈ oneCat.keys := by
    cases extra
    · exact ⟨{ governor := 2, dependent := 1, relation := "num" }, by decide, rfl⟩
    · exact ⟨{ governor := 2, dependent := 1, relation := "num", extra := true }, by decide, rfl⟩
  have hnumber (extra : Bool) : (oneCat.relabelEdge (numeralOfCat extra) "det").map Prod.fst =
      .ok (some (if extra then 2 else 3)) := by
    cases extra <;> decide
  have hrelabelled (extra : Bool) : ∃ next, oneCat.relabelEdge (numeralOfCat extra) "det" =
        .ok (some (if extra then 2 else 3), next) ∧
      Relabelled oneCat (numeralOfCat extra) "det" (if extra then 2 else 3) next := by
    obtain ⟨number, next, hok, hnext⟩ :=
      (relabelled_of_relabelEdge reachable_oneCat (numeralOfCat extra) "det").2 (hkey extra)
    have heq := hnumber extra
    rw [hok] at heq
    cases heq
    exact ⟨next, hok, hnext⟩
  exact ⟨hrelabelled false, hrelabelled true⟩

end DepNorm.Graph
