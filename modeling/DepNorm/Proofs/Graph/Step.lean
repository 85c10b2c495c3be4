import DepNorm.Graph.WellFormed
import Mathlib.Logic.Relation

/-!
Elementary changes of a graph, and what they keep. Every operation and every rule is a sequence of
the six changes that `Step` lists, so a property that each of them keeps holds along whatever is
done to a graph. The property of this module is `WellFormed`.
-/

namespace DepNorm.Graph

/-! ### Lists with keys -/

theorem pairwise_insert {α : Type} (key : α → Nat) {items : List α}
    (h : items.Pairwise (key · < key ·)) (new : α) :
    (items.filter (key · < key new) ++ new :: items.filter (key new < key ·)).Pairwise
      (key · < key ·) := by
  rw [List.pairwise_append, List.pairwise_cons]
  refine ⟨h.filter _, ⟨?_, h.filter _⟩, ?_⟩
  · intro item hitem
    simpa using (List.mem_filter.mp hitem).2
  · intro low hlow high hhigh
    have hbelow : key low < key new := by simpa using (List.mem_filter.mp hlow).2
    rcases List.mem_cons.mp hhigh with rfl | hhigh
    · exact hbelow
    · have habove : key new < key high := by simpa using (List.mem_filter.mp hhigh).2
      omega

theorem find?_key_eq_some {α κ : Type} [DecidableEq κ] (key : α → κ) {items : List α}
    (h : items.Pairwise (key · ≠ key ·)) {item : α} (hmem : item ∈ items) :
    items.find? (key · == key item) = some item := by
  induction h with
  | nil => simp at hmem
  | @cons first rest hfirst _ ih =>
      rcases List.mem_cons.mp hmem with rfl | hrest
      · simp
      · rw [List.find?_cons_of_neg (by simpa using hfirst item hrest)]
        exact ih hrest

/-! ### What each change does to the indices -/

@[simp] theorem mem_insertToken {index : Nat} {graph : Graph} {token : Token} :
    index ∈ graph.insertToken token ↔ index = token.index ∨ index ∈ graph := by
  simp only [mem_iff, insertToken, List.mem_append, List.mem_cons, List.mem_filter,
    decide_eq_true_eq]
  constructor
  · rintro ⟨other, ⟨hmem, -⟩ | rfl | ⟨hmem, -⟩, rfl⟩
    · exact .inr ⟨other, hmem, rfl⟩
    · exact .inl rfl
    · exact .inr ⟨other, hmem, rfl⟩
  · rintro (rfl | ⟨other, hmem, rfl⟩)
    · exact ⟨token, .inr (.inl rfl), rfl⟩
    · -- A token of the same index gives way to the new one, which then has that index.
      rcases Nat.lt_trichotomy other.index token.index with hlt | heq | hgt
      · exact ⟨other, .inl ⟨hmem, hlt⟩, rfl⟩
      · exact ⟨token, .inr (.inl rfl), heq.symm⟩
      · exact ⟨other, .inr (.inr ⟨hmem, hgt⟩), rfl⟩

@[simp] theorem mem_eraseToken {index erased : Nat} {graph : Graph} :
    index ∈ graph.eraseToken erased ↔ index ∈ graph ∧ index ≠ erased := by
  simp only [mem_iff, eraseToken, List.mem_filter, bne_iff_ne]
  constructor
  · rintro ⟨token, ⟨hmem, hne⟩, rfl⟩
    exact ⟨⟨token, hmem, rfl⟩, hne⟩
  · rintro ⟨⟨token, hmem, rfl⟩, hne⟩
    exact ⟨token, ⟨hmem, hne⟩, rfl⟩

@[simp] theorem mem_markRoot {index root : Nat} {graph : Graph} :
    index ∈ graph.markRoot root ↔ index ∈ graph := Iff.rfl

theorem mem_roots_markRoot {index root : Nat} {graph : Graph} :
    index ∈ (graph.markRoot root).roots ↔ index = root ∨ index ∈ graph.roots := by
  simp only [markRoot, List.mem_append, List.mem_cons, List.mem_filter, decide_eq_true_eq]
  have := Nat.lt_trichotomy index root
  grind

/-! ### Looking tokens and edges up -/

theorem mem_of_token? {graph : Graph} {index : Nat} {token : Token}
    (h : graph.token? index = some token) : index ∈ graph :=
  ⟨token, List.mem_of_find?_eq_some h, by simpa using List.find?_some h⟩

theorem find?_eq_none_iff {graph : Graph} {key : EdgeKey} :
    graph.find? key = none ↔ ∀ edge ∈ graph.edges, edge.key ≠ key := by
  simp only [find?, edges, Option.map_eq_none_iff, List.find?_eq_none, beq_iff_eq, List.mem_map]
  constructor
  · rintro h edge ⟨arc, harc, rfl⟩
    exact h arc harc
  · intro h arc harc
    exact h arc.2 ⟨arc, harc, rfl⟩

theorem mem_arcs_of_find? {graph : Graph} {key : EdgeKey} {number : Nat}
    (h : graph.find? key = some number) :
    ∃ edge, (number, edge) ∈ graph.arcs ∧ edge.key = key := by
  simp only [find?, Option.map_eq_some_iff] at h
  obtain ⟨⟨number, edge⟩, harc, rfl⟩ := h
  exact ⟨edge, List.mem_of_find?_eq_some harc, by simpa using List.find?_some harc⟩

theorem mem_arcs_of_edge? {graph : Graph} {number : Nat} {edge : Edge}
    (h : graph.edge? number = some edge) : (number, edge) ∈ graph.arcs := by
  simp only [edge?, Option.map_eq_some_iff] at h
  obtain ⟨⟨other, edge⟩, harc, rfl⟩ := h
  have hnumber : other = number := by simpa using List.find?_some harc
  exact hnumber ▸ List.mem_of_find?_eq_some harc

theorem mem_outgoing {graph : Graph} {index : Nat} {edge : Edge} :
    edge ∈ graph.outgoing index ↔ edge ∈ graph.edges ∧ edge.governor = index := by
  rw [outgoing, Edge.sort, List.mem_mergeSort, List.mem_filter, beq_iff_eq]

theorem mem_edges_of_mem_arcs {graph : Graph} {arc : Nat × Edge} (h : arc ∈ graph.arcs) :
    arc.2 ∈ graph.edges := List.mem_map_of_mem h

theorem pairwise_edges {graph : Graph} :
    graph.edges.Pairwise (·.key ≠ ·.key) ↔
      graph.arcs.Pairwise fun arc other => arc.2.key ≠ other.2.key :=
  List.pairwise_map (R := fun edge other : Edge => edge.key ≠ other.key)

theorem nodup_edges {graph : Graph} (h : graph.WellFormed) : graph.edges.Nodup :=
  h.keys_distinct.imp fun hne heq => hne (congrArg Edge.key heq)

/-- What adding an edge can do: nothing, if its key is there, or store it under a new number. -/
theorem addEdge_cases {graph next : Graph} {edge : Edge} {number : Nat}
    (h : graph.addEdge edge = .ok (number, next)) :
    edge.governor ∈ graph ∧ edge.dependent ∈ graph ∧
      ((graph.find? edge.key = some number ∧ next = graph) ∨
        (graph.find? edge.key = none ∧ number = graph.nextEdge ∧
          next = { graph with
            arcs := graph.arcs ++ [(graph.nextEdge, edge)]
            nextEdge := graph.nextEdge + 1 })) := by
  unfold addEdge at h
  split at h
  · cases h
  · next hgovernor =>
    split at h
    · cases h
    · next hdependent =>
      refine ⟨by simpa using hgovernor, by simpa using hdependent, ?_⟩
      cases hfind : graph.find? edge.key with
      | some found =>
          simp only [hfind, Except.ok.injEq, Prod.mk.injEq] at h
          exact .inl ⟨by rw [h.1], h.2.symm⟩
      | none =>
          simp only [hfind, Except.ok.injEq, Prod.mk.injEq] at h
          exact .inr ⟨rfl, h.1.symm, h.2.symm⟩

theorem addEdge_error_cases {graph : Graph} {edge : Edge} {fault : Fault}
    (h : graph.addEdge edge = .error fault) :
    (edge.governor ∉ graph ∧ fault = .unknownToken edge.governor) ∨
      edge.governor ∈ graph ∧ edge.dependent ∉ graph ∧ fault = .unknownToken edge.dependent := by
  unfold addEdge at h
  split at h
  · next hgovernor =>
    cases h
    exact .inl ⟨hgovernor, rfl⟩
  · next hgovernor =>
    split at h
    · next hdependent =>
      cases h
      exact .inr ⟨by simpa using hgovernor, hdependent, rfl⟩
    · split at h <;> cases h

namespace WellFormed

variable {graph : Graph}

/-! ### What a well-formed graph promises about look-ups -/

theorem token?_eq_some_iff (h : graph.WellFormed) {index : Nat} {token : Token} :
    graph.token? index = some token ↔ token ∈ graph.tokens ∧ token.index = index := by
  constructor
  · intro hfind
    exact ⟨List.mem_of_find?_eq_some hfind, by simpa using List.find?_some hfind⟩
  · rintro ⟨hmem, rfl⟩
    exact find?_key_eq_some Token.index (h.tokens_ascending.imp Nat.ne_of_lt) hmem

theorem any_token?_iff (h : graph.WellFormed) {index : Nat} {test : Token → Bool} :
    (graph.token? index).any test = true ↔
      ∃ token ∈ graph.tokens, token.index = index ∧ test token = true := by
  simp only [Option.any_eq_true, h.token?_eq_some_iff, and_assoc]

theorem edge?_eq_some_iff (h : graph.WellFormed) {number : Nat} {edge : Edge} :
    graph.edge? number = some edge ↔ (number, edge) ∈ graph.arcs := by
  refine ⟨mem_arcs_of_edge?, fun hmem => ?_⟩
  have hfind := find?_key_eq_some Prod.fst (h.numbers_ascending.imp Nat.ne_of_lt) hmem
  simp only [edge?, hfind, Option.map_some]

theorem arc_keys_distinct (h : graph.WellFormed) :
    graph.arcs.Pairwise fun arc other => arc.2.key ≠ other.2.key :=
  pairwise_edges.mp h.keys_distinct

theorem find?_eq_some_iff (h : graph.WellFormed) {key : EdgeKey} {number : Nat} :
    graph.find? key = some number ↔ ∃ edge, (number, edge) ∈ graph.arcs ∧ edge.key = key := by
  refine ⟨mem_arcs_of_find?, ?_⟩
  rintro ⟨edge, hmem, rfl⟩
  have hfind := find?_key_eq_some (fun arc => arc.2.key) h.arc_keys_distinct hmem
  simp only [find?, hfind, Option.map_some]

theorem arc_eq_of_key_eq (h : graph.WellFormed) {arc other : Nat × Edge} (harc : arc ∈ graph.arcs)
    (hother : other ∈ graph.arcs) (hkey : arc.2.key = other.2.key) : arc = other := by
  have hfind := find?_key_eq_some (fun arc => arc.2.key) h.arc_keys_distinct harc
  have hfind' := find?_key_eq_some (fun arc => arc.2.key) h.arc_keys_distinct hother
  simp only [hkey] at hfind
  exact Option.some.inj (hfind.symm.trans hfind')

theorem edge_eq_of_key_eq (h : graph.WellFormed) {edge other : Edge} (hedge : edge ∈ graph.edges)
    (hother : other ∈ graph.edges) (hkey : edge.key = other.key) : edge = other := by
  obtain ⟨arc, harc, rfl⟩ := List.mem_map.mp hedge
  obtain ⟨arc', harc', rfl⟩ := List.mem_map.mp hother
  rw [h.arc_eq_of_key_eq harc harc' hkey]

/-! ### Each change keeps a graph well formed -/

theorem insertToken (h : graph.WellFormed) (token : Token) :
    (graph.insertToken token).WellFormed where
  tokens_ascending := pairwise_insert Token.index h.tokens_ascending token
  numbers_ascending := h.numbers_ascending
  roots_ascending := h.roots_ascending
  number_lt := h.number_lt
  keys_distinct := h.keys_distinct
  governor_mem edge hedge := mem_insertToken.mpr (.inr (h.governor_mem edge hedge))
  dependent_mem edge hedge := mem_insertToken.mpr (.inr (h.dependent_mem edge hedge))
  root_mem root hroot := mem_insertToken.mpr (.inr (h.root_mem root hroot))

theorem eraseToken (h : graph.WellFormed) (index : Nat) :
    (graph.eraseToken index).WellFormed where
  tokens_ascending := h.tokens_ascending.filter _
  numbers_ascending := h.numbers_ascending.filter _
  roots_ascending := h.roots_ascending.filter _
  number_lt arc harc := h.number_lt arc (List.mem_filter.mp harc).1
  keys_distinct := pairwise_edges.mpr (h.arc_keys_distinct.filter _)
  governor_mem := by
    intro edge hedge
    obtain ⟨arc, harc, rfl⟩ := List.mem_map.mp hedge
    obtain ⟨harc, htouch⟩ := List.mem_filter.mp harc
    simp only [Bool.and_eq_true, bne_iff_ne] at htouch
    exact mem_eraseToken.mpr ⟨h.governor_mem arc.2 (mem_edges_of_mem_arcs harc), htouch.1⟩
  dependent_mem := by
    intro edge hedge
    obtain ⟨arc, harc, rfl⟩ := List.mem_map.mp hedge
    obtain ⟨harc, htouch⟩ := List.mem_filter.mp harc
    simp only [Bool.and_eq_true, bne_iff_ne] at htouch
    exact mem_eraseToken.mpr ⟨h.dependent_mem arc.2 (mem_edges_of_mem_arcs harc), htouch.2⟩
  root_mem := by
    intro root hroot
    obtain ⟨hroot, hne⟩ := List.mem_filter.mp hroot
    exact mem_eraseToken.mpr ⟨h.root_mem root hroot, by simpa using hne⟩

theorem addEdge (h : graph.WellFormed) {edge : Edge} {number : Nat} {next : Graph}
    (hadd : graph.addEdge edge = .ok (number, next)) : next.WellFormed := by
  obtain ⟨hgovernor, hdependent, ⟨-, rfl⟩ | ⟨hnew, -, rfl⟩⟩ := addEdge_cases hadd
  · exact h
  · have hedges (other : Edge) : other ∈ (graph.arcs ++ [(graph.nextEdge, edge)]).map Prod.snd ↔
        other ∈ graph.edges ∨ other = edge := by
      simp [edges]
    constructor
    case tokens_ascending => exact h.tokens_ascending
    case roots_ascending => exact h.roots_ascending
    case root_mem => exact h.root_mem
    case numbers_ascending =>
      refine List.pairwise_append.mpr ⟨h.numbers_ascending, List.pairwise_singleton _ _, ?_⟩
      intro arc harc new hnew
      rw [List.mem_singleton.mp hnew]
      exact h.number_lt arc harc
    case number_lt =>
      intro arc harc
      rcases List.mem_append.mp harc with harc | harc
      · exact Nat.lt_succ_of_lt (h.number_lt arc harc)
      · rw [List.mem_singleton.mp harc]
        exact Nat.lt_succ_self _
    case keys_distinct =>
      -- Only an edge whose key is new is added.
      rw [edges, List.map_append, List.pairwise_append]
      refine ⟨h.keys_distinct, List.pairwise_singleton _ _, ?_⟩
      intro other hother new hmem
      rw [List.mem_singleton.mp hmem]
      exact find?_eq_none_iff.mp hnew other hother
    case governor_mem =>
      intro other hother
      rcases (hedges other).mp hother with hother | rfl
      · exact h.governor_mem other hother
      · exact hgovernor
    case dependent_mem =>
      intro other hother
      rcases (hedges other).mp hother with hother | rfl
      · exact h.dependent_mem other hother
      · exact hdependent

theorem filter_arcs (h : graph.WellFormed) (test : Nat × Edge → Bool) :
    ({ graph with arcs := graph.arcs.filter test } : Graph).WellFormed where
  tokens_ascending := h.tokens_ascending
  numbers_ascending := h.numbers_ascending.filter _
  roots_ascending := h.roots_ascending
  number_lt arc harc := h.number_lt arc (List.mem_filter.mp harc).1
  keys_distinct := pairwise_edges.mpr (h.arc_keys_distinct.filter _)
  governor_mem := by
    intro edge hedge
    obtain ⟨arc, harc, rfl⟩ := List.mem_map.mp hedge
    exact h.governor_mem arc.2 (mem_edges_of_mem_arcs (List.mem_filter.mp harc).1)
  dependent_mem := by
    intro edge hedge
    obtain ⟨arc, harc, rfl⟩ := List.mem_map.mp hedge
    exact h.dependent_mem arc.2 (mem_edges_of_mem_arcs (List.mem_filter.mp harc).1)
  root_mem := h.root_mem

theorem eraseEdge (h : graph.WellFormed) (number : Nat) : (graph.eraseEdge number).WellFormed :=
  h.filter_arcs _

theorem markRoot (h : graph.WellFormed) {index : Nat} (hindex : index ∈ graph) :
    (graph.markRoot index).WellFormed where
  tokens_ascending := h.tokens_ascending
  numbers_ascending := h.numbers_ascending
  roots_ascending := pairwise_insert id h.roots_ascending index
  number_lt := h.number_lt
  keys_distinct := h.keys_distinct
  governor_mem := h.governor_mem
  dependent_mem := h.dependent_mem
  root_mem := by
    intro root hroot
    rcases mem_roots_markRoot.mp hroot with rfl | hroot
    · exact hindex
    · exact h.root_mem root hroot

theorem eraseRoot (h : graph.WellFormed) (index : Nat) : (graph.eraseRoot index).WellFormed where
  tokens_ascending := h.tokens_ascending
  numbers_ascending := h.numbers_ascending
  roots_ascending := h.roots_ascending.filter _
  number_lt := h.number_lt
  keys_distinct := h.keys_distinct
  governor_mem := h.governor_mem
  dependent_mem := h.dependent_mem
  root_mem root hroot := h.root_mem root (List.mem_filter.mp hroot).1

end WellFormed

/-! ### Sequences of changes -/

/-- One elementary change. -/
inductive Step : Graph → Graph → Prop
  | insertToken (graph : Graph) (token : Token) : Step graph (graph.insertToken token)
  | eraseToken (graph : Graph) (index : Nat) : Step graph (graph.eraseToken index)
  | addEdge {graph next : Graph} {edge : Edge} {number : Nat}
      (h : graph.addEdge edge = .ok (number, next)) : Step graph next
  | eraseEdge (graph : Graph) (number : Nat) : Step graph (graph.eraseEdge number)
  | markRoot {graph : Graph} {index : Nat} (h : index ∈ graph) : Step graph (graph.markRoot index)
  | eraseRoot (graph : Graph) (index : Nat) : Step graph (graph.eraseRoot index)

abbrev Steps : Graph → Graph → Prop := Relation.ReflTransGen Step

theorem Step.wellFormed {graph next : Graph} (step : Step graph next) (h : graph.WellFormed) :
    next.WellFormed := by
  cases step with
  | insertToken token => exact h.insertToken token
  | eraseToken index => exact h.eraseToken index
  | addEdge hadd => exact h.addEdge hadd
  | eraseEdge number => exact h.eraseEdge number
  | markRoot hindex => exact h.markRoot hindex
  | eraseRoot index => exact h.eraseRoot index

theorem Steps.wellFormed {graph next : Graph} (steps : Steps graph next) (h : graph.WellFormed) :
    next.WellFormed := by
  induction steps with
  | refl => exact h
  | tail _ step ih => exact step.wellFormed ih

end DepNorm.Graph
