import DepNorm.Proofs.Graph.Keys
import Mathlib.Order.Monotone.Basic

/-!
Graphs with their tokens renamed. A renaming that keeps the order of the tokens keeps a graph well
formed. It only has to do so on the tokens of the graph, and what it makes of other numbers has no
effect on the graph.
-/

namespace DepNorm

/-! ### Renamed tokens, edges and faults -/

def Token.rename (index : Nat → Nat) (token : Token) : Token :=
  { token with index := index token.index }

def Edge.rename (index : Nat → Nat) (edge : Edge) : Edge :=
  { edge with governor := index edge.governor, dependent := index edge.dependent }

def EdgeKey.rename (index : Nat → Nat) (key : EdgeKey) : EdgeKey :=
  { key with governor := index key.governor, dependent := index key.dependent }

def Fault.rename (index : Nat → Nat) : Fault → Fault
  | missingEdge rule key => missingEdge rule (key.rename index)
  | missingToken rule missing => missingToken rule (index missing)
  | unknownToken unknown => unknownToken (index unknown)
  | fault => fault

@[simp] theorem EdgeKey.rename_id (key : EdgeKey) : key.rename id = key := rfl

@[simp] theorem Fault.rename_id (fault : Fault) : fault.rename id = fault := by
  cases fault <;> rfl

theorem Fault.rename_comp {index index' : Nat → Nat} (fault : Fault) :
    (fault.rename index).rename index' = fault.rename (index' ∘ index) := by
  cases fault <;> rfl

theorem EdgeKey.rename_injOn {index : Nat → Nat} {names : Set Nat} (hindex : names.InjOn index) :
    Set.InjOn (rename index) {key | key.governor ∈ names ∧ key.dependent ∈ names} := by
  rintro ⟨governor, dependent, relation, extra⟩ ⟨hgovernor, hdependent⟩
    ⟨governor', dependent', relation', extra'⟩ ⟨hgovernor', hdependent'⟩ heq
  obtain ⟨hgov, hdep, rfl, rfl⟩ := EdgeKey.mk.inj heq
  obtain rfl : governor = governor' := hindex hgovernor hgovernor' hgov
  obtain rfl : dependent = dependent' := hindex hdependent hdependent' hdep
  rfl

theorem EdgeKey.rename_injective {index : Nat → Nat} (hindex : index.Injective) :
    (rename index).Injective := by
  intro key other heq
  have hall : Set.univ.InjOn index := hindex.injOn
  exact rename_injOn hall ⟨trivial, trivial⟩ ⟨trivial, trivial⟩ heq

/-! ### Renamed graphs -/

namespace Graph

/-- The graph with its tokens renamed. Edges keep their numbers. -/
def rename (index : Nat → Nat) (graph : Graph) : Graph :=
  { graph with
    tokens := graph.tokens.map (Token.rename index)
    arcs := graph.arcs.map fun arc => (arc.1, arc.2.rename index)
    roots := graph.roots.map index }

variable {graph : Graph} {index index' : Nat → Nat}

theorem rename_comp : (graph.rename index).rename index' = graph.rename (index' ∘ index) := by
  simp [rename, Token.rename, Edge.rename]

theorem rename_id : graph.rename id = graph := by
  have htoken : Token.rename id = id := rfl
  simp [rename, htoken, Edge.rename]

theorem WellFormed.rename_congr (h : graph.WellFormed)
    (heq : ∀ name ∈ graph, index name = index' name) :
    graph.rename index = graph.rename index' := by
  have htokens : graph.tokens.map (Token.rename index) = graph.tokens.map (Token.rename index') :=
    List.map_congr_left fun token htoken => by
      rw [Token.rename, Token.rename, heq token.index ⟨token, htoken, rfl⟩]
  have harcs : graph.arcs.map (fun arc => (arc.1, arc.2.rename index)) =
      graph.arcs.map fun arc => (arc.1, arc.2.rename index') :=
    List.map_congr_left fun arc harc => by
      have hedge := mem_edges_of_mem_arcs harc
      rw [Edge.rename, Edge.rename, heq _ (h.governor_mem _ hedge), heq _ (h.dependent_mem _ hedge)]
  have hroots : graph.roots.map index = graph.roots.map index' :=
    List.map_congr_left fun root hroot => heq root (h.root_mem root hroot)
  rw [Graph.rename, Graph.rename, htokens, harcs, hroots]

theorem indices_rename : (graph.rename index).indices = graph.indices.map index := by
  simp [indices, rename, Token.rename]

theorem mem_rename_iff {name : Nat} :
    name ∈ graph.rename index ↔ ∃ old ∈ graph, index old = name := by
  simp only [← mem_indices, indices_rename, List.mem_map]

theorem mem_rename {name : Nat} (h : name ∈ graph) : index name ∈ graph.rename index :=
  mem_rename_iff.mpr ⟨name, h, rfl⟩

theorem edges_rename : (graph.rename index).edges = graph.edges.map (Edge.rename index) := by
  simp [rename, edges]

/-- A renaming that keeps the order of a graph's tokens keeps the graph well formed. -/
theorem WellFormed.rename (h : graph.WellFormed)
    (hindex : StrictMonoOn index {name | name ∈ graph}) : (graph.rename index).WellFormed where
  tokens_ascending := by
    refine List.pairwise_map.mpr (h.tokens_ascending.imp_of_mem fun htoken hother hlt => ?_)
    exact hindex ⟨_, htoken, rfl⟩ ⟨_, hother, rfl⟩ hlt
  numbers_ascending := List.pairwise_map.mpr h.numbers_ascending
  roots_ascending := by
    refine List.pairwise_map.mpr (h.roots_ascending.imp_of_mem fun hroot hother hlt => ?_)
    exact hindex (h.root_mem _ hroot) (h.root_mem _ hother) hlt
  number_lt := by
    intro arc harc
    obtain ⟨old, hold, rfl⟩ := List.mem_map.mp harc
    exact h.number_lt old hold
  keys_distinct := by
    rw [edges_rename]
    refine List.pairwise_map.mpr (h.keys_distinct.imp_of_mem fun hedge hother hne heq => ?_)
    have hends (edge : Edge) (hedge : edge ∈ graph.edges) : edge.key ∈
        {key : EdgeKey | key.governor ∈ {name | name ∈ graph} ∧
          key.dependent ∈ {name | name ∈ graph}} :=
      ⟨h.governor_mem edge hedge, h.dependent_mem edge hedge⟩
    exact hne (EdgeKey.rename_injOn hindex.injOn (hends _ hedge) (hends _ hother) heq)
  governor_mem := by
    rw [edges_rename]
    intro edge hedge
    obtain ⟨old, hold, rfl⟩ := List.mem_map.mp hedge
    exact mem_rename (h.governor_mem old hold)
  dependent_mem := by
    rw [edges_rename]
    intro edge hedge
    obtain ⟨old, hold, rfl⟩ := List.mem_map.mp hedge
    exact mem_rename (h.dependent_mem old hold)
  root_mem := by
    intro root hroot
    obtain ⟨old, hold, rfl⟩ := List.mem_map.mp hroot
    exact mem_rename (h.root_mem old hold)

end Graph

end DepNorm
