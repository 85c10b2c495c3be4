import DepNorm.Graph.Update

/-!
What every graph promises that the operations have made: tokens, edges and roots stand in order,
numbers and keys of edges are unique, numbers in use are below the next one, and both ends of every
edge and every root are tokens.
-/

namespace DepNorm.Graph

structure WellFormed (graph : Graph) : Prop where
  tokens_ascending : graph.tokens.Pairwise (·.index < ·.index)
  numbers_ascending : graph.arcs.Pairwise (·.1 < ·.1)
  roots_ascending : graph.roots.Pairwise (· < ·)
  number_lt : ∀ arc ∈ graph.arcs, arc.1 < graph.nextEdge
  keys_distinct : graph.edges.Pairwise (·.key ≠ ·.key)
  governor_mem : ∀ edge ∈ graph.edges, edge.governor ∈ graph
  dependent_mem : ∀ edge ∈ graph.edges, edge.dependent ∈ graph
  root_mem : ∀ root ∈ graph.roots, root ∈ graph

theorem wellFormed_empty : WellFormed {} where
  tokens_ascending := .nil
  numbers_ascending := .nil
  roots_ascending := .nil
  number_lt := by simp
  keys_distinct := .nil
  governor_mem := by simp [edges]
  dependent_mem := by simp [edges]
  root_mem := by simp

theorem WellFormed.check_eq_ok {graph : Graph} (h : graph.WellFormed) : graph.check = .ok () := by
  have none_missing : (graph.edges.flatMap (fun edge => [edge.governor, edge.dependent]) ++
      graph.roots).find? (· ∉ graph) = none := by
    simp only [List.find?_eq_none, List.mem_append, List.mem_flatMap, List.mem_cons,
      List.not_mem_nil, or_false, decide_eq_true_eq, Classical.not_not]
    rintro index (⟨edge, hedge, rfl | rfl⟩ | hroot)
    · exact h.governor_mem edge hedge
    · exact h.dependent_mem edge hedge
    · exact h.root_mem index hroot
  simp only [check, none_missing]

end DepNorm.Graph
