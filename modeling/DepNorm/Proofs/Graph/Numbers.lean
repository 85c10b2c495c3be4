import DepNorm.Proofs.Graph.Keys
import DepNorm.Proofs.Graph.Reachable

/-!
The numbers of edges over time. A log lists the edges that have ever been put into a graph, in the
order in which this was done. The number of an edge is its place in the log. So a number stands for
the same edge in all later graphs or, once that edge has been taken out, for none.
-/

namespace DepNorm.Graph

/-- The graph comes from the empty one by elementary changes, and these are the edges that were put
in on the way, be it that they have been taken out again. -/
inductive Logged : List Edge → Graph → Prop
  | empty : Logged [] {}
  | put {log : List Edge} {graph next : Graph} {edge : Edge} {number : Nat}
      (h : Logged log graph) (hnew : graph.find? edge.key = none)
      (hadd : graph.addEdge edge = .ok (number, next)) : Logged (log ++ [edge]) next
  | keep {log : List Edge} {graph next : Graph} (h : Logged log graph) (step : Step graph next)
      (hnumbers : next.nextEdge = graph.nextEdge) : Logged log next

variable {graph next : Graph} {log : List Edge}

/-! ### Single changes -/

theorem Step.arcs (step : Step graph next) :
    (next.nextEdge = graph.nextEdge ∧ next.arcs ⊆ graph.arcs) ∨
      ∃ edge, graph.find? edge.key = none ∧
        graph.addEdge edge = .ok (graph.nextEdge, next) ∧
        next.nextEdge = graph.nextEdge + 1 ∧
        next.arcs = graph.arcs ++ [(graph.nextEdge, edge)] := by
  cases step with
  | insertToken => exact .inl ⟨rfl, List.Subset.refl _⟩
  | eraseToken => exact .inl ⟨rfl, List.filter_sublist.subset⟩
  | @addEdge _ edge _ hadd =>
      obtain ⟨-, -, ⟨-, rfl⟩ | ⟨hnew, rfl, hnext⟩⟩ := addEdge_cases hadd
      · exact .inl ⟨rfl, List.Subset.refl _⟩
      · exact .inr ⟨edge, hnew, hadd, hnext ▸ rfl, hnext ▸ rfl⟩
  | eraseEdge => exact .inl ⟨rfl, List.filter_sublist.subset⟩
  | markRoot => exact .inl ⟨rfl, List.Subset.refl _⟩
  | eraseRoot => exact .inl ⟨rfl, List.Subset.refl _⟩

/-! ### Places in the log -/

namespace Logged

/-- The next number is the length of the log, and each edge is found in the log at its number. -/
theorem places (h : Logged log graph) :
    graph.nextEdge = log.length ∧ ∀ arc ∈ graph.arcs, log[arc.1]? = some arc.2 := by
  induction h with
  | empty => exact ⟨rfl, fun _ harc => absurd harc List.not_mem_nil⟩
  | @put log graph next edge number _ hnew hadd ih =>
      obtain ⟨hlength, hplaces⟩ := ih
      obtain ⟨-, -, ⟨hfind, -⟩ | ⟨-, -, rfl⟩⟩ := addEdge_cases hadd
      · cases hnew.symm.trans hfind
      refine ⟨by rw [hlength, List.length_append, List.length_singleton], fun arc harc => ?_⟩
      rcases List.mem_append.mp harc with harc | harc
      · have hplace := hplaces arc harc
        rwa [List.getElem?_append_left (List.getElem?_eq_some_iff.mp hplace).1]
      · rw [List.mem_singleton.mp harc, hlength, List.getElem?_concat_length]
  | keep _ step hnumbers ih =>
      obtain ⟨-, harcs⟩ | ⟨edge, -, -, hnumbers', -⟩ := step.arcs
      · exact ⟨hnumbers.trans ih.1, fun arc harc => ih.2 arc (harcs harc)⟩
      · omega

theorem edge?_eq (h : Logged log graph) (number : Nat) :
    graph.edge? number = none ∨ graph.edge? number = log[number]? := by
  cases hedge : graph.edge? number with
  | none => exact .inl rfl
  | some edge => exact .inr (h.places.2 _ (mem_arcs_of_edge? hedge)).symm

/-- After a change the log is as before, or has one edge more. What is in the graph was there before
or has a number that no edge had. -/
theorem step (h : Logged log graph) (step : Step graph next) :
    ∃ more, Logged (log ++ more) next ∧
      ∀ arc ∈ next.arcs, arc ∈ graph.arcs ∨ log.length ≤ arc.1 := by
  obtain ⟨hnumbers, harcs⟩ | ⟨edge, hnew, hadd, -, harcs⟩ := step.arcs
  · refine ⟨[], ?_, fun arc harc => .inl (harcs harc)⟩
    rw [List.append_nil]
    exact .keep h step hnumbers
  · refine ⟨[edge], .put h hnew hadd, fun arc harc => ?_⟩
    rcases List.mem_append.mp (harcs ▸ harc) with harc | harc
    · exact .inl harc
    · rw [List.mem_singleton.mp harc, h.places.1]
      exact .inr le_rfl

theorem steps (h : Logged log graph) (steps : Steps graph next) :
    ∃ more, Logged (log ++ more) next ∧
      ∀ arc ∈ next.arcs, arc ∈ graph.arcs ∨ log.length ≤ arc.1 := by
  induction steps with
  | refl => exact ⟨[], by rwa [List.append_nil], fun _ => .inl⟩
  | tail _ last ih =>
      obtain ⟨more, hmid, harcs⟩ := ih
      obtain ⟨more', hnext, harcs'⟩ := hmid.step last
      refine ⟨more ++ more', by rwa [← List.append_assoc], fun arc harc => ?_⟩
      rcases harcs' arc harc with harc | hplace
      · exact harcs arc harc
      · rw [List.length_append] at hplace
        exact .inr (by omega)

theorem number_eq (h : Logged log graph) {edge : Edge} {number : Nat}
    (hnew : graph.find? edge.key = none) (hadd : graph.addEdge edge = .ok (number, next)) :
    number = log.length := by
  obtain ⟨-, -, ⟨hfind, -⟩ | ⟨-, rfl, -⟩⟩ := addEdge_cases hadd
  · cases hnew.symm.trans hfind
  · exact h.places.1

end Logged

theorem WellFormed.addEdge_of_find? (h : graph.WellFormed) {edge : Edge} {number : Nat}
    (hfind : graph.find? edge.key = some number) : graph.addEdge edge = .ok (number, graph) := by
  obtain ⟨other, harc, hkey⟩ := mem_arcs_of_find? hfind
  have hmem := key_mem_keys (mem_edges_of_mem_arcs harc)
  rw [hkey] at hmem
  have hgovernor : edge.governor ∈ graph := h.governor_mem_of_keys hmem
  have hdependent : edge.dependent ∈ graph := h.dependent_mem_of_keys hmem
  simp only [Graph.addEdge, hgovernor, hdependent, hfind, not_true_eq_false, if_false]

/-! ### Runs of operations -/

namespace Reachable

theorem exists_logged (h : graph.Reachable) : ∃ log, Logged log graph := by
  obtain ⟨log, hlog, -⟩ := Logged.empty.steps h.steps
  exact ⟨log, hlog⟩

theorem steps_run (graph : Graph) (ops : List Operation) :
    Steps graph (ops.foldl (fun graph op => op.on graph) graph) := by
  induction ops generalizing graph with
  | nil => exact .refl
  | cons op ops ih => exact (op.steps graph).trans (ih _)

/-- Every run of operations, those that fail on the way included, goes on with the log of the graph
it starts from. A number stands for the edge at its place in the log or, if that has been taken out,
for none, and then it does so for good. Adding an edge changes nothing if its key is there;
otherwise the edge gets the first number that is not in the log. -/
theorem numbers_stable (h : graph.Reachable) :
    (∃ log, Logged log graph) ∧
      ∀ log, Logged log graph → ∀ ops : List Operation,
        let last := ops.foldl (fun graph op => op.on graph) graph
        ∃ more, Logged (log ++ more) last ∧
          (∀ number, last.edge? number = none ∨ last.edge? number = (log ++ more)[number]?) ∧
          (∀ number < log.length, graph.edge? number = none → last.edge? number = none) ∧
          ∀ edge,
            (∀ number, last.find? edge.key = some number →
              last.addEdge edge = .ok (number, last)) ∧
            ∀ number next, last.find? edge.key = none → last.addEdge edge = .ok (number, next) →
              number = (log ++ more).length ∧ Logged (log ++ more ++ [edge]) next := by
  refine ⟨h.exists_logged, fun log hlog ops => ?_⟩
  obtain ⟨more, hlast, harcs⟩ := hlog.steps (steps_run graph ops)
  refine ⟨more, hlast, hlast.edge?_eq, fun number hnumber hnone => ?_, fun edge => ⟨?_, ?_⟩⟩
  · refine Option.eq_none_iff_forall_ne_some.mpr fun edge hedge => ?_
    rcases harcs _ (mem_arcs_of_edge? hedge) with harc | hplace
    · rw [h.wellFormed.edge?_eq_some_iff.mpr harc] at hnone
      cases hnone
    · exact absurd hnumber (by omega)
  · exact fun number hfind => (h.run ops).wellFormed.addEdge_of_find? hfind
  · exact fun number next hnew hadd => ⟨hlast.number_eq hnew hadd, .put hlast hnew hadd⟩

/-- The rule that stops in `cutShort` has taken out the edge with number 0 and has left the one with
number 1. Whatever is done to the graph now, 0 stays free, and 1 never stands for another edge. -/
theorem numbers_stable_cutShort :
    let graph := cutShort.foldl (fun graph op => op.on graph) {}
    graph.Reachable ∧ graph.edge? 0 = none ∧ ∀ ops : List Operation,
      let last := ops.foldl (fun graph op => op.on graph) graph
      last.edge? 0 = none ∧ (last.edge? 1 = none ∨ last.edge? 1 =
        some { governor := 2, dependent := 3, relation := "nmod:of", extra := true }) := by
  intro graph
  have hreachable : graph.Reachable := Reachable.empty.run cutShort
  obtain ⟨⟨log, hlog⟩, hrun⟩ := hreachable.numbers_stable
  have hlength : log.length = 2 := by
    rw [← hlog.places.1]
    decide +kernel
  have hkept : log[1]? = _ := hlog.places.2
    (1, { governor := 2, dependent := 3, relation := "nmod:of", extra := true }) (by decide +kernel)
  have hfree : graph.edge? 0 = none := by decide +kernel
  refine ⟨hreachable, hfree, fun ops => ?_⟩
  obtain ⟨more, -, hplaces, hgone, -⟩ := hrun log hlog ops
  refine ⟨hgone 0 (by omega) hfree, ?_⟩
  rw [← hkept, ← List.getElem?_append_left (by omega)]
  exact hplaces 1

end Reachable

end DepNorm.Graph
