import DepNorm.Proofs.Graph.Edit
import DepNorm.Proofs.Outcome
import DepNorm.TokenTable.Reader

/-!
The graphs that a user of the library can come to hold: the empty graph, the graphs read from token
tables, and what operations and rules make of them, those that fail on the way included. All of
them are reached by elementary changes from the empty graph, hence well formed.
-/

namespace DepNorm

open DepNorm.Graph Outcome

/-! ### Reading a table -/

namespace TokenTable

/-- Adding edges is a sequence of steps and leaves the tokens alone. -/
def EdgeSteps (graph next : Graph) : Prop := Steps graph next ∧ next.tokens = graph.tokens

instance : IsPreorder Graph EdgeSteps where
  refl _ := ⟨.refl, rfl⟩
  trans _ _ _ h h' := ⟨h.1.trans h'.1, h'.2.trans h.2⟩

theorem edgeSteps_addEdge {graph next : Graph} {edge : Edge} {number : Nat}
    (h : graph.addEdge edge = .ok (number, next)) : EdgeSteps graph next := by
  refine ⟨.single (.addEdge h), ?_⟩
  obtain ⟨-, -, ⟨-, rfl⟩ | ⟨-, -, rfl⟩⟩ := addEdge_cases h <;> rfl

theorem edgeSteps_addEdges {line : Nat} {graph next : Graph} {edges : List Edge}
    (h : addEdges line graph edges = .ok next) : EdgeSteps graph next := by
  refine related_of_foldlM_eq_ok (R := EdgeSteps) (fun before edge after hmove => ?_) h
  split at hmove
  · next number result hadd =>
    cases hmove
    exact edgeSteps_addEdge hadd
  · cases hmove

theorem mem_foldl_insertToken {rows : List (Nat × Row)} {graph : Graph} {index : Nat} :
    index ∈ rows.foldl (fun graph row => graph.insertToken row.2.token) graph ↔
      index ∈ graph ∨ ∃ row ∈ rows, row.2.token.index = index := by
  induction rows generalizing graph with
  | nil => simp
  | cons row rows ih =>
      simp only [List.foldl_cons, ih, mem_insertToken, List.mem_cons, exists_eq_or_imp]
      grind

theorem steps_foldl_insertToken (rows : List (Nat × Row)) (graph : Graph) :
    Steps graph (rows.foldl (fun graph row => graph.insertToken row.2.token) graph) := by
  induction rows generalizing graph with
  | nil => exact .refl
  | cons row rows ih => exact .head (.insertToken graph row.2.token) (ih _)

theorem steps_foldl_markRoot {rows : List (Nat × Row)} {graph : Graph}
    (h : ∀ row ∈ rows, row.2.token.index ∈ graph) :
    Steps graph (rows.foldl (fun graph row => graph.markRoot row.2.token.index) graph) := by
  induction rows generalizing graph with
  | nil => exact .refl
  | cons row rows ih =>
      refine .head (.markRoot (h row List.mem_cons_self)) (ih fun other hother => ?_)
      exact mem_markRoot.mpr (h other (List.mem_cons_of_mem _ hother))

theorem steps_of_build {rows : List (Nat × Row)} {graph : Graph} (h : build rows = .ok graph) :
    Steps {} graph := by
  obtain ⟨linked, hedges, hroots⟩ := exists_of_bind_eq_ok h
  cases hroots
  have hlinked : EdgeSteps _ linked := related_of_foldlM_eq_ok (R := EdgeSteps)
    (fun _ _ _ hmove => edgeSteps_addEdges hmove) hedges
  refine ((steps_foldl_insertToken rows {}).trans hlinked.1).trans
    (steps_foldl_markRoot fun row hrow => ?_)
  rw [mem_iff, hlinked.2, ← mem_iff, mem_foldl_insertToken]
  exact .inr ⟨row, (List.mem_filter.mp hrow).1, rfl⟩

theorem steps_of_read {text : String} {graph : Graph} (h : read text = .ok graph) :
    Steps {} graph := by
  obtain ⟨rows, -, hbuild⟩ := exists_of_bind_eq_ok h
  exact steps_of_build hbuild

end TokenTable

/-! ### Operations -/

/-- The changes that can be asked for: six updates of single tokens, edges and roots, three that
take an edge out, and the four rules. -/
inductive Operation where
  | insertToken (token : Token)
  | takeToken (index : Nat)
  | addEdge (edge : Edge)
  | takeEdge (key : EdgeKey)
  | takeNumbered (number : Nat)
  | relabelEdge (key : EdgeKey) (relation : String)
  | addRoot (index : Nat)
  | eraseRoot (index : Nat)
  | quantity
  | operatorRoot
  | determiner
  | clause

namespace Operation

/-- The graph that an operation leaves, be it that it fails. A relabelling that cannot add the edge
again leaves the graph without it, and a rule leaves the graph as far as it came. -/
def on (graph : Graph) : Operation → Graph
  | insertToken token => graph.insertToken token
  | takeToken index => ((graph.takeToken? index).map Prod.snd).getD graph
  | addEdge edge => ((graph.addEdge edge).map Prod.snd).toOption.getD graph
  | takeEdge key => ((graph.takeEdge? key).map Prod.snd).getD graph
  | takeNumbered number => ((graph.takeNumbered? number).map Prod.snd).getD graph
  | relabelEdge key relation =>
    match graph.relabelEdge key relation with
    | .ok (_, changed) => changed
    | .error _ => ((graph.takeEdge? key).map Prod.snd).getD graph
  | addRoot index => (graph.addRoot index).toOption.getD graph
  | eraseRoot index => graph.eraseRoot index
  | quantity => (Splice.quantity.on graph).2
  | operatorRoot => (Splice.operatorRoot.on graph).2
  | determiner => (Splice.determiner.on graph).2
  | clause => (Splice.clause.on graph).2

theorem steps_takeEdge (graph : Graph) (key : EdgeKey) :
    Steps graph (((graph.takeEdge? key).map Prod.snd).getD graph) := by
  cases htake : graph.takeEdge? key with
  | some taken => exact Steps.takeEdge? htake
  | none => exact .refl

theorem steps_relabelEdge (graph : Graph) (key : EdgeKey) (relation : String) :
    Steps graph ((relabelEdge key relation).on graph) := by
  simp only [on]
  split
  · next outcome changed hok =>
    unfold Graph.relabelEdge at hok
    split at hok
    · cases hok
      exact .refl
    · next edge rest htake =>
      cases hadd : rest.addEdge (edge.relabel relation) with
      | error fault =>
          rw [hadd] at hok
          cases hok
      | ok added =>
          rw [hadd] at hok
          cases hok
          exact (Steps.takeEdge? htake).tail (.addEdge hadd)
  · exact steps_takeEdge graph key

/-- What an operation can do to a graph. -/
theorem steps (op : Operation) (graph : Graph) : Steps graph (op.on graph) := by
  cases op with
  | insertToken token => exact .single (.insertToken graph token)
  | takeToken index =>
      simp only [on]
      cases htake : graph.takeToken? index with
      | some taken => exact Steps.takeToken? htake
      | none => exact .refl
  | addEdge edge =>
      simp only [on]
      cases hadd : graph.addEdge edge with
      | ok added => exact .single (.addEdge hadd)
      | error fault => exact .refl
  | takeEdge key => exact steps_takeEdge graph key
  | takeNumbered number =>
      simp only [on]
      cases htake : graph.takeNumbered? number with
      | some taken => exact Steps.takeNumbered? htake
      | none => exact .refl
  | relabelEdge key relation => exact steps_relabelEdge graph key relation
  | addRoot index =>
      simp only [on]
      cases hadd : graph.addRoot index with
      | ok next => exact Steps.addRoot hadd
      | error fault => exact .refl
  | eraseRoot index => exact .single (.eraseRoot graph index)
  | quantity => exact Splice.within_quantity graph
  | operatorRoot => exact Splice.within_operatorRoot graph
  | determiner => exact Splice.within_determiner graph
  | clause => exact Splice.within_clause graph

end Operation

/-! ### Reachable graphs -/

namespace Graph

/-- The graphs that operations lead to from the empty graph or from one read from a table. -/
inductive Reachable : Graph → Prop
  | empty : Reachable {}
  | read {text : String} {graph : Graph} (h : TokenTable.read text = .ok graph) : Reachable graph
  | operate {graph : Graph} (h : Reachable graph) (op : Operation) : Reachable (op.on graph)

namespace Reachable

variable {graph : Graph}

theorem run (h : graph.Reachable) (ops : List Operation) :
    (ops.foldl (fun graph op => op.on graph) graph).Reachable := by
  induction ops generalizing graph with
  | nil => exact h
  | cons op ops ih => exact ih (h.operate op)

theorem steps (h : graph.Reachable) : Steps {} graph := by
  induction h with
  | empty => exact .refl
  | read hread => exact TokenTable.steps_of_read hread
  | operate _ op ih => exact ih.trans (op.steps _)

theorem wellFormed (h : graph.Reachable) : graph.WellFormed := h.steps.wellFormed wellFormed_empty

/-- In every reachable graph edges and roots rest on tokens, each token is found under its own
index, no key is stored twice, and numbers in use are below the next one. So the check succeeds,
and looking for a key gives the number of the only edge that has it. -/
theorem invariant (h : graph.Reachable) :
    (∀ edge ∈ graph.edges, edge.governor ∈ graph ∧ edge.dependent ∈ graph) ∧
      (∀ root ∈ graph.roots, root ∈ graph) ∧
      (∀ index token,
        graph.token? index = some token ↔ token ∈ graph.tokens ∧ token.index = index) ∧
      graph.edges.Pairwise (·.key ≠ ·.key) ∧
      (∀ arc ∈ graph.arcs, arc.1 < graph.nextEdge) ∧
      graph.check = .ok () ∧
      ∀ key number, graph.find? key = some number ↔
        ∃ edge, graph.edge? number = some edge ∧ edge.key = key ∧
          ∀ arc ∈ graph.arcs, arc.2.key = key → arc = (number, edge) := by
  have hwf := h.wellFormed
  refine ⟨fun edge hedge => ⟨hwf.governor_mem edge hedge, hwf.dependent_mem edge hedge⟩,
    hwf.root_mem, fun index token => hwf.token?_eq_some_iff, hwf.keys_distinct, hwf.number_lt,
    hwf.check_eq_ok, fun key number => ?_⟩
  rw [hwf.find?_eq_some_iff]
  constructor
  · rintro ⟨edge, hmem, rfl⟩
    refine ⟨edge, hwf.edge?_eq_some_iff.mpr hmem, rfl, fun arc harc hkey => ?_⟩
    exact hwf.arc_eq_of_key_eq harc hmem hkey
  · rintro ⟨edge, hedge, hkey, -⟩
    exact ⟨edge, hwf.edge?_eq_some_iff.mp hedge, hkey⟩

/-- In "eats lot cake" the rule for quantities takes out the edge to "lot" and then fails, since
"lot" has no primary edge to "cake". -/
def cutShort : List Operation :=
  [.insertToken { index := 1, word := "eats", baseForm := "eat", tag := "VBZ" },
   .insertToken { index := 2, word := "lot", baseForm := "lot", tag := "NN" },
   .insertToken { index := 3, word := "cake", baseForm := "cake", tag := "NN" },
   .addRoot 1,
   .addEdge { governor := 1, dependent := 2, relation := "dobj" },
   .addEdge { governor := 2, dependent := 3, relation := "nmod:of", extra := true },
   .quantity]

/-- The invariant where a rule has stopped halfway: of two edges the second is left, under its old
number. -/
theorem invariant_cutShort :
    let graph := cutShort.foldl (fun graph op => op.on graph) {}
    graph.Reachable ∧
      graph.arcs =
        [(1, { governor := 2, dependent := 3, relation := "nmod:of", extra := true })] ∧
      (∀ edge ∈ graph.edges, edge.governor ∈ graph ∧ edge.dependent ∈ graph) ∧
      (∀ arc ∈ graph.arcs, arc.1 < graph.nextEdge) ∧ graph.check = .ok () := by
  have hreachable := Reachable.empty.run cutShort
  obtain ⟨hends, -, -, -, hnumbers, hcheck, -⟩ := hreachable.invariant
  exact ⟨hreachable, by decide +kernel, hends, hnumbers, hcheck⟩

end Reachable

end Graph

end DepNorm
