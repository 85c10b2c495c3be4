import DepNorm.Proofs.Graph.Reachable
import DepNorm.Proofs.Splice.Likeness
import DepNorm.Proofs.Splice.OperatorRoot

/-!
What no rule looks at: the weights of edges and which edges are synthetic, the dictionary forms of
tokens and what mark an operator has. An edge is known by its key and its number, so two graphs that
differ only in these go through the same rules in the same way, and their results differ only in
these again.
-/

namespace DepNorm

open Splice (notAllDogs reachable_notAllDogs)

/-- The graphs are the same to the rules: same names, words and tags, the same tokens being
operators, the same keys under the same numbers, and the same roots. -/
structure Graph.Like (graph other : Graph) : Prop where
  tokens : List.Forall₂ (fun token token' => token'.index = token.index ∧ token.Like token')
    graph.tokens other.tokens
  arcs : List.Forall₂ (fun arc arc' => arc'.1 = arc.1 ∧ arc'.2.key = arc.2.key)
    graph.arcs other.arcs
  roots : other.roots = graph.roots
  nextEdge : other.nextEdge = graph.nextEdge

namespace Likeness

/-- Tokens that are the same to the rules, and edges with the same key. The weight that a turned
edge has from the one before is not part of its key. -/
def unseen : Likeness where
  index := id
  token token other := other.index = token.index ∧ token.Like other
  edge edge other := other.key = edge.key
  strictMono := strictMono_id
  index_eq h := h.1
  like h := h.2
  key_eq h := h
  made _ _ _ := rfl
  relabel h relation := by rw [Edge.key_relabel, Edge.key_relabel, h]
  turned h root := congrArg (fun key => EdgeKey.mk key.dependent root "op" false) h

theorem alike_unseen_iff {graph other : Graph} (h : graph.WellFormed) (h' : other.WellFormed) :
    unseen.Alike graph other ↔ graph.Like other := by
  constructor
  · rintro ⟨-, -, htokens, harcs, hroots, hnext⟩
    exact ⟨htokens, harcs, hroots.trans (List.map_id _), hnext⟩
  · rintro ⟨htokens, harcs, hroots, hnext⟩
    exact ⟨h, h', htokens, harcs, hroots.trans (List.map_id _).symm, hnext⟩

end Likeness

namespace Filters

/-- Normalization takes graphs that are the same to the rules through the same passes to graphs that
are the same to the rules again, or it fails for both with the same fault. -/
theorem normalizeGraph_like {graph other : Graph} (h : graph.Reachable) (h' : other.Reachable)
    (hlike : graph.Like other) (filters : Filters) :
    (∃ fault, filters.normalizeGraph graph = .error fault ∧
      filters.normalizeGraph other = .error fault) ∨
    ∃ result result' passes, filters.normalizeGraph graph = .ok (result, passes) ∧
      filters.normalizeGraph other = .ok (result', passes) ∧ result.Like result' := by
  have halike := (Likeness.alike_unseen_iff h.wellFormed h'.wellFormed).mpr hlike
  rcases Likeness.unseen.simulation.normalizeGraph halike filters with
    ⟨fault, hrun, hrun'⟩ | ⟨result, result', passes, hrun, hrun', halike⟩
  · exact .inl ⟨fault, hrun, hrun'.trans (congrArg Except.error (Fault.rename_id fault))⟩
  · refine .inr ⟨result, result', passes, hrun, hrun', ?_⟩
    exact (Likeness.alike_unseen_iff halike.wellFormed halike.wellFormed').mp halike

/-- "not all dogs" as another annotator might put it together. -/
def notAllDogsToo : List Operation :=
  [.insertToken { index := 1, word := "not", baseForm := "", tag := "RB", operator := some "none" },
   .insertToken { index := 2, word := "all", baseForm := "ALL", tag := "DT", operator := some "" },
   .insertToken { index := 3, word := "dogs", baseForm := "dogs", tag := "NNS" },
   .addRoot 1,
   .addEdge { governor := 1, dependent := 2, relation := "dep", weight := .zero },
   .addEdge { governor := 2, dependent := 3, relation := "dep", synthetic := true }]

/-- Of the two graphs of "not all dogs", which differ in all that no rule looks at, the first has
its operator at the root replaced, and so has the second. -/
theorem normalizeGraph_like_notAllDogs :
    let other := notAllDogsToo.foldl (fun graph op => op.on graph) {}
    other.edges ≠ notAllDogs.edges ∧ other.tokens ≠ notAllDogs.tokens ∧
      ∃ result result' passes,
        ({.operatorRoot} : Filters).normalizeGraph notAllDogs = .ok (result, passes) ∧
        ({.operatorRoot} : Filters).normalizeGraph other = .ok (result', passes) ∧
        Pass.fired passes = [.operatorRoot] ∧ result.Like result' := by
  intro other
  have hother : other = {
      tokens := [
        { index := 1, word := "not", baseForm := "", tag := "RB", operator := some "none" },
        { index := 2, word := "all", baseForm := "ALL", tag := "DT", operator := some "" },
        { index := 3, word := "dogs", baseForm := "dogs", tag := "NNS" }]
      arcs := [
        (0, { governor := 1, dependent := 2, relation := "dep", weight := .zero }),
        (1, { governor := 2, dependent := 3, relation := "dep", synthetic := true })]
      roots := [1]
      nextEdge := 2 } := by decide +kernel
  have hlike : notAllDogs.Like other := by
    rw [hother]
    exact ⟨
      .cons ⟨rfl, rfl, rfl, rfl⟩ (.cons ⟨rfl, rfl, rfl, rfl⟩ (.cons ⟨rfl, rfl, rfl, rfl⟩ .nil)),
      .cons ⟨rfl, rfl⟩ (.cons ⟨rfl, rfl⟩ .nil), rfl, rfl⟩
  have hfired : (({.operatorRoot} : Filters).normalizeGraph notAllDogs).map
      (fun outcome => Pass.fired outcome.2) = .ok [.operatorRoot] := by decide +kernel
  refine ⟨by rw [hother]; decide, by rw [hother]; decide, ?_⟩
  rcases normalizeGraph_like reachable_notAllDogs (.run .empty notAllDogsToo) hlike
      {.operatorRoot} with
    ⟨fault, hrun, -⟩ | ⟨result, result', passes, hrun, hrun', hresult⟩
  · rw [hrun] at hfired
    cases hfired
  · rw [hrun] at hfired
    exact ⟨result, result', passes, hrun, hrun', Except.ok.inj hfired, hresult⟩

end Filters

end DepNorm
