import DepNorm.Normalize
import DepNorm.Proofs.Graph.Reachable
import DepNorm.Proofs.Splice.Clause
import DepNorm.Proofs.Splice.Determiner
import DepNorm.Proofs.Splice.Forest
import DepNorm.Proofs.Splice.OperatorRoot
import DepNorm.Proofs.Splice.Quantity

/-!
Normalization of a graph as a whole. Each rule that is switched on makes moves or fails; the rules
run one after the other on what the moves so far have left, until one of them fails. What can be a
failure is listed in `Fails`. With it a forest is seen to come out as a forest if the clause rule is
switched off.
-/

namespace DepNorm.Filters

open DepNorm.Graph EditM Splice

variable {filters : Filters} {rule : Rule} {graph next : Graph}

/-! ### One rule -/

/-- The ways in which a rule can fail: it has stopped, or it has taken the last root of a graph
that still has tokens. -/
inductive Fails (rule : Rule) (graph : Graph) : Fault → Graph → Prop
  | stopped {fault : Fault} {failed : Graph} (hrule : rule = .quantity ∨ rule = .clause)
      (h : Stopped rule graph fault failed) : Fails rule graph fault failed
  | rootless {failed : Graph} (hrule : rule = .determiner ∨ rule = .clause)
      (hmoves : Moves rule graph failed) (hroots : failed.roots = [])
      (htokens : failed.tokens ≠ []) : Fails rule graph (.rootless rule) failed

theorem ends_of_mem_graphRules (h : graph.WellFormed) {splice : EditM Nat}
    (hmem : (rule, splice) ∈ graphRules) :
    Ends splice graph (fun _ next => Moves rule graph next) fun fault failed =>
      (rule = .quantity ∨ rule = .clause) ∧ Stopped rule graph fault failed := by
  simp only [graphRules, List.mem_cons, Prod.mk.injEq, List.not_mem_nil, or_false] at hmem
  rcases hmem with ⟨rfl, rfl⟩ | ⟨rfl, rfl⟩ | ⟨rfl, rfl⟩ | ⟨rfl, rfl⟩
  · exact (ends_quantity h).imp (fun _ _ => id) fun _ _ hstopped => ⟨.inl rfl, hstopped⟩
  · exact (ends_operatorRoot h).imp (fun _ _ => id) fun _ _ => False.elim
  · exact (ends_determiner h).imp (fun _ _ => id) fun _ _ => False.elim
  · exact (ends_clause h).imp (fun _ _ hmove => hmove.to_reflTransGen)
      fun _ _ hstopped => ⟨.inr rfl, hstopped⟩

theorem ends_passGraph (h : graph.WellFormed) {splice : EditM Nat}
    (hmem : (rule, splice) ∈ graphRules) (hrule : rule ∈ filters) :
    Ends (filters.passGraph rule splice) graph (fun _ next => Moves rule graph next)
      (Fails rule graph) := by
  unfold passGraph
  rw [if_pos hrule]
  refine .get_bind (.bind ((ends_of_mem_graphRules h hmem).imp (fun changes next hmoves => ?_)
    fun _ _ hstopped => .stopped hstopped.1 hstopped.2))
  refine .get_bind (.lift_bind (hmoves.wellFormed h).check_eq_ok ?_)
  dsimp only
  split
  · next hrootless =>
    simp only [Bool.and_eq_true, Bool.not_eq_true', List.isEmpty_eq_false_iff,
      List.isEmpty_iff] at hrootless
    obtain ⟨⟨hbefore, hafter⟩, htokens⟩ := hrootless
    refine .bind (.throw (.rootless ?_ hmoves hafter htokens))
    have hkept := fun hrule => hmoves.rooted hrule hbefore hafter
    simp only [graphRules, List.mem_cons, Prod.mk.injEq, List.not_mem_nil, or_false] at hmem
    rcases hmem with ⟨rfl, -⟩ | ⟨rfl, -⟩ | ⟨rfl, -⟩ | ⟨rfl, -⟩
    · exact (hkept (.inl rfl)).elim
    · exact (hkept (.inr rfl)).elim
    · exact .inl rfl
    · exact .inr rfl
  · exact .pure hmoves

/-! ### All rules -/

abbrev Run (filters : Filters) : Graph → Graph → Prop :=
  Relation.ReflTransGen fun before after => ∃ rule ∈ filters, Move rule before after

theorem Run.append (run : Run filters graph next) {last : Graph} (hrule : rule ∈ filters)
    (moves : Moves rule next last) : Run filters graph last :=
  run.trans (moves.lift id fun _ _ move => ⟨rule, hrule, move⟩)

theorem Run.keep (run : Run filters graph next) (holds : Graph → Prop)
    (hmove : ∀ {rule : Rule} {before after : Graph}, rule ∈ filters → Move rule before after →
      holds before → holds after) (h : holds graph) : holds next := by
  induction run with
  | refl => exact h
  | tail _ hlast ih =>
      obtain ⟨rule, hrule, move⟩ := hlast
      exact hmove hrule move ih

theorem Run.wellFormed (run : Run filters graph next) (h : graph.WellFormed) : next.WellFormed :=
  run.keep Graph.WellFormed (fun _ => Move.wellFormed) h

theorem Run.primary (run : Run filters graph next) (h : ∀ key ∈ graph.keys, key.extra = false) :
    ∀ key ∈ next.keys, key.extra = false :=
  run.keep (fun graph => ∀ key ∈ graph.keys, key.extra = false) (fun _ => Move.primary) h

theorem Run.forest (run : Run filters graph next) (hfilters : .clause ∉ filters)
    (h : graph.Forest) : next.Forest :=
  run.keep Graph.Forest
    (fun hrule move => move.forest fun heq => hfilters (heq ▸ hrule)) h

/-- The rules make a run, and if one fails it does so after a run. -/
theorem ends_passesGraph (filters : Filters) (h : graph.WellFormed) :
    Ends filters.passesGraph graph (fun _ next => Run filters graph next)
      fun fault failed => ∃ rule ∈ filters, ∃ last, Run filters graph last ∧
        Fails rule last fault failed := by
  refine Ends.mapM (fun rest _ changed => (∀ entry ∈ rest, entry ∈ graphRules) ∧
    Run filters graph changed) ?_ ⟨fun _ hentry => hentry, .refl⟩ |>.imp (fun _ _ hnext => hnext.2)
      fun _ _ => id
  rintro ⟨rule, splice⟩ rest values changed ⟨hrules, hrun⟩
  obtain ⟨hmem, hrules⟩ := List.forall_mem_cons.mp hrules
  by_cases hrule : rule ∈ filters
  · refine (ends_passGraph (hrun.wellFormed h) hmem hrule).imp (fun _ next hmoves => ?_)
      fun fault failed hfails => ⟨rule, hrule, changed, hrun, hfails⟩
    exact ⟨hrules, hrun.append hrule hmoves⟩
  · simp only [passGraph, if_neg hrule]
    exact .pure ⟨hrules, hrun⟩

theorem on_of_normalizeGraph_eq_error {fault : Fault}
    (h : filters.normalizeGraph graph = .error fault) :
    ∃ failed, filters.passesGraph.on graph = (.error fault, failed) := by
  unfold normalizeGraph at h
  split at h
  · cases h
  · next hon =>
    cases h
    exact ⟨_, hon⟩

/-! ### Forests -/

/-- On a forest only the clause rule can fail: all edges are primary, and where there is a token
there is a root from which it can be reached. -/
theorem not_fails_of_forest (h : graph.Forest) (hrule : rule ≠ .clause) {fault : Fault}
    {failed : Graph} : ¬ Fails rule graph fault failed := by
  rintro (⟨-, hstopped⟩ | ⟨-, hmoves, hroots, htokens⟩)
  · exact not_stopped_of_primary h.key_primary hstopped
  · obtain ⟨token, htoken⟩ := List.exists_mem_of_ne_nil _ htokens
    obtain ⟨root, hroot, -⟩ :=
      (hmoves.forest hrule h).attached token.index ⟨token, htoken, rfl⟩
    rw [hroots] at hroot
    cases hroot

/-- Without the clause rule, the normalization of a forest succeeds and gives a forest. -/
theorem forest_of_normalizeGraph (h : graph.Forest) (filters : Filters)
    (hfilters : .clause ∉ filters) :
    ∃ result passes, filters.normalizeGraph graph = .ok (result, passes) ∧ result.Forest := by
  have hends : Ends filters.passesGraph graph (fun _ next => next.Forest) fun _ _ => False := by
    refine (ends_passesGraph filters h.toWellFormed).imp
      (fun _ next hrun => hrun.forest hfilters h) ?_
    rintro fault failed ⟨rule, hrule, last, hrun, hfails⟩
    exact not_fails_of_forest (hrun.forest hfilters h) (fun heq => hfilters (heq ▸ hrule)) hfails
  obtain ⟨passes, result, hon, hforest⟩ := hends.exists_ok
  exact ⟨result, passes, by simp only [normalizeGraph, hon], hforest⟩

/-- "all the cats", with an operator at the root and an article. -/
def allTheCats : Graph where
  tokens := [
    { index := 1, word := "all", baseForm := "all", tag := "DT", operator := some "all" },
    { index := 2, word := "the", baseForm := "the", tag := "DT" },
    { index := 3, word := "cats", baseForm := "cat", tag := "NNS" }]
  arcs := [
    (0, { governor := 3, dependent := 2, relation := "det" }),
    (1, { governor := 1, dependent := 3, relation := "dep" })]
  roots := [1]
  nextEdge := 2

theorem forest_allTheCats : allTheCats.Forest where
  tokens_ascending := by decide
  numbers_ascending := by decide
  roots_ascending := by decide
  number_lt := by decide
  keys_distinct := by decide
  governor_mem := by decide
  dependent_mem := by decide
  root_mem := by decide
  primary := by decide
  root_free := by decide
  single_head := by decide
  attached := by
    have hall : allTheCats.Attached 1 := attached_of_root (by decide)
    have hcats : allTheCats.Attached 3 := attached_of_governs (by decide) hall
    have hthe : allTheCats.Attached 2 := attached_of_governs (by decide) hcats
    rintro _ ⟨token, htoken, rfl⟩
    simp only [allTheCats, List.mem_cons, List.not_mem_nil, or_false] at htoken
    rcases htoken with rfl | rfl | rfl
    exacts [hall, hthe, hcats]

/-- In `allTheCats` the noun becomes the root and the article is dropped. -/
theorem forest_of_normalizeGraph_allTheCats :
    ∃ result passes,
      ({.quantity, .operatorRoot, .determiner} : Filters).normalizeGraph allTheCats =
        .ok (result, passes) ∧
      result.Forest ∧ result.roots = [3] ∧
      Pass.fired passes = [.operatorRoot, .determiner] := by
  obtain ⟨result, passes, hok, hforest⟩ :=
    forest_of_normalizeGraph forest_allTheCats {.quantity, .operatorRoot, .determiner} (by decide)
  have hresult :
      (({.quantity, .operatorRoot, .determiner} : Filters).normalizeGraph allTheCats).map
        (fun outcome => (outcome.1.roots, Pass.fired outcome.2)) =
      .ok ([3], [.operatorRoot, .determiner]) := by
    unfold normalizeGraph passesGraph graphRules operatorRoot replaceRoot heirEdge?
    simp only [quantity, lowerFirst, onesToDeterminers, numeralsOne, view, outgoing, sortedEdges,
      Edge.sort_eq_insertionSort]
    decide +kernel
  rw [hok] at hresult
  obtain ⟨hroots, hfired⟩ := Prod.mk.inj (Except.ok.inj hresult)
  exact ⟨result, passes, hok, hforest, hroots, hfired⟩

/-! ### Failures -/

theorem rooted_of_ends {splice : EditM Nat}
    (hends : Ends splice graph (fun _ next => Moves rule graph next) (Stopped rule graph))
    (hrule : rule = .quantity ∨ rule = .operatorRoot) (hroots : graph.roots ≠ []) :
    (splice.on graph).2.roots ≠ [] := by
  rcases hon : splice.on graph with ⟨fault | changes, next⟩
  · exact (hends.of_on_eq_error hon).rooted hrule hroots
  · exact (hends.of_on_eq_ok hon).rooted hrule hroots

/-- The normalization of a graph succeeds, or it fails in one of two ways. A rule for quantities or
clauses has needed a primary edge where there is only the secondary one, which does not happen where
all edges are primary. Or a rule for determiners or clauses has taken the last root, which the other
two rules never do. -/
theorem fails_of_normalizeGraph (h : graph.Reachable) (filters : Filters) :
    (∀ fault, filters.normalizeGraph graph = .error fault →
      ∃ failed, filters.passesGraph.on graph = (.error fault, failed) ∧
        ((∃ rule ∈ filters, (rule = .quantity ∨ rule = .clause) ∧ Missed rule fault failed) ∨
          ∃ rule ∈ filters, (rule = .determiner ∨ rule = .clause) ∧ fault = .rootless rule)) ∧
      (graph.roots ≠ [] →
        (quantity.on graph).2.roots ≠ [] ∧ (operatorRoot.on graph).2.roots ≠ []) ∧
      ((∀ edge ∈ graph.edges, edge.extra = false) →
        ∀ rule key, filters.normalizeGraph graph ≠ .error (.missingEdge rule key)) := by
  have hwf := h.wellFormed
  have hends := ends_passesGraph filters hwf
  refine ⟨fun fault herror => ?_, fun hroots => ⟨?_, ?_⟩, fun hprimary rule key herror => ?_⟩
  · obtain ⟨failed, hon⟩ := on_of_normalizeGraph_eq_error herror
    refine ⟨failed, hon, ?_⟩
    obtain ⟨rule, hrule, last, -, hfails⟩ := hends.of_on_eq_error hon
    cases hfails with
    | stopped hwhich hstopped => exact .inl ⟨rule, hrule, hwhich, hstopped.1⟩
    | rootless hwhich => exact .inr ⟨rule, hrule, hwhich, rfl⟩
  · exact rooted_of_ends (ends_quantity hwf) (.inl rfl) hroots
  · exact rooted_of_ends ((ends_operatorRoot hwf).imp (fun _ _ => id) fun _ _ => False.elim)
      (.inr rfl) hroots
  · obtain ⟨failed, hon⟩ := on_of_normalizeGraph_eq_error herror
    obtain ⟨rule', -, last, hrun, hfails⟩ := hends.of_on_eq_error hon
    cases hfails with
    | stopped _ hstopped =>
        refine not_stopped_of_primary (hrun.primary ?_) hstopped
        rintro _ ⟨edge, hedge, rfl⟩
        exact hprimary edge hedge

/-- Before the rule for quantities has run on it, the graph of `Reachable.cutShort` makes that rule
fail. A secondary edge is there in place of the primary one that it needs, and the root is kept. -/
theorem fails_of_normalizeGraph_cutShort :
    let graph := Reachable.cutShort.dropLast.foldl (fun graph op => op.on graph) {}
    let key : EdgeKey := { governor := 2, dependent := 3, relation := "nmod:of" }
    graph.Reachable ∧ ∃ failed,
      ({.quantity} : Filters).passesGraph.on graph = (.error (.missingEdge .quantity key), failed) ∧
      key ∉ failed.keys ∧ { key with extra := true } ∈ failed.keys ∧
      (quantity.on graph).2.roots ≠ [] := by
  intro graph key
  have hreachable : graph.Reachable := Reachable.empty.run _
  obtain ⟨hfails, hrooted, -⟩ := fails_of_normalizeGraph hreachable {.quantity}
  have herror : ({.quantity} : Filters).normalizeGraph graph =
      .error (.missingEdge .quantity key) := by decide +kernel
  obtain ⟨failed, hon, hcases⟩ := hfails _ herror
  refine ⟨hreachable, failed, hon, ?_⟩
  rcases hcases with ⟨rule, -, -, key', hfault, -, hmissing, hextra⟩ | ⟨rule, -, -, hfault⟩
  · cases hfault
    exact ⟨hmissing, hextra, (hrooted (by decide)).1⟩
  · cases hfault

end DepNorm.Filters
