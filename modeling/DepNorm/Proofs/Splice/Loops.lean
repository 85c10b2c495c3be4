import DepNorm.Proofs.Splice.Clause
import DepNorm.Proofs.Splice.Determiner
import DepNorm.Proofs.Splice.OperatorRoot
import DepNorm.Proofs.Splice.Quantity

/-!
Edges from a token to itself. Where the rules put an edge, its ends are two tokens of one match or
the ends of an edge that was there, so most moves make no such edge. The exception is the collapse
of a clause whose verb governs the main verb: the main verb takes over all that the verb governs,
hence comes to govern itself.
-/

namespace DepNorm

/-- No edge leads from a token to itself. -/
def Graph.Loopless (graph : Graph) : Prop := ∀ edge ∈ graph.edges, edge.governor ≠ edge.dependent

instance (graph : Graph) : Decidable graph.Loopless :=
  inferInstanceAs (Decidable (∀ edge ∈ graph.edges, edge.governor ≠ edge.dependent))

namespace Graph

variable {graph : Graph}

theorem loopless_iff_keys :
    graph.Loopless ↔ ∀ key ∈ graph.keys, key.governor ≠ key.dependent := by
  constructor
  · rintro h _ ⟨edge, hedge, rfl⟩
    exact h edge hedge
  · exact fun h edge hedge => h edge.key (key_mem_keys hedge)

theorem loopless_iff_joins :
    graph.Loopless ↔ ∀ index relation, ¬ graph.Joins index relation index := by
  rw [loopless_iff_keys]
  constructor
  · rintro h index relation ⟨extra, hkey⟩
    exact h _ hkey rfl
  · rintro h ⟨governor, dependent, relation, extra⟩ hkey (rfl : governor = dependent)
    exact h governor relation ⟨extra, hkey⟩

end Graph

namespace Splice

open DepNorm.Graph EditM

variable {rule : Rule} {graph next : Graph}

/-! ### Moves -/

theorem Move.loopless (move : Move rule graph next) (hrule : rule ≠ .clause)
    (h : graph.Loopless) : next.Loopless := by
  rw [loopless_iff_keys] at h ⊢
  cases move with
  | lower hdistinct _ _ hnext =>
      obtain ⟨⟨-, hvo⟩, hqo⟩ : (_ ≠ _ ∧ _ ≠ _) ∧ _ ≠ _ := by simpa using hdistinct
      rw [hnext.keys]
      rintro key (rfl | rfl | ⟨⟨hkey, -⟩, -⟩)
      · exact hqo.symm
      · exact hvo
      · exact h key hkey
  | relabel _ htargets hnext =>
      rw [hnext.keys]
      rintro key (⟨hkey, -⟩ | ⟨target, htarget, rfl⟩)
      · exact h key hkey
      · exact h target (htargets htarget)
  | turn _ hturned hnext =>
      rw [hnext.keys]
      rintro key (rfl | ⟨hkey, -⟩)
      · exact (h _ hturned).symm
      · exact h key hkey
  | drop =>
      rw [keys_eraseToken]
      exact fun key hkey => h key hkey.1
  | collapse => exact absurd rfl hrule

theorem Moves.loopless (moves : Moves rule graph next) (hrule : rule ≠ .clause)
    (h : graph.Loopless) : next.Loopless :=
  moves.keep Graph.Loopless (fun move => move.loopless hrule) h

/-- Where a clause has been collapsed, the main verb governs itself by the relations by which the
verb of the clause has governed it, and no other token governs itself. -/
theorem joins_self_of_collapsed {root verb preposition object : Nat} {relation name : String}
    (h : graph.Loopless) (hclause : ClauseAt graph root verb preposition object relation)
    (hnext : Collapsed graph root verb preposition object relation name next) (index : Nat)
    (label : String) :
    next.Joins index label index ↔ index = root ∧ graph.Joins verb label root := by
  rw [loopless_iff_keys] at h
  obtain ⟨⟨hrv, hrp, hro⟩, ⟨hvp, hvo⟩, hpo⟩ := hclause.ne
  unfold Joins
  rw [hnext.keys]
  constructor
  · rintro ⟨extra, ⟨⟨hkey, -⟩, -⟩ | hkey | hkey | ⟨detached, ⟨hdetached, -⟩, hverb, hkey⟩⟩
    · exact absurd rfl (h _ hkey)
    · obtain ⟨hroot, hobject, -⟩ := EdgeKey.mk.inj hkey
      exact absurd (hroot.symm.trans hobject) hro
    · obtain ⟨hobject, hverb, -⟩ := EdgeKey.mk.inj hkey
      exact absurd (hverb.symm.trans hobject) hvo
    · obtain ⟨hroot, hdependent, hlabel, -⟩ := EdgeKey.mk.inj hkey
      refine ⟨hroot, detached.extra, ?_⟩
      rwa [hlabel, ← hroot, hdependent, ← hverb]
  · rintro ⟨rfl, extra, hkey⟩
    refine ⟨false, .inr (.inr (.inr ⟨_, ⟨hkey, hvp, hrp, fun heq => ?_, fun heq => ?_⟩, rfl, rfl⟩))⟩
    · exact hrv (EdgeKey.mk.inj heq).1.symm
    · exact hro (EdgeKey.mk.inj heq).2.1

/-! ### The rules -/

/-- None of the first three rules makes an edge from a token to itself. The rule for clauses does so
only if the verb of the clause that it collapses governs the main verb: then the main verb comes to
govern itself by the same relations, and no other token does. -/
theorem loopless_of_rules (h : graph.Reachable) (hloopless : graph.Loopless) :
    (∀ changes next, quantity.on graph = (.ok changes, next) → next.Loopless) ∧
      (∀ changes next, operatorRoot.on graph = (.ok changes, next) → next.Loopless) ∧
      (∀ changes next, determiner.on graph = (.ok changes, next) → next.Loopless) ∧
      ∀ changes next, clause.on graph = (.ok changes, next) → next.Loopless ∨
        ∃ found root verb, comparativeClause.find? graph.view = some found ∧
          found.node? "root" = some root ∧ found.node? "has" = some verb ∧
          (∃ relation, graph.Joins verb relation root) ∧
          ∀ index relation, next.Joins index relation index ↔
            index = root ∧ graph.Joins verb relation root := by
  have hwf := h.wellFormed
  refine ⟨fun changes next hon => ?_, fun changes next hon => ?_, fun changes next hon => ?_,
    fun changes next hon => ?_⟩
  · exact ((ends_quantity hwf).of_on_eq_ok hon).loopless (by decide) hloopless
  · exact ((ends_operatorRoot hwf).of_on_eq_ok hon).loopless (by decide) hloopless
  · exact ((ends_determiner hwf).of_on_eq_ok hon).loopless (by decide) hloopless
  · cases (ends_collapsesFirst hwf).of_on_eq_ok hon with
    | unchanged => exact .inl hloopless
    | @collapsed found root verb _ _ _ _ _ hfind hbinds hclause _ hnext =>
        have hself := joins_self_of_collapsed hloopless hclause hnext
        by_cases hback : ∃ relation, graph.Joins verb relation root
        · exact .inr ⟨found, root, verb, hfind, hbinds.root, hbinds.verb, hback, hself⟩
        · refine .inl (loopless_iff_joins.mpr fun index relation hloop => hback ⟨relation, ?_⟩)
          exact ((hself index relation).mp hloop).2

/-- "run than he has", where the verb of the clause refers back to the main verb by a secondary
edge. -/
def runThanHeHas : Graph where
  tokens := [
    { index := 1, word := "run", baseForm := "run", tag := "VBP" },
    { index := 2, word := "than", baseForm := "than", tag := "IN" },
    { index := 3, word := "he", baseForm := "he", tag := "PRP" },
    { index := 4, word := "has", baseForm := "have", tag := "VBZ" }]
  arcs := [
    (0, { governor := 4, dependent := 1, relation := "ref", extra := true }),
    (1, { governor := 4, dependent := 2, relation := "mark" }),
    (2, { governor := 4, dependent := 3, relation := "nsubj" }),
    (3, { governor := 1, dependent := 4, relation := "advcl" })]
  roots := [1]
  nextEdge := 4

theorem read_runThanHeHas :
    TokenTable.read
      ("1 run run VBP 0 root _ 4:ref\n2 than than IN 4 mark\n3 he he PRP 4 nsubj\n" ++
        "4 has have VBZ 1 advcl") = .ok runThanHeHas := by decide +kernel

def selfGoverning : Graph where
  tokens := runThanHeHas.tokens.filter (·.index != 2)
  arcs := [(4, .made 1 3 "nmod:than"), (5, .made 3 4 "mark"), (6, .made 1 1 "ref")]
  roots := [1]
  nextEdge := 7

theorem on_runThanHeHas : clause.on runThanHeHas = (.ok 1, selfGoverning) := by
  simp only [clause, view, outgoing, Edge.sort_eq_insertionSort]
  decide +kernel

/-- The main verb of `runThanHeHas` comes to govern itself, by the relation "ref" and no other. -/
theorem loopless_of_rules_runThanHeHas :
    ∃ next, clause.on runThanHeHas = (.ok 1, next) ∧ next.Joins 1 "ref" 1 ∧
      ∀ index relation, next.Joins index relation index → index = 1 ∧ relation = "ref" := by
  have hloopless : runThanHeHas.Loopless := by decide
  obtain ⟨-, -, -, hclause⟩ := loopless_of_rules (.read read_runThanHeHas) hloopless
  have hself : selfGoverning.Joins 1 "ref" 1 := ⟨false, .made 1 1 "ref", by decide, rfl⟩
  refine ⟨selfGoverning, on_runThanHeHas, hself, fun index relation hjoins => ?_⟩
  rcases hclause 1 selfGoverning on_runThanHeHas with hnone | ⟨_, root, verb, -, -, -, -, hiff⟩
  · exact absurd hself (loopless_iff_joins.mp hnone 1 "ref")
  · obtain ⟨rfl, extra, edge, hedge, hkey⟩ := (hiff index relation).mp hjoins
    obtain ⟨rfl, -⟩ := (hiff 1 "ref").mp hself
    simp only [runThanHeHas, edges, List.map_cons, List.map_nil, List.mem_cons, List.not_mem_nil,
      or_false] at hedge
    rcases hedge with rfl | rfl | rfl | rfl <;> cases hkey
    exact ⟨rfl, rfl⟩

/-- A rule may make an edge from a token to itself: the rule for clauses does so in
`runThanHeHas`. -/
theorem exists_self_loop_made :
    ¬ ∀ (graph next : Graph) (changes : Nat), graph.Reachable → graph.Loopless →
      clause.on graph = (.ok changes, next) → next.Loopless := by
  intro hall
  have hloopless : selfGoverning.Loopless :=
    hall runThanHeHas selfGoverning 1 (.read read_runThanHeHas) (by decide) on_runThanHeHas
  exact absurd hloopless (by decide)

end Splice

end DepNorm
