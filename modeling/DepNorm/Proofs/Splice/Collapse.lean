import DepNorm.Proofs.Graph.Forest
import DepNorm.Proofs.Graph.Reachable
import DepNorm.Proofs.Graph.Sort
import DepNorm.Proofs.Splice.Clause

/-!
Forests under the clause rule. A forest need not stay one: the rule removes the preposition but does
not look at what the preposition governs. Those tokens lose their edge, and they and all below them
can no longer be reached from a root. All other tokens stay attached.
-/

namespace DepNorm.Splice

open DepNorm.Graph EditM

variable {graph next : Graph} {root verb preposition object : Nat} {relation name : String}
  {key : EdgeKey} {index : Nat}

/-! ### The edges of a collapsed clause -/

/-- In a forest, what is cut from a clause are the edges from the preposition and those into the
preposition, the verb and the object. -/
theorem mem_cutKeys (h : graph.Forest)
    (hclause : ClauseAt graph root verb preposition object relation) :
    key ∈ cutKeys graph.keys root verb preposition object relation ↔
      key ∈ graph.keys ∧ key.governor ≠ preposition ∧ key.dependent ≠ preposition ∧
        key.dependent ≠ verb ∧ key.dependent ≠ object := by
  refine and_congr_right fun hkey => and_congr_right fun _ => and_congr_right fun _ => ?_
  exact and_congr (not_congr (h.key_eq_iff hkey hclause.verb_mem))
    (not_congr (h.key_eq_iff hkey hclause.object_mem))

section Collapsed

variable (h : graph.Forest) (hclause : ClauseAt graph root verb preposition object relation)
  (hnext : Collapsed graph root verb preposition object relation name next)

include h hclause hnext

/-- A collapsed clause has two new edges. The verb's other dependents now hang below the main verb,
and all that has nothing to do with the clause is as it was. -/
theorem mem_keys_of_collapsed : key ∈ next.keys ↔
      (key ∈ graph.keys ∧ key.governor ≠ preposition ∧ key.governor ≠ verb ∧
        key.dependent ≠ verb) ∨
      key = { governor := root, dependent := object, relation := name } ∨
      key = { governor := object, dependent := verb, relation := "mark" } ∨
      ∃ old ∈ graph.keys, old.governor = verb ∧ old.dependent ≠ preposition ∧
        old.dependent ≠ object ∧
        key = { governor := root, dependent := old.dependent, relation := old.relation } := by
  obtain ⟨⟨hrv, hrp, hro⟩, ⟨hvp, hvo⟩, hpo⟩ := hclause.ne
  rw [hnext.keys, collapsedKeys, Set.mem_ofPred_eq]
  refine or_congr ?_ (or_congr_right (or_congr_right (exists_congr fun old => ?_)))
  · rw [mem_cutKeys h hclause]
    constructor
    · rintro ⟨⟨hkey, hgovernor, -, hverb, -⟩, hne⟩
      exact ⟨hkey, hgovernor, hne, hverb⟩
    · rintro ⟨hkey, hgovernor, hne, hverb⟩
      refine ⟨⟨hkey, hgovernor, fun heq => hne ?_, hverb, fun heq => hne ?_⟩, hne⟩
      · rw [h.key_eq hkey hclause.mark_mem heq]
      · rw [h.key_eq hkey hclause.object_mem heq]
  · rw [mem_cutKeys h hclause]
    constructor
    · rintro ⟨⟨hold, -, hpreposition, -, hobject⟩, hgovernor, hkey⟩
      exact ⟨hold, hgovernor, hpreposition, hobject, hkey⟩
    · rintro ⟨hold, hgovernor, hpreposition, hobject, hkey⟩
      refine ⟨⟨hold, hgovernor ▸ hvp, hpreposition, fun heq => hrv ?_, hobject⟩, hgovernor, hkey⟩
      rw [h.key_eq hold hclause.verb_mem heq] at hgovernor
      exact hgovernor

/-! ### What stays attached -/

theorem mem_roots_of_collapsed : index ∈ next.roots ↔ index ∈ graph.roots := by
  rw [hnext.roots, eraseToken, List.mem_filter, bne_iff_ne, and_iff_left_iff_imp]
  rintro hroot rfl
  exact h.dependent_not_root hclause.mark_mem hroot

theorem attached_root_of_attached_verb (hattached : next.Attached verb) : next.Attached root := by
  obtain ⟨⟨hrv, hrp, hro⟩, ⟨hvp, hvo⟩, hpo⟩ := hclause.ne
  have hroots {index : Nat} : index ∈ next.roots ↔ index ∈ graph.roots :=
    mem_roots_of_collapsed h hclause hnext
  have hobject : next.Attached object := by
    obtain hroot | ⟨key, hkey, hdependent, hgovernor⟩ := hattached.root_or_key
    · exact absurd (hroots.mp hroot) (h.dependent_not_root hclause.verb_mem)
    · rw [mem_keys_of_collapsed h hclause hnext] at hkey
      rcases hkey with ⟨-, -, -, hverb⟩ | rfl | rfl | ⟨old, hold, hverb, -, -, rfl⟩
      · exact absurd hdependent hverb
      · exact absurd hdependent.symm hvo
      · exact hgovernor
      · cases h.key_eq hold hclause.verb_mem hdependent
        exact absurd hverb hrv
  obtain hroot | ⟨key, hkey, hdependent, hgovernor⟩ := hobject.root_or_key
  · exact absurd (hroots.mp hroot) (h.dependent_not_root hclause.object_mem)
  · rw [mem_keys_of_collapsed h hclause hnext] at hkey
    rcases hkey with ⟨hkey, -, hverb, -⟩ | rfl | rfl | ⟨old, hold, -, -, hobject, rfl⟩
    · cases h.key_eq hkey hclause.object_mem hdependent
      exact absurd rfl hverb
    · exact hgovernor
    · exact absurd hdependent hvo
    · exact absurd hdependent hobject

/-- For each edge that is not about the preposition there is one into the same dependent, from a
token that is attached if the governor of the old one is. -/
theorem exists_key_of_kept (hkey : key ∈ graph.keys) (hgovernor : key.governor ≠ preposition)
    (hdependent : key.dependent ≠ preposition) :
    ∃ new ∈ next.keys, new.dependent = key.dependent ∧
      (next.Attached key.governor → next.Attached new.governor) := by
  have hmem (key : EdgeKey) : key ∈ next.keys ↔ _ := mem_keys_of_collapsed h hclause hnext
  by_cases hverb : key.dependent = verb
  · refine ⟨_, (hmem _).mpr (.inr (.inr (.inl rfl))), hverb.symm, fun hattached => ?_⟩
    cases h.key_eq hkey hclause.verb_mem hverb
    have hroot := (hmem _).mpr (.inr (.inl rfl))
    exact (attached_of_key hroot hattached :)
  · by_cases hgoverned : key.governor = verb
    · have hroot (hattached : next.Attached key.governor) : next.Attached root :=
        attached_root_of_attached_verb h hclause hnext (hgoverned ▸ hattached)
      by_cases hobject : key.dependent = object
      · exact ⟨_, (hmem _).mpr (.inr (.inl rfl)), hobject.symm, hroot⟩
      · exact ⟨_, (hmem _).mpr
          (.inr (.inr (.inr ⟨key, hkey, hgoverned, hdependent, hobject, rfl⟩))), rfl, hroot⟩
    · exact ⟨key, (hmem key).mpr (.inl ⟨hkey, hgovernor, hgoverned, hverb⟩), rfl, id⟩

theorem attached_of_not_below (hindex : index ∈ graph) (hne : index ≠ preposition)
    (hbelow : ¬ graph.Below preposition index) : next.Attached index := by
  refine (h.attached index hindex).closed
    (fun index => index ≠ preposition → ¬ graph.Below preposition index → next.Attached index)
      (fun root hroot _ _ => ?_) (fun key hkey hattached hne hbelow => ?_) hne hbelow
  · exact attached_of_root ((mem_roots_of_collapsed h hclause hnext).mpr hroot)
  · rw [h.below_iff hkey, not_or] at hbelow
    have hgovernor : key.governor ≠ preposition := Ne.symm hbelow.1
    obtain ⟨new, hnew, hdependent, hto⟩ :=
      exists_key_of_kept h hclause hnext hkey hgovernor hne
    rw [← hdependent]
    exact attached_of_key hnew (hto (hattached hgovernor hbelow.2))

theorem not_below_of_attached (hattached : next.Attached index) :
    ¬ graph.Below preposition index := by
  obtain ⟨⟨-, hrp, -⟩, ⟨hvp, -⟩, -⟩ := hclause.ne
  have hverb : graph.Below preposition verb ↔ graph.Below preposition root := by
    rw [h.below_iff hclause.verb_mem, or_iff_right hrp.symm]
  have hobject : graph.Below preposition object ↔ graph.Below preposition verb := by
    rw [h.below_iff hclause.object_mem, or_iff_right hvp.symm]
  refine hattached.closed (fun index => ¬ graph.Below preposition index) (fun root hroot => ?_)
    fun key hkey hgovernor => ?_
  · exact h.not_below_root ((mem_roots_of_collapsed h hclause hnext).mp hroot)
  · rw [mem_keys_of_collapsed h hclause hnext] at hkey
    rcases hkey with ⟨hkey, hne, -, -⟩ | rfl | rfl | ⟨old, hold, hold', -, -, rfl⟩
    · rw [h.below_iff hkey, not_or]
      exact ⟨hne.symm, hgovernor⟩
    · rw [hobject, hverb]
      exact hgovernor
    · rw [← hobject]
      exact hgovernor
    · rw [h.below_iff hold, hold', not_or, hverb]
      exact ⟨hvp.symm, hgovernor⟩

/-- Of the tokens that are no roots, those that the preposition governed have no edge left. -/
theorem exists_key_of_collapsed_iff (hindex : index ∈ graph) (hroot : index ∉ graph.roots)
    (hne : index ≠ preposition) :
    (∃ key ∈ next.keys, key.dependent = index) ↔ ¬ graph.Governs preposition index := by
  obtain ⟨⟨-, hrp, -⟩, ⟨hvp, -⟩, -⟩ := hclause.ne
  obtain ⟨key, hkey, rfl⟩ := h.exists_key hindex hroot
  rw [h.governs_iff hkey]
  constructor
  · rintro ⟨other, hother, heq⟩ rfl
    rw [mem_keys_of_collapsed h hclause hnext] at hother
    rcases hother with ⟨hother, hgovernor, -, -⟩ | rfl | rfl | ⟨old, hold, hold', -, -, rfl⟩
    · rw [h.key_eq hother hkey heq] at hgovernor
      exact hgovernor rfl
    · cases h.key_eq hclause.object_mem hkey heq
      exact hvp rfl
    · cases h.key_eq hclause.verb_mem hkey heq
      exact hrp rfl
    · cases h.key_eq hold hkey heq
      exact hvp hold'.symm
  · intro hgovernor
    obtain ⟨new, hnew, hdependent, -⟩ :=
      exists_key_of_kept h hclause hnext hkey (Ne.symm hgovernor) hne
    exact ⟨new, hnew, hdependent⟩

end Collapsed

/-! ### The rule on forests -/

/-- On a forest the rule succeeds. It leaves the forest alone, or it collapses a clause and removes
its preposition: then what is no longer attached are the tokens that were below the preposition, and
what has neither a root mark nor an edge are those that it governed. -/
theorem attached_iff_of_clause (h : graph.Forest) :
    ∃ changes result, clause.on graph = (.ok changes, result) ∧
      (result = graph ∨ ∃ root verb preposition object relation,
        ClauseAt graph root verb preposition object relation ∧
        (∀ index, index ∈ result ↔ index ∈ graph ∧ index ≠ preposition) ∧
        (∀ index ∈ result, result.Attached index ↔ ¬ graph.Below preposition index) ∧
        ∀ index ∈ result, index ∉ result.roots →
          (result.incoming index ≠ [] ↔ ¬ graph.Governs preposition index)) := by
  have hends := (ends_clause h.toWellFormed).imp (fun _ _ => id)
    fun _ _ => not_stopped_of_primary h.key_primary
  obtain ⟨changes, result, hon, hmove⟩ := hends.exists_ok
  refine ⟨changes, result, hon, ?_⟩
  cases hmove with
  | refl => exact .inl rfl
  | single move =>
      cases move with
      | relabel hrule => simp at hrule
      | @collapse _ _ root verb preposition object relation _ hclause hnext =>
          have hmem (index : Nat) : index ∈ result ↔ index ∈ graph ∧ index ≠ preposition := by
            rw [hnext.mem_iff, mem_eraseToken]
          refine .inr ⟨root, verb, preposition, object, relation, hclause, hmem,
            fun index hindex => ⟨not_below_of_attached h hclause hnext, ?_⟩,
            fun index hindex hroot => ?_⟩
          · obtain ⟨hindex, hne⟩ := (hmem index).mp hindex
            exact attached_of_not_below h hclause hnext hindex hne
          · obtain ⟨hindex, hne⟩ := (hmem index).mp hindex
            rw [mem_roots_of_collapsed h hclause hnext] at hroot
            rw [incoming_ne_nil_iff, exists_key_of_collapsed_iff h hclause hnext hindex hroot hne]

/-- "run just than he has": the preposition governs an adverb. -/
def justThan : Graph where
  tokens := [
    { index := 1, word := "run", baseForm := "run", tag := "VBP" },
    { index := 2, word := "just", baseForm := "just", tag := "RB" },
    { index := 3, word := "than", baseForm := "than", tag := "IN" },
    { index := 4, word := "he", baseForm := "he", tag := "PRP" },
    { index := 5, word := "has", baseForm := "have", tag := "VBZ" }]
  arcs := [
    (0, { governor := 3, dependent := 2, relation := "advmod" }),
    (1, { governor := 5, dependent := 3, relation := "mark" }),
    (2, { governor := 5, dependent := 4, relation := "nsubj" }),
    (3, { governor := 1, dependent := 5, relation := "advcl" })]
  roots := [1]
  nextEdge := 4

theorem read_justThan :
    TokenTable.read
      ("1 run run VBP 0 root\n2 just just RB 3 advmod\n3 than than IN 5 mark\n" ++
        "4 he he PRP 5 nsubj\n5 has have VBZ 1 advcl") = .ok justThan := by decide +kernel

theorem forest_justThan : justThan.Forest where
  toWellFormed := (Reachable.read read_justThan).wellFormed
  primary := by decide
  root_free := by decide
  single_head := by decide
  attached := by
    have hrun : justThan.Attached 1 := attached_of_root (by decide)
    have hhas : justThan.Attached 5 := attached_of_governs (by decide) hrun
    have hhe : justThan.Attached 4 := attached_of_governs (by decide) hhas
    have hthan : justThan.Attached 3 := attached_of_governs (by decide) hhas
    have hjust : justThan.Attached 2 := attached_of_governs (by decide) hthan
    rintro _ ⟨token, htoken, rfl⟩
    simp only [justThan, List.mem_cons, List.not_mem_nil, or_false] at htoken
    rcases htoken with rfl | rfl | rfl | rfl | rfl
    exacts [hrun, hjust, hthan, hhe, hhas]

/-- What is left of `justThan`: nothing governs the adverb any more. -/
def hangingJust : Graph where
  tokens := justThan.tokens.filter (·.index != 3)
  arcs := [(4, .made 1 4 "nmod:than"), (5, .made 4 5 "mark")]
  roots := [1]
  nextEdge := 6

theorem on_justThan : clause.on justThan = (.ok 1, hangingJust) := by
  simp only [clause, view, outgoing, Edge.sort_eq_insertionSort]
  decide +kernel

/-- When the clause of `justThan` has been collapsed, its verb is attached and its adverb is not. -/
theorem attached_iff_of_clause_justThan :
    ∃ result, clause.on justThan = (.ok 1, result) ∧ result.Attached 5 ∧ ¬ result.Attached 2 ∧
      result.incoming 2 = [] := by
  obtain ⟨changes, result, hon, hresult⟩ := attached_iff_of_clause forest_justThan
  cases on_justThan.symm.trans hon
  have hjust : justThan.Governs 3 2 := by decide
  rcases hresult with heq | ⟨root, verb, preposition, object, relation, -, hmem, hattached, hhead⟩
  · exact absurd (congrArg Graph.nextEdge heq) (by decide)
  · obtain rfl : preposition = 3 := by
      by_contra hne
      exact (by decide : 3 ∉ hangingJust) ((hmem 3).mpr ⟨by decide, Ne.symm hne⟩)
    have hhas : ¬ justThan.Below 3 5 := by
      have hkey : { governor := 1, dependent := 5, relation := "advcl" } ∈ justThan.keys :=
        ⟨_, List.mem_of_getElem? (rfl : justThan.edges[3]? = some _), rfl⟩
      rw [forest_justThan.below_iff hkey]
      simpa using forest_justThan.not_below_root (by decide)
    refine ⟨hangingJust, hon, (hattached 5 (by decide)).mpr hhas,
      fun hattached' => (hattached 2 (by decide)).mp hattached' (.single hjust), ?_⟩
    by_contra hne
    exact (hhead 2 (by decide) (by decide)).mp hne hjust

/-- A token may be left without an edge: the adverb of `justThan` is. -/
theorem exists_token_left_hanging :
    ¬ ∀ (graph result : Graph) (changes : Nat), graph.Reachable → graph.Forest →
      clause.on graph = (.ok changes, result) →
      (∀ index ∈ result, result.Attached index) ∧
        ∀ index ∈ result, index ∉ result.roots → result.incoming index ≠ [] := by
  intro hall
  obtain ⟨-, hheads⟩ :=
    hall justThan hangingJust 1 (.read read_justThan) forest_justThan on_justThan
  exact hheads 2 (by decide) (by decide) (by decide)

end DepNorm.Splice
