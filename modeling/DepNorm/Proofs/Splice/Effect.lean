import DepNorm.Proofs.Graph.Exchange
import DepNorm.Proofs.Graph.Reachable
import DepNorm.Proofs.Graph.Sort
import DepNorm.Proofs.Pattern.Complete
import DepNorm.Proofs.Splice.Clause

/-!
The collapse of a clause edge by edge. It takes edges out first and adds edges afterwards, and an
edge that is added gives way to one that has its key. So what has not been taken out is there in the
end as it was, under its number and with its weight and flags, and all else is new.
-/

namespace DepNorm

open DepNorm.Graph EditM

variable {graph next : Graph}

namespace Splice

variable {root verb preposition object : Nat} {relation : String}

/-! ### Before edges are added -/

/-- The graph without the three edges that the match has seen and without the preposition. -/
def cut (graph : Graph) (root verb preposition object : Nat) (relation : String) : Graph :=
  (((graph.eraseKey { governor := root, dependent := verb, relation }).eraseKey
    { governor := verb, dependent := preposition, relation := "mark" }).eraseKey
      { governor := verb, dependent := object, relation := "nsubj" }).eraseToken preposition

theorem mem_arcs_cut {arc : Nat × Edge} :
    arc ∈ (cut graph root verb preposition object relation).arcs ↔
      arc ∈ graph.arcs ∧ arc.2.governor ≠ preposition ∧ arc.2.dependent ≠ preposition ∧
        arc.2.key ≠ { governor := root, dependent := verb, relation } ∧
        arc.2.key ≠ { governor := verb, dependent := object, relation := "nsubj" } := by
  have hmark (harc : arc.2.dependent ≠ preposition) :
      arc.2.key ≠ { governor := verb, dependent := preposition, relation := "mark" } :=
    fun heq => harc (congrArg EdgeKey.dependent heq)
  simp only [cut, eraseToken, eraseKey, List.mem_filter, Bool.and_eq_true, bne_iff_ne]
  tauto

/-- The graph without the other edges that leave the verb, too. -/
def stripped (graph : Graph) (root verb preposition object : Nat) (relation : String) : Graph :=
  { cut graph root verb preposition object relation with
    arcs := (cut graph root verb preposition object relation).arcs.filter (·.2.governor != verb) }

/-- The edges that a collapse adds. -/
def reattached (graph : Graph) (root verb preposition object : Nat) (relation name : String) :
    List Edge :=
  .made root object name :: .made object verb "mark" ::
    ((cut graph root verb preposition object relation).edges.filter (·.governor == verb)).map
      fun edge => .made root edge.dependent edge.relation

theorem wellFormed_cut (h : graph.WellFormed) :
    (cut graph root verb preposition object relation).WellFormed :=
  (((h.filter_arcs _).filter_arcs _).filter_arcs _).eraseToken preposition

theorem appends_of_on_collapse (h : graph.WellFormed) {outcome : Unit}
    (hon : (collapse root verb preposition object relation).on graph = (.ok outcome, next)) :
    ∃ token, graph.token? preposition = some token ∧
      Appends (reattached graph root verb preposition object relation
        (prepositionRelation token.word)) (stripped graph root verb preposition object relation)
          next := by
  have hcut : (cut graph root verb preposition object relation).WellFormed := wellFormed_cut h
  unfold collapse at hon
  obtain ⟨_, first, hfirst, hon⟩ := exists_of_on_bind_eq_ok hon
  obtain rfl := eq_eraseKey_of_on_takeEdge h hfirst
  obtain ⟨_, second, hsecond, hon⟩ := exists_of_on_bind_eq_ok hon
  obtain rfl := eq_eraseKey_of_on_takeEdge (h.filter_arcs _) hsecond
  obtain ⟨_, third, hthird, hon⟩ := exists_of_on_bind_eq_ok hon
  obtain rfl := eq_eraseKey_of_on_takeEdge ((h.filter_arcs _).filter_arcs _) hthird
  obtain ⟨token, fourth, hfourth, hon⟩ := exists_of_on_bind_eq_ok hon
  obtain ⟨htoken, rfl⟩ := eq_eraseToken_of_on_takeToken hfourth
  obtain ⟨detached, rest, hdetach, hon⟩ := exists_of_on_bind_eq_ok hon
  cases (on_detachAll hcut verb).symm.trans hdetach
  have hrest := hcut.filter_arcs (·.2.governor != verb)
  obtain ⟨_, put, hput, hon⟩ := exists_of_on_bind_eq_ok hon
  have happend := (appends_of_on_putEdge hrest hput).1
  obtain ⟨_, put', hput', hon⟩ := exists_of_on_bind_eq_ok hon
  have happend' := (appends_of_on_putEdge happend.wellFormed hput').1
  have hlast := appends_of_on_forM_putEdge happend'.wellFormed hon
  exact ⟨token, htoken, happend.append (happend'.append hlast)⟩

/-! ### What is left and what is new -/

/-- The key is that of an edge which a collapse leaves alone: it does not touch the preposition, the
verb of the clause does not govern it, and it does not lead from the main verb to that verb. -/
def Spared (root verb preposition : Nat) (relation : String) (key : EdgeKey) : Prop :=
  key.governor ≠ preposition ∧ key.dependent ≠ preposition ∧ key.governor ≠ verb ∧
    key ≠ { governor := root, dependent := verb, relation }

theorem mem_arcs_stripped {arc : Nat × Edge} :
    arc ∈ (stripped graph root verb preposition object relation).arcs ↔
      arc ∈ graph.arcs ∧ Spared root verb preposition relation arc.2.key := by
  have hobject (hverb : arc.2.governor ≠ verb) :
      arc.2.key ≠ { governor := verb, dependent := object, relation := "nsubj" } :=
    fun heq => hverb (congrArg EdgeKey.governor heq)
  simp only [stripped, List.mem_filter, mem_arcs_cut, bne_iff_ne, Spared]
  change _ ↔ _ ∧ arc.2.governor ≠ preposition ∧ arc.2.dependent ≠ preposition ∧
    arc.2.governor ≠ verb ∧ _
  tauto

theorem keys_stripped : (stripped graph root verb preposition object relation).keys =
    {key ∈ graph.keys | Spared root verb preposition relation key} := by
  ext key
  simp only [mem_keys_iff_arcs, mem_arcs_stripped, Set.mem_ofPred_eq]
  constructor
  · rintro ⟨arc, ⟨harc, hspared⟩, rfl⟩
    exact ⟨⟨arc, harc, rfl⟩, hspared⟩
  · rintro ⟨⟨arc, harc, rfl⟩, hspared⟩
    exact ⟨arc, ⟨harc, hspared⟩, rfl⟩

/-- The keys that a collapse puts in: the main verb governs the object, the object the verb of the
clause, and the main verb all else that this verb has governed. -/
def putKeys (keys : Set EdgeKey) (root verb preposition object : Nat) (name : String) :
    Set EdgeKey :=
  {{ governor := root, dependent := object, relation := name },
    { governor := object, dependent := verb, relation := "mark" }} ∪
  {key | ∃ old ∈ keys, old.governor = verb ∧ old.dependent ≠ preposition ∧
    old ≠ { governor := verb, dependent := object, relation := "nsubj" } ∧
    key = { governor := root, dependent := old.dependent, relation := old.relation }}

theorem keys_reattached {name : String} (hdistinct : [root, verb, preposition, object].Nodup) :
    {key | ∃ edge ∈ reattached graph root verb preposition object relation name, edge.key = key} =
      putKeys graph.keys root verb preposition object name := by
  obtain ⟨⟨hrv, -, -⟩, ⟨hvp, -⟩, -⟩ := ne_of_distinct hdistinct
  have hdetached (edge : Edge) :
      edge ∈ (cut graph root verb preposition object relation).edges.filter (·.governor == verb) ↔
        edge ∈ graph.edges ∧ edge.governor = verb ∧ edge.dependent ≠ preposition ∧
          edge.key ≠ { governor := verb, dependent := object, relation := "nsubj" } := by
    have hmain (hverb : edge.governor = verb) :
        edge.key ≠ { governor := root, dependent := verb, relation } :=
      fun heq => hrv ((congrArg EdgeKey.governor heq).symm.trans hverb)
    rw [List.mem_filter, beq_iff_eq, edges, edges, List.mem_map, List.mem_map]
    constructor
    · rintro ⟨⟨arc, harc, rfl⟩, hverb⟩
      obtain ⟨harc, -, hdependent, -, hobject⟩ := mem_arcs_cut.mp harc
      exact ⟨⟨arc, harc, rfl⟩, hverb, hdependent, hobject⟩
    · rintro ⟨⟨arc, harc, rfl⟩, hverb, hdependent, hobject⟩
      refine ⟨⟨arc, mem_arcs_cut.mpr ⟨harc, ?_, hdependent, hmain hverb, hobject⟩, rfl⟩, hverb⟩
      exact hverb ▸ hvp
  ext key
  simp only [reattached, List.mem_cons, exists_eq_or_imp, List.mem_map, exists_exists_and_eq_and,
    hdetached, putKeys, Set.mem_union, Set.mem_insert_iff, Set.mem_singleton_iff,
    Set.mem_ofPred_eq, or_assoc]
  constructor
  · rintro (rfl | rfl | ⟨edge, ⟨hedge, hverb, hdependent, hobject⟩, rfl⟩)
    · exact .inl rfl
    · exact .inr (.inl rfl)
    · exact .inr (.inr ⟨edge.key, key_mem_keys hedge, hverb, hdependent, hobject, rfl⟩)
  · rintro (rfl | rfl | ⟨_, ⟨edge, hedge, rfl⟩, hverb, hdependent, hobject, rfl⟩)
    · exact .inl rfl
    · exact .inr (.inl rfl)
    · exact .inr (.inr ⟨edge, ⟨hedge, hverb, hdependent, hobject⟩, rfl⟩)

/-- All that a collapse does to a graph. -/
structure Collapses (graph : Graph) (root verb preposition object : Nat) (relation name : String)
    (next : Graph) : Prop where
  tokens : next.tokens = graph.tokens.filter (·.index != preposition)
  roots : next.roots = graph.roots.filter (· != preposition)
  keys : next.keys = {key ∈ graph.keys | Spared root verb preposition relation key} ∪
    putKeys graph.keys root verb preposition object name
  /-- An edge that is spared keeps its number, its weight and its flags, also if its key is one of
  those that are put in. -/
  spared : ∀ arc ∈ graph.arcs,
    arc ∈ next.arcs ↔ Spared root verb preposition relation arc.2.key
  /-- Any other edge is new. -/
  made : ∀ arc ∈ next.arcs, arc ∈ graph.arcs ∨ graph.nextEdge ≤ arc.1 ∧
    arc.2 = .made arc.2.governor arc.2.dependent arc.2.relation

theorem collapses_of_on_collapse (h : graph.WellFormed)
    (hdistinct : [root, verb, preposition, object].Nodup) {outcome : Unit}
    (hon : (collapse root verb preposition object relation).on graph = (.ok outcome, next)) :
    ∃ token, graph.token? preposition = some token ∧
      Collapses graph root verb preposition object relation (prepositionRelation token.word)
        next := by
  obtain ⟨token, htoken, happends⟩ := appends_of_on_collapse h hon
  obtain ⟨new, harcs, hnew⟩ := happends.arcs
  refine ⟨token, htoken, happends.tokens, happends.roots, ?_, fun arc harc => ?_,
    fun arc harc => ?_⟩
  · rw [happends.keys, keys_stripped, keys_reattached hdistinct]
  · rw [harcs, List.mem_append, mem_arcs_stripped, or_iff_left fun hmem => ?_, and_iff_right harc]
    exact absurd (h.number_lt arc harc) (not_lt.mpr (hnew arc hmem).1)
  · rw [harcs, List.mem_append] at harc
    refine harc.imp (fun hmem => (mem_arcs_stripped.mp hmem).1) fun hmem => ?_
    obtain ⟨hnumber, hedge⟩ := hnew arc hmem
    refine ⟨hnumber, ?_⟩
    simp only [reattached, List.mem_cons, List.mem_map] at hedge
    rcases hedge with hedge | hedge | ⟨edge, -, hedge⟩
    · rw [hedge]
      rfl
    · rw [hedge]
      rfl
    · rw [← hedge]
      rfl

/-- Of the edges before, only that from the main verb to the verb of the clause can have its key in
use again and be another edge. -/
theorem Collapses.mem_arcs_of_key {name : String}
    (hcollapses : Collapses graph root verb preposition object relation name next)
    (hdistinct : [root, verb, preposition, object].Nodup) {arc : Nat × Edge}
    (harc : arc ∈ graph.arcs) (hkey : arc.2.key ∈ next.keys)
    (hne : arc.2.key ≠ { governor := root, dependent := verb, relation }) : arc ∈ next.arcs := by
  obtain ⟨⟨hrv, hrp, hro⟩, ⟨hvp, hvo⟩, hpo⟩ := ne_of_distinct hdistinct
  refine (hcollapses.spared arc harc).mpr ?_
  rw [hcollapses.keys] at hkey
  generalize arc.2.key = key at hkey hne
  rcases hkey with ⟨-, hspared⟩ | (rfl | rfl) | ⟨old, -, hverb, hdependent, -, rfl⟩
  · exact hspared
  · exact ⟨hrp, hpo.symm, hrv, hne⟩
  · exact ⟨hpo.symm, hvp, hvo.symm, hne⟩
  · exact ⟨hrp, hdependent, hrv, hne⟩

theorem Collapses.governor_ne {name : String}
    (hcollapses : Collapses graph root verb preposition object relation name next)
    (hdistinct : [root, verb, preposition, object].Nodup) {key : EdgeKey} (hkey : key ∈ next.keys) :
    key.governor ≠ verb := by
  obtain ⟨⟨hrv, -, -⟩, ⟨-, hvo⟩, -⟩ := ne_of_distinct hdistinct
  rw [hcollapses.keys] at hkey
  rcases hkey with ⟨-, -, -, hverb, -⟩ | (rfl | rfl) | ⟨old, -, -, -, -, rfl⟩
  · exact hverb
  · exact hrv
  · exact hvo.symm
  · exact hrv

/-! ### The rule -/

theorem exists_on_collapse (hon : clause.on graph = (.ok 1, next)) :
    ∃ found root verb preposition object relation,
      comparativeClause.find? graph.view = some found ∧
      BindsClause found root verb preposition object ∧ found.relation? "clause" = some relation ∧
      [root, verb, preposition, object].Nodup ∧
      (collapse root verb preposition object relation).on graph = (.ok (), next) := by
  unfold clause at hon
  rw [on_get_bind] at hon
  cases hfind : comparativeClause.find? graph.view with
  | none =>
      rw [hfind] at hon
      cases hon
  | some found =>
      cases hrelation : found.relation? "clause" with
      | none =>
          simp only [hfind, hrelation] at hon
          repeat' split at hon
          all_goals cases hon
      | some relation =>
          obtain ⟨root, verb, preposition, object, hbinds, hdistinct, -⟩ :=
            exists_tokens_of_comparativeClause hfind hrelation
          simp only [hfind, hbinds.root, hbinds.verb, hbinds.preposition, hbinds.object,
            hrelation] at hon
          obtain ⟨_, mid, hcollapse, hon⟩ := exists_of_on_bind_eq_ok hon
          cases hon
          exact ⟨found, root, verb, preposition, object, relation, rfl, hbinds, hrelation,
            hdistinct, hcollapse⟩

theorem not_verb_of_not_governs {verb : Nat} (h : ∀ key ∈ graph.keys, key.governor ≠ verb) :
    (∀ found, comparativeClause.find? graph.view = some found → found.node? "has" ≠ some verb) ∧
      ∀ assigned, Pattern.Solves graph.view comparativeClause assigned →
        assigned "has" ≠ some verb := by
  have hnone {relation : String} {dependent : Nat} : ¬ graph.Joins verb relation dependent :=
    fun ⟨_, hkey⟩ => h _ hkey rfl
  constructor
  · intro found hfind hverb
    obtain ⟨high, low, hhigh, -, hjoins⟩ :=
      Pattern.joins_of_find? governed_comparativeClause hfind asks_mark
    cases hverb.symm.trans hhigh
    exact hnone hjoins
  · intro assigned hsolves hverb
    obtain ⟨arc, harc, -⟩ := hsolves.edge
      { governor := "has", dependent := "prep", relation := .exact "mark" } (by decide) rfl hverb
    exact hnone (mem_view_outgoing.mp harc)

/-- Where the rule for clauses changes something, it does to the first match what `Collapses` says:
the preposition goes with all that touches it, the edges that are not spared are replaced by those
of `putKeys`, and every edge whose key stays is the same edge as before. The verb of the clause then
governs nothing, so no match has it as its verb again. -/
theorem collapses_of_clause (h : graph.Reachable) (hon : clause.on graph = (.ok 1, next)) :
    ∃ found root verb preposition object relation token,
      comparativeClause.find? graph.view = some found ∧
      BindsClause found root verb preposition object ∧ found.relation? "clause" = some relation ∧
      graph.token? preposition = some token ∧
      Collapses graph root verb preposition object relation (prepositionRelation token.word) next ∧
      (∀ arc ∈ graph.arcs, arc.2.key ∈ next.keys →
        arc.2.key ≠ { governor := root, dependent := verb, relation } → arc ∈ next.arcs) ∧
      (∀ key ∈ next.keys, key.governor ≠ verb) ∧
      (∀ found, comparativeClause.find? next.view = some found → found.node? "has" ≠ some verb) ∧
      ∀ assigned, Pattern.Solves next.view comparativeClause assigned →
        assigned "has" ≠ some verb := by
  obtain ⟨found, root, verb, preposition, object, relation, hfind, hbinds, hrelation, hdistinct,
    hcollapse⟩ := exists_on_collapse hon
  obtain ⟨token, htoken, hcollapses⟩ := collapses_of_on_collapse h.wellFormed hdistinct hcollapse
  have hgoverns (key : EdgeKey) (hkey : key ∈ next.keys) := hcollapses.governor_ne hdistinct hkey
  obtain ⟨hfirst, hsolves⟩ := not_verb_of_not_governs hgoverns
  exact ⟨found, root, verb, preposition, object, relation, token, hfind, hbinds, hrelation, htoken,
    hcollapses, fun arc harc => hcollapses.mem_arcs_of_key hdistinct harc, hgoverns, hfirst,
    hsolves⟩

/-- "run than he often has", with a primary edge from "run" to "he" that bears the name of the
preposition already. -/
def runThanHeOftenHas : Graph where
  tokens := [
    { index := 1, word := "run", baseForm := "run", tag := "VBP" },
    { index := 2, word := "than", baseForm := "than", tag := "IN" },
    { index := 3, word := "he", baseForm := "he", tag := "PRP" },
    { index := 4, word := "often", baseForm := "often", tag := "RB" },
    { index := 5, word := "has", baseForm := "have", tag := "VBZ" }]
  arcs := [
    (0, { governor := 5, dependent := 2, relation := "mark" }),
    (1, { governor := 5, dependent := 3, relation := "nsubj" }),
    (2, { governor := 5, dependent := 4, relation := "advmod" }),
    (3, { governor := 1, dependent := 5, relation := "advcl" }),
    (4, { governor := 1, dependent := 3, relation := "nmod:than", weight := ⟨0x4000000000000000⟩ })]
  roots := [1]
  nextEdge := 5

theorem reachable_runThanHeOftenHas : runThanHeOftenHas.Reachable := by
  have hread : TokenTable.read
      ("1 run run VBP 0 root\n2 than than IN 5 mark\n3 he he PRP 5 nsubj\n" ++
        "4 often often RB 5 advmod\n5 has have VBZ 1 advcl") =
      .ok { runThanHeOftenHas with arcs := runThanHeOftenHas.arcs.take 4, nextEdge := 4 } := by
    decide +kernel
  exact .operate (.read hread) (.addEdge
    { governor := 1, dependent := 3, relation := "nmod:than", weight := ⟨0x4000000000000000⟩ })

def oftenHas : Graph where
  tokens := runThanHeOftenHas.tokens.filter (·.index != 2)
  arcs := [
    (4, { governor := 1, dependent := 3, relation := "nmod:than", weight := ⟨0x4000000000000000⟩ }),
    (5, .made 3 5 "mark"),
    (6, .made 1 4 "advmod")]
  roots := [1]
  nextEdge := 7

/-- In `runThanHeOftenHas` the clause is collapsed, and the edge that has the name of the
preposition already stays as it is. -/
theorem collapses_of_clause_runThanHeOftenHas :
    clause.on runThanHeOftenHas = (.ok 1, oftenHas) ∧
      Collapses runThanHeOftenHas 1 5 2 3 "advcl" "nmod:than" oftenHas ∧
      ∀ key ∈ oftenHas.keys, key.governor ≠ 5 := by
  have hon : clause.on runThanHeOftenHas = (.ok 1, oftenHas) := by
    simp only [clause, view, outgoing, Edge.sort_eq_insertionSort]
    decide +kernel
  have hmatch : comparativeClause.find? runThanHeOftenHas.view = some {
      bindings := [("root", 1), ("has", 5), ("prep", 2), ("pobj", 3)]
      captures := [("clause", "advcl")] } := by
    simp only [view, outgoing, Edge.sort_eq_insertionSort]
    decide +kernel
  obtain ⟨found, root, verb, preposition, object, relation, token, hfind, hbinds, hrelation, htoken,
    hcollapses, -, hgoverns, -⟩ := collapses_of_clause reachable_runThanHeOftenHas hon
  cases hmatch.symm.trans hfind
  obtain ⟨hroot, hverb, hpreposition, hobject⟩ := hbinds
  cases hroot
  cases hverb
  cases hpreposition
  cases hobject
  cases hrelation
  cases htoken
  have hname : prepositionRelation "than" = "nmod:than" := by decide +kernel
  rw [hname] at hcollapses
  exact ⟨hon, hcollapses, hgoverns⟩

end Splice

end DepNorm
