import DepNorm.Proofs.Normalize
import DepNorm.Proofs.Splice.Heads
import DepNorm.Proofs.TokenTable.Representable

/-!
Tables of normalized graphs. A graph that has been read from a table has one head at most for each
token. Without secondary edges this is so after normalization too, and the words and relations of
the result still fit into columns, so the result can be fed back. With secondary edges, a token may
come to have a second head where a rule has made a primary edge of a secondary one into it.
-/

namespace DepNorm

open DepNorm.Graph Splice TokenTable

/-! ### Names of prepositions -/

theorem lowerChar_eq {c d : Char} (h : lowerChar d = c) (hzero : c ≠ '\x00')
    (hlow : c.toNat < 0x41) : d = c := by
  unfold lowerChar at h
  split at h
  · next hascii =>
    have hletters : ∀ d : Char, d.toNat < 128 → d.toLower.toNat < 0x41 → d.toLower = d :=
      forall_ascii (by decide +kernel)
    rw [← h] at hlow ⊢
    exact (hletters d hascii hlow).symm
  · cases hrun : lowerRuns.findSome? fun run => run.image? d.toNat with
    | none => simpa [hrun] using h
    | some code =>
        obtain ⟨run, hmem, hlower⟩ := List.exists_of_findSome?_eq_some hrun
        have hletters : ∀ run ∈ lowerRuns, 0x61 ≤ run.image := by decide +kernel
        have hcode : 0x61 ≤ code := by
          unfold CaseRun.image? at hlower
          split at hlower
          · cases hlower
            exact Nat.le_add_right_of_le (hletters run hmem)
          · cases hlower
        have hc : Char.ofNat code = c := by simpa [hrun] using h
        by_cases hvalid : code.isValidChar
        · have hnumber : (Char.ofNat code).toNat = code := by
            rw [Char.ofNat, dif_pos hvalid]
            rfl
          rw [← hc, hnumber] at hlow
          omega
        · refine absurd ?_ hzero
          rw [← hc, Char.ofNat, dif_neg hvalid]
          rfl

theorem eq_of_mem_lowerAt {before after : List Char} {c d : Char}
    (h : c ∈ Text.lowerAt before d after) (hzero : c ≠ '\x00') (hlow : c.toNat < 0x41) : d = c := by
  unfold Text.lowerAt at h
  repeat' split at h
  all_goals simp only [List.mem_cons, List.not_mem_nil, or_false] at h
  · subst h
    exact absurd hlow (by decide)
  · subst h
    exact absurd hlow (by decide)
  · rcases h with rfl | rfl
    all_goals exact absurd hlow (by decide)
  · exact lowerChar_eq h.symm hzero hlow

/-- Lower-casing makes no tabs and no line feeds. -/
theorem mem_of_mem_lowercase {text : List Char} {c : Char} (h : c ∈ Text.lowercase text)
    (hzero : c ≠ '\x00') (hlow : c.toNat < 0x41) : c ∈ text := by
  suffices ∀ before, c ∈ Text.lowercase.go before text → c ∈ text from this [] h
  clear h
  intro before h
  induction text generalizing before with
  | nil => exact h
  | cons d text ih =>
      rcases List.mem_append.mp h with h | h
      · exact eq_of_mem_lowerAt h hzero hlow ▸ List.mem_cons_self
      · exact List.mem_cons_of_mem d (ih _ h)

theorem isField_prepositionRelation {word : String} (h : IsField word.toList) :
    IsField (prepositionRelation word).toList := by
  have hkept {c : Char} (hname : c ∉ "nmod:".toList) (hline : '_' ≠ c) (hzero : c ≠ '\x00')
      (hlow : c.toNat < 0x41) (hword : c ∉ word.toList) :
      c ∉ (prepositionRelation word).toList := by
    intro hc
    rw [prepositionRelation, String.toList_append] at hc
    rcases List.mem_append.mp hc with hc | hc
    · exact hname hc
    · rw [String.toList_ofList] at hc
      obtain ⟨d, hd, heq⟩ := List.mem_map.mp hc
      split at heq
      · exact hline heq
      · exact hword (mem_of_mem_lowercase (heq ▸ hd) hzero hlow)
  exact ⟨hkept (by decide) (by decide) (by decide) (by decide) h.no_tab,
    hkept (by decide) (by decide) (by decide) (by decide) h.no_feed⟩

/-! ### Columns of the result -/

/-- The tokens and relations of the graph fit into columns. -/
structure FitsColumns (graph : Graph) : Prop where
  token : ∀ token ∈ graph.tokens, token.Writable
  relation : ∀ key ∈ graph.keys, IsField key.relation.toList

theorem Graph.Tabular.fitsColumns {graph : Graph} (h : graph.Tabular) : FitsColumns graph := by
  refine ⟨h.token, ?_⟩
  rintro _ ⟨edge, hedge, rfl⟩
  exact (h.edge edge hedge).relation

theorem Splice.Move.fitsColumns {rule : Rule} {graph next : Graph} (move : Move rule graph next)
    (h : FitsColumns graph) : FitsColumns next := by
  refine ⟨fun token htoken => h.token token (move.tokens_subset htoken), fun key hkey => ?_⟩
  rcases move.relation_of_mem hkey with ⟨old, hold, heq⟩ | hnamed | ⟨token, htoken, heq⟩
  · exact heq ▸ h.relation old hold
  · have hfields : ∀ name ∈ ["amod", "det", "op", "mark"], IsField name.toList := by decide
    exact hfields key.relation hnamed
  · exact heq ▸ isField_prepositionRelation (h.token token htoken).word

/-! ### Heads of the result -/

namespace TokenTable

variable {graph : Graph} {index : Nat}

theorem extra_of_mem_attachment (hwf : graph.WellFormed) (h : graph.OneHead index) {edge : Edge}
    (hedge : edge ∈ (attachment graph index).extras) : edge.extra = true := by
  simp only [attachment] at hedge
  rw [← sortedIncoming] at hedge
  split at hedge
  · next hroot =>
    obtain ⟨hmem, hinto⟩ := mem_sortedIncoming.mp hedge
    exact h.headless hroot edge.key (key_mem_keys hmem) hinto
  · split at hedge
    · rw [eraseP_eq_filter (pairwise_extra hwf h)] at hedge
      simpa using (List.mem_filter.mp hedge).2
    · next hnone => simpa using List.find?_eq_none.mp hnone edge hedge

end TokenTable

namespace Filters

variable {filters : Filters} {graph next : Graph} {index : Nat}

/-- After a run a token has one head at most, or fewer secondary edges than before. -/
theorem Run.oneHead (run : Run filters graph next) (h : graph.OneHead index) :
    next.OneHead index ∨ (.operatorRoot ∈ filters ∨ .clause ∈ filters) ∧
      (next.secondaryKeys index).ncard < (graph.secondaryKeys index).ncard := by
  have hkept := run.keep (fun graph' =>
    (graph'.secondaryKeys index).ncard ≤ (graph.secondaryKeys index).ncard ∧
      (graph'.OneHead index ∨ (.operatorRoot ∈ filters ∨ .clause ∈ filters) ∧
        (graph'.secondaryKeys index).ncard < (graph.secondaryKeys index).ncard)) ?_ ⟨le_rfl, .inl h⟩
  · exact hkept.2
  · rintro rule before after hrule move ⟨hle, hbefore⟩
    have hmove := move.ncard_secondaryKeys_le index
    refine ⟨hmove.trans hle, ?_⟩
    rcases hbefore with hbefore | ⟨hfilters, hlt⟩
    · refine (move.oneHead hbefore).imp_right fun ⟨hwhich, hlt⟩ => ⟨?_, hlt.trans_le hle⟩
      rcases hwhich with rfl | rfl
      exacts [.inl hrule, .inr hrule]
    · exact .inr ⟨hfilters, hmove.trans_lt hlt⟩

theorem run_of_normalizeGraph (h : graph.WellFormed) {passes : List Pass}
    (hok : filters.normalizeGraph graph = .ok (next, passes)) : Run filters graph next := by
  unfold normalizeGraph at hok
  split at hok
  · next hon =>
    cases hok
    exact (ends_passesGraph filters h).of_on_eq_ok hon
  · cases hok

/-- In the graph of a table each token has one head at most. So it is after normalization, and the
last column lists only secondary edges, unless one of two rules is switched on and has taken out a
secondary edge into the token: the rule for operators at the root, which may turn it round in front
of the primary one, or the rule for clauses, which puts a primary edge in its place. -/
theorem oneHead_or_fewer_of_normalizeGraph {text : String} {passes : List Pass}
    (hread : read text = .ok graph) (h : filters.normalizeGraph graph = .ok (next, passes))
    (index : Nat) :
    graph.OneHead index ∧
      (next.OneHead index ∧ (∀ edge ∈ (attachment next index).extras, edge.extra = true) ∨
        (.operatorRoot ∈ filters ∨ .clause ∈ filters) ∧
          (next.incoming index).countP (·.extra) < (graph.incoming index).countP (·.extra)) := by
  have htabular := tabular_of_read hread
  have hrun := run_of_normalizeGraph htabular.wellFormed h
  have hwf := hrun.wellFormed htabular.wellFormed
  refine ⟨htabular.oneHead index, ?_⟩
  rcases hrun.oneHead (htabular.oneHead index) with hone | ⟨hfilters, hlt⟩
  · exact .inl ⟨hone, fun edge hedge => extra_of_mem_attachment hwf hone hedge⟩
  · rw [hwf.ncard_secondaryKeys, htabular.wellFormed.ncard_secondaryKeys] at hlt
    exact .inr ⟨hfilters, hlt⟩

/-- "all cats", where the operator at the root governs the noun twice, by a primary and by a
secondary edge. -/
def allCats : Graph where
  tokens := [
    { index := 1, word := "all", baseForm := "all", tag := "DT", operator := some "all" },
    { index := 2, word := "cats", baseForm := "cat", tag := "NNS" }]
  arcs := [
    (0, { governor := 1, dependent := 2, relation := "nsubj" }),
    (1, { governor := 1, dependent := 2, relation := "acl", extra := true })]
  roots := [1]
  nextEdge := 2

theorem read_allCats :
    read "1 all all DT 0 root all\n2 cats cat NNS 1 nsubj _ 1:acl" = .ok allCats := by
  decide +kernel

/-- What becomes of `allCats`: the secondary edge comes first and is turned round. -/
def allCatsTurned : Graph where
  tokens := allCats.tokens
  arcs := [
    (0, { governor := 1, dependent := 2, relation := "nsubj" }),
    (2, { governor := 2, dependent := 1, relation := "op", synthetic := true })]
  roots := [2]
  nextEdge := 3

theorem normalizeGraph_allCats :
    ({.operatorRoot} : Filters).normalizeGraph allCats =
      .ok (allCatsTurned, [⟨.quantity, false, 0⟩, ⟨.operatorRoot, true, 1⟩, ⟨.determiner, false, 0⟩,
        ⟨.clause, false, 0⟩]) := by
  unfold normalizeGraph passesGraph graphRules operatorRoot replaceRoot heirEdge?
  simp only [outgoing, Edge.sort_eq_insertionSort]
  decide +kernel

/-- In `allCats` the operator gets one head, and the noun loses its secondary edge. -/
theorem oneHead_or_fewer_of_normalizeGraph_allCats :
    allCatsTurned.OneHead 1 ∧
      (allCatsTurned.incoming 2).countP (·.extra) < (allCats.incoming 2).countP (·.extra) := by
  have hheads := oneHead_or_fewer_of_normalizeGraph read_allCats normalizeGraph_allCats
  constructor
  · rcases (hheads 1).2 with hone | ⟨-, hlt⟩
    · exact hone.1
    · exact absurd hlt (by decide)
  · rcases (hheads 2).2 with hone | ⟨-, hlt⟩
    · have hnsubj : { governor := 1, dependent := 2, relation := "nsubj" } ∈ allCatsTurned.keys :=
        ⟨_, List.mem_cons_self, rfl⟩
      exact absurd (hone.1.headless (by decide) _ hnsubj rfl) Bool.false_ne_true
    · exact hlt

/-- The noun of `allCats` becomes a root with a primary edge, and this edge is printed in the column
of the secondary ones. -/
theorem exists_root_with_head :
    ¬ ∀ (text : String) (filters : Filters) (graph next : Graph) (passes : List Pass),
      read text = .ok graph → filters.normalizeGraph graph = .ok (next, passes) →
        ∀ index, next.OneHead index ∧
          ∀ edge ∈ (attachment next index).extras, edge.extra = true := by
  intro hall
  obtain ⟨-, hextra⟩ := hall _ _ _ _ _ read_allCats normalizeGraph_allCats 2
  exact absurd (hextra { governor := 1, dependent := 2, relation := "nsubj" } (by decide +kernel))
    Bool.false_ne_true

/-! ### Feeding the result back -/

/-- All edges are primary, and each token has one head at most. -/
structure PlainHeads (graph : Graph) : Prop where
  primary : ∀ edge ∈ graph.edges, edge.extra = false
  oneHead : ∀ index, graph.OneHead index

theorem PlainHeads.edge_eq (h : PlainHeads graph) (hwf : graph.WellFormed) {edge other : Edge}
    (hedge : edge ∈ graph.edges) (hother : other ∈ graph.edges)
    (hdependent : edge.dependent = other.dependent) : edge = other :=
  hwf.edge_eq_of_key_eq hedge hother ((h.oneHead other.dependent).unique edge.key
    (key_mem_keys hedge) other.key (key_mem_keys hother) (h.primary edge hedge)
    (h.primary other hother) hdependent rfl)

theorem PlainHeads.not_root (h : PlainHeads graph) {edge : Edge} (hedge : edge ∈ graph.edges) :
    edge.dependent ∉ graph.roots :=
  (h.oneHead edge.dependent).not_root (key_mem_keys hedge) (h.primary edge hedge) rfl

theorem PlainHeads.incoming_root (h : PlainHeads graph) (hroot : index ∈ graph.roots) :
    graph.incoming index = [] := by
  refine List.eq_nil_iff_forall_not_mem.mpr fun edge hedge => ?_
  obtain ⟨hmem, rfl⟩ := mem_incoming.mp hedge
  exact h.not_root hmem hroot

theorem PlainHeads.length_incoming_le (h : PlainHeads graph) (hwf : graph.WellFormed) :
    (graph.incoming index).length ≤ 1 := by
  have hnodup : (graph.incoming index).Nodup := (nodup_edges hwf).filter _
  have hsame {edge other : Edge} (hedge : edge ∈ graph.incoming index)
      (hother : other ∈ graph.incoming index) : edge = other := by
    obtain ⟨hedge, hinto⟩ := mem_incoming.mp hedge
    obtain ⟨hother, hinto'⟩ := mem_incoming.mp hother
    exact h.edge_eq hwf hedge hother (hinto.trans hinto'.symm)
  cases hlist : graph.incoming index with
  | nil => exact Nat.zero_le 1
  | cons edge rest =>
      rw [hlist] at hnodup hsame
      have hrest : rest = [] := List.eq_nil_iff_forall_not_mem.mpr fun other hother =>
        (List.nodup_cons.mp hnodup).1
          (hsame (List.mem_cons_of_mem edge hother) List.mem_cons_self ▸ hother)
      rw [hrest, List.length_singleton]

theorem PlainHeads.representable (h : PlainHeads graph) (hwf : graph.WellFormed)
    (hfits : FitsColumns graph) : Representable graph := by
  constructor
  case token => exact hfits.token
  case relation => exact fun edge hedge => hfits.relation edge.key (key_mem_keys hedge)
  case secondary =>
    intro edge hedge hextra
    cases (h.primary edge hedge).symm.trans hextra
  case head_unique => exact fun edge hedge other hother _ _ => h.edge_eq hwf hedge hother
  case root_headless => exact fun edge hedge _ => h.not_root hedge

theorem Run.plainHeads (run : Run filters graph next) (hwf : graph.WellFormed)
    (h : PlainHeads graph) : PlainHeads next := by
  constructor
  case primary =>
    intro edge hedge
    refine run.primary ?_ edge.key (key_mem_keys hedge)
    rintro _ ⟨old, hold, rfl⟩
    exact h.primary old hold
  case oneHead =>
    intro index
    refine (run.oneHead (h.oneHead index)).resolve_right ?_
    -- There is no secondary edge that could have been taken out.
    rintro ⟨-, hlt⟩
    rw [hwf.ncard_secondaryKeys, List.countP_eq_zero.mpr] at hlt
    · exact Nat.not_lt_zero _ hlt
    · intro edge hedge
      simp [h.primary edge (mem_incoming.mp hedge).1]

/-- Where a table has no secondary edges, be it cyclic or without heads, normalization keeps all
edges primary, no edge enters a root and at most one enters any other token. What is written of the
result can be read, and gives its tokens, its roots and the keys of its edges. -/
theorem recovered_of_normalizeGraph {text : String} {passes : List Pass}
    (hread : read text = .ok graph) (hprimary : ∀ edge ∈ graph.edges, edge.extra = false)
    (h : filters.normalizeGraph graph = .ok (next, passes)) :
    (∀ edge ∈ next.edges, edge.extra = false) ∧ (∀ root ∈ next.roots, next.incoming root = []) ∧
      (∀ index, (next.incoming index).length ≤ 1) ∧
      ∃ again, read (write next) = .ok again ∧ again.tokens = next.tokens ∧
        again.roots = next.roots ∧ again.keys = next.keys := by
  have htabular := tabular_of_read hread
  have hrun := run_of_normalizeGraph htabular.wellFormed h
  have hwf := hrun.wellFormed htabular.wellFormed
  have hheads := hrun.plainHeads htabular.wellFormed ⟨hprimary, htabular.oneHead⟩
  have hfits : FitsColumns next :=
    hrun.keep FitsColumns (fun _ move => move.fitsColumns) htabular.fitsColumns
  exact ⟨hheads.primary, fun _ hroot => hheads.incoming_root hroot,
    fun _ => hheads.length_incoming_le hwf, (hheads.representable hwf hfits).exists_read_write hwf⟩

/-- "run than he has fast", beside a cycle of two tokens and one that has no head. -/
def runThanHeHas : Graph where
  tokens := [
    { index := 1, word := "run", baseForm := "run", tag := "VBP" },
    { index := 2, word := "than", baseForm := "than", tag := "IN" },
    { index := 3, word := "he", baseForm := "he", tag := "PRP" },
    { index := 4, word := "has", baseForm := "have", tag := "VBZ" },
    { index := 5, word := "fast", baseForm := "fast", tag := "RB" },
    { index := 6, word := "a", baseForm := "a", tag := "DT" },
    { index := 7, word := "hm", baseForm := "hm", tag := "UH" },
    { index := 8, word := "oh", baseForm := "oh", tag := "UH" }]
  arcs := [
    (0, { governor := 4, dependent := 2, relation := "mark" }),
    (1, { governor := 4, dependent := 3, relation := "nsubj" }),
    (2, { governor := 1, dependent := 4, relation := "advcl" }),
    (3, { governor := 4, dependent := 5, relation := "advmod" }),
    (4, { governor := 7, dependent := 6, relation := "det" }),
    (5, { governor := 6, dependent := 7, relation := "dep" })]
  roots := [1]
  nextEdge := 6

theorem read_runThanHeHas :
    read ("1 run run VBP 0 root\n2 than than IN 4 mark\n3 he he PRP 4 nsubj\n" ++
      "4 has have VBZ 1 advcl\n5 fast fast RB 4 advmod\n6 a a DT 7 det\n7 hm hm UH 6 dep\n" ++
      "8 oh oh UH _ _") = .ok runThanHeHas := by decide +kernel

/-- With all rules switched on, the clause of `runThanHeHas` is collapsed, and the result is
recovered. -/
theorem recovered_of_normalizeGraph_runThanHeHas :
    ∃ result passes again,
      ({.quantity, .operatorRoot, .determiner, .clause} : Filters).normalizeGraph runThanHeHas =
        .ok (result, passes) ∧
      Pass.fired passes = [.clause] ∧ (∀ edge ∈ result.edges, edge.extra = false) ∧
      read (write result) = .ok again ∧ again.tokens = result.tokens ∧
      again.roots = result.roots ∧ again.keys = result.keys := by
  have hfired :
      (({.quantity, .operatorRoot, .determiner, .clause} : Filters).normalizeGraph
        runThanHeHas).map (fun outcome => Pass.fired outcome.2) = .ok [.clause] := by
    unfold normalizeGraph passesGraph graphRules operatorRoot replaceRoot heirEdge?
    simp only [quantity, lowerFirst, onesToDeterminers, numeralsOne, clause, view, outgoing,
      sortedEdges, Edge.sort_eq_insertionSort]
    decide +kernel
  cases hok : ({.quantity, .operatorRoot, .determiner, .clause} : Filters).normalizeGraph
      runThanHeHas with
  | error fault =>
      rw [hok] at hfired
      cases hfired
  | ok outcome =>
      rw [hok] at hfired
      obtain ⟨hextra, -, -, again, hread, htokens, hroots, hkeys⟩ :=
        recovered_of_normalizeGraph read_runThanHeHas (by decide) hok
      exact ⟨outcome.1, outcome.2, again, rfl, Except.ok.inj hfired, hextra, hread, htokens, hroots,
        hkeys⟩

end Filters

end DepNorm
