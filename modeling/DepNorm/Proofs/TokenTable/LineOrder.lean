import DepNorm.Proofs.Splice.Renumbering
import DepNorm.Proofs.TokenTable.RoundTrip

/-!
The order of the lines of a table. A line describes one token, with the edges into it. So a table
whose lines are put in another order is read as the same graph, except that the edges get other
numbers, and when it is normalized, the same table is written.
-/

namespace DepNorm

open DepNorm.Graph Outcome

namespace TokenTable

variable {graph : Graph}

/-! ### Rows in another order -/

theorem exists_readRows_of_perm {lines others : List (List Char)} {rows : List (Nat × Row)}
    (hrows : readRows [] 1 lines = .ok rows) (hperm : (tokenLines others).Perm (tokenLines lines)) :
    ∃ rows', readRows [] 1 others = .ok rows' ∧
      (rows'.map Prod.snd).Perm (rows.map Prod.snd) := by
  obtain ⟨hread, hdistinct, hseen⟩ := exists_readRows_iff.mp ⟨rows, hrows, rfl⟩
  obtain ⟨content, hread', hcontent⟩ := List.perm_comp_forall₂ hperm hread
  obtain ⟨rows', hrows', rfl⟩ := exists_readRows_iff.mpr ⟨hread',
    (hcontent.pairwise_iff Ne.symm).mpr hdistinct,
    fun row hrow => hseen row (hcontent.mem_iff.mp hrow)⟩
  exact ⟨rows', hrows', hcontent⟩

theorem filter_flatMap_edges (rows : List Row) (index : Nat) :
    (rows.flatMap Row.edges).filter (·.dependent == index) =
      (rows.filter (·.token.index == index)).flatMap Row.edges := by
  induction rows with
  | nil => rfl
  | cons row rows ih =>
      have hrow (edge : Edge) (hedge : edge ∈ row.edges) : edge.dependent = row.token.index :=
        (Row.mem_edges.mp hedge).1
      rw [List.flatMap_cons, List.filter_append, ih, List.filter_cons]
      by_cases hindex : row.token.index = index
      · rw [if_pos (by simpa using hindex), List.flatMap_cons,
          List.filter_eq_self.mpr fun edge hedge => by simpa [hrow edge hedge] using hindex]
      · rw [if_neg (by simpa using hindex),
          List.filter_eq_nil_iff.mpr fun edge hedge => by simpa [hrow edge hedge] using hindex,
          List.nil_append]

/-- Only one row has the index, so there is no order that could be another one. -/
theorem filter_index_eq_of_perm {rows others : List Row} (hperm : others.Perm rows)
    (hdistinct : rows.Pairwise (·.token.index ≠ ·.token.index)) (index : Nat) :
    others.filter (·.token.index == index) = rows.filter (·.token.index == index) := by
  have hfalse {rows : List Row} (hdistinct : rows.Pairwise (·.token.index ≠ ·.token.index)) :
      (rows.filter (·.token.index == index)).Pairwise fun _ _ => False := by
    refine (hdistinct.filter _).imp_of_mem fun hrow hother hne => hne ?_
    have hrow := (List.mem_filter.mp hrow).2
    have hother := (List.mem_filter.mp hother).2
    exact (beq_iff_eq.mp hrow).trans (beq_iff_eq.mp hother).symm
  exact (hperm.filter _).eq_of_pairwise (fun _ _ _ _ hno => hno.elim)
    (hfalse ((hperm.pairwise_iff Ne.symm).mpr hdistinct)) (hfalse hdistinct)

theorem exists_build_of_perm {rows others : List (Nat × Row)} (h : build rows = .ok graph)
    (hdistinct : rows.Pairwise (·.2.token.index ≠ ·.2.token.index))
    (hperm : (others.map Prod.snd).Perm (rows.map Prod.snd)) :
    ∃ other, build others = .ok other ∧ Renumbered graph other := by
  have hgraph := describes_of_build hdistinct h
  have hcontent : (rows.map Prod.snd).Pairwise (·.token.index ≠ ·.token.index) :=
    List.pairwise_map.mpr hdistinct
  have hcontent' := (hperm.pairwise_iff Ne.symm).mpr hcontent
  obtain ⟨other, hother⟩ : ∃ other, build others = .ok other := by
    refine exists_build fun row hrow edge hedge => ?_
    have hmem : row.2 ∈ rows.map Prod.snd := hperm.mem_iff.mp (List.mem_map_of_mem hrow)
    have hedge := (hgraph.mem_edges edge).mpr ⟨row.2, hmem, hedge⟩
    obtain ⟨token, htoken, hindex⟩ := hgraph.wellFormed.governor_mem edge hedge
    obtain ⟨row', hrow', rfl⟩ := (hgraph.mem_tokens token).mp htoken
    obtain ⟨named, hnamed, rfl⟩ := List.mem_map.mp (hperm.mem_iff.mpr hrow')
    exact ⟨named, hnamed, hindex⟩
  have hdescribes := describes_of_build ((List.pairwise_map (f := Prod.snd)).mp hcontent') hother
  refine ⟨other, hother, hgraph.wellFormed, hdescribes.wellFormed, ?_, ?_, fun index => ?_⟩
  · refine eq_of_ascending Token.index hdescribes.wellFormed.tokens_ascending
      hgraph.wellFormed.tokens_ascending fun token => ?_
    rw [hdescribes.mem_tokens, hgraph.mem_tokens]
    simp only [hperm.mem_iff]
  · refine eq_of_ascending id hdescribes.wellFormed.roots_ascending
      hgraph.wellFormed.roots_ascending fun index => ?_
    rw [hdescribes.mem_roots, hgraph.mem_roots]
    simp only [hperm.mem_iff]
  · have hedges (rows : List (Nat × Row)) :
        (rows.flatMap fun row => row.2.edges) = (rows.map Prod.snd).flatMap Row.edges := by
      rw [List.flatMap_map]
    rw [(of_build hother).2.1, (of_build h).2.1, hedges, hedges, filter_flatMap_edges,
      filter_flatMap_edges, filter_index_eq_of_perm hperm hcontent]

/-! ### Texts with their lines in another order -/

/-- A table with its lines in another order is read as the same graph, except for the numbers of the
edges. -/
theorem exists_read_of_perm {text : String} (h : read text = .ok graph) {lines : List (List Char)}
    (hlines : lines.Perm (Text.lines text.toList)) :
    ∃ other, read (String.ofList (['\n'].intercalate lines)) = .ok other ∧
      Renumbered graph other := by
  obtain ⟨rows, hrows, hbuild⟩ := exists_of_bind_eq_ok h
  have hfeed (line : List Char) (hline : line ∈ lines) : '\n' ∉ line :=
    Text.not_mem_of_mem_lines (hlines.mem_iff.mp hline)
  have hperm : (tokenLines (Text.lines (['\n'].intercalate lines))).Perm
      (tokenLines (Text.lines text.toList)) := by
    rw [tokenLines_intercalate hfeed]
    exact (hlines.map _).filter _
  obtain ⟨others, hothers, hperm⟩ := exists_readRows_of_perm hrows hperm
  have hdistinct := (of_readRows (fun _ => Text.not_mem_of_mem_lines) hrows).2
  obtain ⟨other, hother, hsame⟩ := exists_build_of_perm hbuild hdistinct hperm
  refine ⟨other, ?_, hsame⟩
  rw [read, String.toList_ofList, hothers]
  exact hother

theorem write_eq_of_renumbered {other : Graph} (h : Renumbered graph other) :
    write other = write graph := by
  have hline (token : Token) : writeToken other token = writeToken graph token := by
    simp only [writeToken, attachment, h.incoming, h.roots]
  simp only [write, h.tokens, hline]

end TokenTable

namespace Filters

open TokenTable

/-- The order of the lines of a table does not matter. With the lines in another order it is read as
a graph with the same tokens, roots and edges, and when the two graphs are normalized, either both
fail with the same fault, or the passes are the same and the same table is written. -/
theorem write_normalizeGraph_of_perm {text : String} {graph : Graph} (h : read text = .ok graph)
    {lines : List (List Char)} (hlines : lines.Perm (Text.lines text.toList)) :
    ∃ other, read (String.ofList (['\n'].intercalate lines)) = .ok other ∧
      other.tokens = graph.tokens ∧ other.roots = graph.roots ∧ other.edges.Perm graph.edges ∧
      ∀ filters : Filters,
        (∃ fault, filters.normalizeGraph graph = .error fault ∧
          filters.normalizeGraph other = .error fault) ∨
        ∃ result result' passes, filters.normalizeGraph graph = .ok (result, passes) ∧
          filters.normalizeGraph other = .ok (result', passes) ∧ write result' = write result := by
  obtain ⟨other, hother, hsame⟩ := exists_read_of_perm h hlines
  refine ⟨other, hother, hsame.tokens, hsame.roots, hsame.perm_edges, fun filters => ?_⟩
  rcases Splice.renumbering.normalizeGraph hsame filters with
    ⟨fault, herror, herror'⟩ | ⟨result, result', passes, hok, hok', hresult⟩
  · refine .inl ⟨fault, herror, ?_⟩
    rw [herror']
    exact congrArg _ fault.rename_id
  · exact .inr ⟨result, result', passes, hok, hok', write_eq_of_renumbered hresult⟩

/-- "run than he has fast far", where "has" governs two adverbs. -/
def fastFar : Graph where
  tokens := [
    { index := 1, word := "run", baseForm := "run", tag := "VBP" },
    { index := 2, word := "than", baseForm := "than", tag := "IN" },
    { index := 3, word := "he", baseForm := "he", tag := "PRP" },
    { index := 4, word := "has", baseForm := "have", tag := "VBZ" },
    { index := 5, word := "fast", baseForm := "fast", tag := "RB" },
    { index := 6, word := "far", baseForm := "far", tag := "RB" }]
  arcs := [
    (0, { governor := 4, dependent := 2, relation := "mark" }),
    (1, { governor := 4, dependent := 3, relation := "nsubj" }),
    (2, { governor := 1, dependent := 4, relation := "advcl" }),
    (3, { governor := 4, dependent := 5, relation := "advmod" }),
    (4, { governor := 4, dependent := 6, relation := "advmod" })]
  roots := [1]
  nextEdge := 5

/-- The table of it, below a comment. -/
def fastFarTable : String :=
  "# run\n1 run run VBP 0 root\n2 than than IN 4 mark\n3 he he PRP 4 nsubj\r\n" ++
    "4 has have VBZ 1 advcl\n5 fast fast RB 4 advmod\n6 far far RB 4 advmod\n"

theorem read_fastFarTable : read fastFarTable = .ok fastFar := by decide +kernel

theorem intercalate_reverse_fastFarTable :
    String.ofList (['\n'].intercalate (Text.lines fastFarTable.toList).reverse) =
      "6 far far RB 4 advmod\n5 fast fast RB 4 advmod\n4 has have VBZ 1 advcl\n" ++
        "3 he he PRP 4 nsubj\n2 than than IN 4 mark\n1 run run VBP 0 root\n# run" := by
  decide +kernel

/-- From the lines in the opposite order the adverbs are taken out in the opposite order, and the
same table is written. -/
theorem write_normalizeGraph_fastFar :
    ∃ other, read ("6 far far RB 4 advmod\n5 fast fast RB 4 advmod\n4 has have VBZ 1 advcl\n" ++
        "3 he he PRP 4 nsubj\n2 than than IN 4 mark\n1 run run VBP 0 root\n# run") = .ok other ∧
      other.tokens = fastFar.tokens ∧ other.roots = fastFar.roots ∧
      other.edges.Perm fastFar.edges ∧
      ∃ result result' passes,
        ({.clause} : Filters).normalizeGraph fastFar = .ok (result, passes) ∧
        Pass.fired passes = [.clause] ∧
        ({.clause} : Filters).normalizeGraph other = .ok (result', passes) ∧
        write result' = write result := by
  obtain ⟨other, hother, htokens, hroots, hedges, hall⟩ := write_normalizeGraph_of_perm
    read_fastFarTable (List.reverse_perm _)
  rw [intercalate_reverse_fastFarTable] at hother
  refine ⟨other, hother, htokens, hroots, hedges, ?_⟩
  have hfired : (({.clause} : Filters).normalizeGraph fastFar).map
      (fun outcome => Pass.fired outcome.2) = .ok [.clause] := by
    simp only [normalizeGraph, passesGraph, graphRules, Splice.clause, view, outgoing,
      Edge.sort_eq_insertionSort]
    decide +kernel
  rcases hall {.clause} with ⟨fault, herror, -⟩ | ⟨result, result', passes, hok, hok', hwrite⟩
  · rw [herror] at hfired
    cases hfired
  · rw [hok] at hfired
    exact ⟨result, result', passes, hok, Except.ok.inj hfired, hok', hwrite⟩

end Filters

end DepNorm
