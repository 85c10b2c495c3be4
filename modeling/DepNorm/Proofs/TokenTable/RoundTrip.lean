import DepNorm.Proofs.TokenTable.Attachment

/-!
A graph that has been read from a table is written and read again. The second graph has the same
tokens and roots. It has the same edges too, unless a line ends in white space: the reader cuts that
off, and the relation of the last secondary edge loses it. Written tables can end a line so, since
they list the secondary edges in an order of their own, and since they leave out columns after them.
-/

namespace DepNorm

open DepNorm.Graph Outcome

namespace TokenTable

variable {graph : Graph} {edge : Edge} {index : Nat}

/-! ### Reading the table -/

theorem tokenLines_write (h : graph.Tabular) :
    tokenLines (Text.lines (write graph).toList) =
      (graph.tokens.map (writeToken graph)).map Text.trimEnd := by
  have hlines : Text.lines (write graph).toList =
      (graph.tokens.map (writeToken graph)).map Text.dropReturn := by
    rw [write, String.toList_ofList, ← Text.lines_flatMap, List.flatMap_map]
    exact List.forall_mem_map.mpr fun token htoken => feed_not_mem_writeToken h htoken
  simp only [tokenLines, hlines, List.map_map, Function.comp_def, Text.trimEnd_dropReturn]
  refine List.filter_eq_self.mpr (List.forall_mem_map.mpr fun token _ => ?_)
  rw [trimEnd_writeToken h, isSkipped_writtenColumns]
  rfl

theorem exists_readRows_write (h : graph.Tabular) :
    ∃ rows, readRows [] 1 (Text.lines (write graph).toList) = .ok rows ∧
      rows.map Prod.snd = graph.tokens.map (readBack graph) := by
  rw [exists_readRows_iff, tokenLines_write h, List.map_map]
  refine ⟨?_, ?_, by simp⟩
  · rw [List.forall₂_map_left_iff, List.forall₂_map_right_iff, List.forall₂_same]
    exact fun token htoken => read_writeToken h htoken (by simp)
  · exact List.pairwise_map.mpr (h.wellFormed.tokens_ascending.imp Nat.ne_of_lt)

/-- What is written of a graph from a table can be read, and it is read line by line. -/
theorem exists_read_write (h : graph.Tabular) :
    ∃ again, read (write graph) = .ok again ∧
      Describes (graph.tokens.map (readBack graph)) again := by
  obtain ⟨rows, hrows, heq⟩ := exists_readRows_write h
  have hrow {row : Nat × Row} (hrow : row ∈ rows) : ∃ token, readBack graph token = row.2 := by
    obtain ⟨token, -, htoken⟩ := List.mem_map.mp (heq ▸ List.mem_map_of_mem hrow)
    exact ⟨token, htoken⟩
  have hindex {index : Nat} (hmem : index ∈ graph) : ∃ row ∈ rows, row.2.token.index = index := by
    obtain ⟨token, htoken, rfl⟩ := hmem
    obtain ⟨row, hrow, heq⟩ := List.mem_map.mp (heq ▸ List.mem_map_of_mem htoken)
    exact ⟨row, hrow, congrArg (·.token.index) heq⟩
  obtain ⟨again, hbuild⟩ : ∃ again, build rows = .ok again := by
    refine exists_build fun row hmem edge hedge => ?_
    obtain ⟨token, htoken⟩ := hrow hmem
    rw [← htoken] at hedge
    obtain ⟨old, hold, -, rfl⟩ := (mem_edges_readBack h).mp hedge
    rw [governor_reread]
    exact hindex (h.wellFormed.governor_mem old hold)
  refine ⟨again, ?_, ?_⟩
  · rw [read, hrows]
    exact hbuild
  · rw [← heq]
    refine describes_of_build ?_ hbuild
    have hdistinct : (rows.map Prod.snd).Pairwise (·.token.index ≠ ·.token.index) := by
      rw [heq]
      exact List.pairwise_map.mpr (h.wellFormed.tokens_ascending.imp Nat.ne_of_lt)
    exact (List.pairwise_map (f := Prod.snd)).mp hdistinct

/-! ### Writing the same table again -/

theorem secondary_congr {again : Graph} (h : graph.Tabular) (h' : again.Tabular)
    (hedges : ∀ edge, edge ∈ again.edges ↔ edge ∈ graph.edges) (index : Nat) :
    secondary again index = secondary graph index := by
  have hmem (edge : Edge) : edge ∈ secondary again index ↔ edge ∈ secondary graph index := by
    rw [mem_secondary, mem_secondary, hedges]
  have hperm : (secondary again index).Perm (secondary graph index) :=
    (List.perm_ext_iff_of_nodup (nodup_secondary h'.wellFormed) (nodup_secondary h.wellFormed)).mpr
      hmem
  -- Secondary edges into one token that the order does not tell apart are the same edge.
  refine hperm.eq_of_pairwise (fun edge other hedge hother hle hge => ?_)
    (pairwise_sortedIncoming.filter _) (pairwise_sortedIncoming.filter _)
  obtain ⟨hedge, hindex, hextra⟩ := mem_secondary.mp ((hmem edge).mp hedge)
  obtain ⟨hother, hindex', hextra'⟩ := mem_secondary.mp hother
  obtain ⟨hgovernor, hrelation⟩ := byGovernor_eq_eq.mp (Std.OrientedCmp.isLE_antisymm hle hge)
  refine (h.edge edge hedge).toParsed.eq_of_key_eq (h.edge other hother).toParsed ?_
  simp [Edge.key, hgovernor, hrelation, hindex, hindex', hextra, hextra']

theorem primary?_congr {again : Graph} (h : graph.Tabular) (h' : again.Tabular)
    (hedges : ∀ edge, edge ∈ again.edges ↔ edge ∈ graph.edges) (index : Nat) :
    primary? again index = primary? graph index := by
  refine Option.ext fun edge => ?_
  rw [primary?_eq_some_iff h', primary?_eq_some_iff h, hedges]

/-- What is written depends on the tokens, the roots and the set of edges alone. -/
theorem write_congr {again : Graph} (h : graph.Tabular) (h' : again.Tabular)
    (htokens : again.tokens = graph.tokens) (hroots : again.roots = graph.roots)
    (hedges : ∀ edge, edge ∈ again.edges ↔ edge ∈ graph.edges) : write again = write graph := by
  have hattachment (index : Nat) : attachment again index = attachment graph index := by
    rw [attachment_eq h', attachment_eq h, hroots, primary?_congr h h' hedges,
      secondary_congr h h' hedges]
  have hline (token : Token) : writeToken again token = writeToken graph token := by
    simp only [writeToken, hattachment]
  simp only [write, htokens, hline]

/-! ### The second graph -/

theorem eq_of_ascending {α : Type} (key : α → Nat) {items others : List α}
    (h : items.Pairwise (key · < key ·)) (h' : others.Pairwise (key · < key ·))
    (hmem : ∀ a, a ∈ items ↔ a ∈ others) : items = others := by
  have hnodup {items : List α} (h : items.Pairwise (key · < key ·)) : items.Nodup :=
    h.imp fun hlt heq => absurd (congrArg key heq) (Nat.ne_of_lt hlt)
  refine ((List.perm_ext_iff_of_nodup (hnodup h) (hnodup h')).mpr hmem).eq_of_pairwise ?_ h h'
  exact fun a b _ _ hlt hgt => absurd hlt (Nat.lt_asymm hgt)

theorem tokens_eq_of_describes {again : Graph} (h : graph.Tabular)
    (hagain : Describes (graph.tokens.map (readBack graph)) again) :
    again.tokens = graph.tokens := by
  refine eq_of_ascending Token.index hagain.wellFormed.tokens_ascending
    h.wellFormed.tokens_ascending fun token => ?_
  rw [hagain.mem_tokens]
  simp [readBack]

theorem roots_eq_of_describes {again : Graph} (h : graph.Tabular)
    (hagain : Describes (graph.tokens.map (readBack graph)) again) : again.roots = graph.roots := by
  refine eq_of_ascending id hagain.wellFormed.roots_ascending
    h.wellFormed.roots_ascending fun index => ?_
  rw [hagain.mem_roots]
  constructor
  · rintro ⟨row, hrow, hhead, rfl⟩
    obtain ⟨token, -, rfl⟩ := List.mem_map.mp hrow
    exact headAt_eq_root_iff.mp hhead
  · intro hroot
    obtain ⟨token, htoken, rfl⟩ := h.wellFormed.root_mem index hroot
    exact ⟨_, List.mem_map_of_mem htoken, headAt_eq_root_iff.mpr hroot, rfl⟩

theorem mem_edges_of_describes {again : Graph} (h : graph.Tabular)
    (hagain : Describes (graph.tokens.map (readBack graph)) again) :
    edge ∈ again.edges ↔ ∃ old ∈ graph.edges, reread graph old = edge := by
  rw [hagain.mem_edges]
  constructor
  · rintro ⟨row, hrow, hedge⟩
    obtain ⟨token, -, rfl⟩ := List.mem_map.mp hrow
    obtain ⟨old, hold, -, heq⟩ := (mem_edges_readBack h).mp hedge
    exact ⟨old, hold, heq⟩
  · rintro ⟨old, hold, heq⟩
    obtain ⟨token, htoken, hindex⟩ := h.wellFormed.dependent_mem old hold
    exact ⟨_, List.mem_map_of_mem htoken,
      (mem_edges_readBack h).mpr ⟨old, hold, hindex.symm, heq⟩⟩

/-- In no line does the relation of the last secondary edge end in white space. -/
def NoBlankAtEnd (graph : Graph) : Prop :=
  ∀ token ∈ graph.tokens, ∀ last ∈ (attachment graph token.index).extras.getLast?,
    Text.trimEnd last.relation.toList = last.relation.toList

theorem trimmed_eq_iff :
    edge.trimmed = edge ↔ Text.trimEnd edge.relation.toList = edge.relation.toList := by
  constructor
  · intro heq
    have hrelation := congrArg (fun edge : Edge => edge.relation.toList) heq
    rwa [Edge.trimmed, Edge.relabel, String.toList_ofList] at hrelation
  · intro heq
    rw [Edge.trimmed, heq, String.ofList_toList]
    rfl

theorem noBlankAtEnd_iff (h : graph.Tabular) :
    NoBlankAtEnd graph ↔ ∀ edge ∈ graph.edges, reread graph edge = edge := by
  constructor
  · intro hblank edge hedge
    unfold reread
    split
    · next hlast =>
      obtain ⟨token, htoken, hindex⟩ := h.wellFormed.dependent_mem edge hedge
      exact trimmed_eq_iff.mpr (hblank token htoken edge (hindex ▸ hlast))
    · rfl
  · intro hsame token _ last hlast
    obtain ⟨hmem, hindex, -⟩ := (mem_attachment_extras h).mp (List.mem_of_getLast? hlast)
    have hkept := hsame last hmem
    rw [reread, hindex, if_pos (Option.mem_def.mp hlast)] at hkept
    exact trimmed_eq_iff.mp hkept

/-- An edge that has lost white space is not the one that ends the line. -/
theorem reread_reread : reread graph (reread graph edge) = reread graph edge := by
  by_cases hlast : (attachment graph edge.dependent).extras.getLast? = some edge
  · have htrimmed : reread graph edge = edge.trimmed := if_pos hlast
    rw [htrimmed, reread]
    split
    · next hlast' =>
      rw [show edge.trimmed.dependent = edge.dependent from rfl, hlast] at hlast'
      exact congrArg Edge.trimmed (Option.some.inj hlast').symm
    · rfl
  · have hkept : reread graph edge = edge := if_neg hlast
    rw [hkept, hkept]

/-! ### The round trip -/

/-- A graph that has been read can be written and read again. Tokens and roots are then the same.
Edges are the same, except that the one that ends a line loses the white space at the end of its
relation. Where there is no such white space, and only there, all edges are the same, and what is
written the second time is what was written the first time. -/
theorem read_write {text : String} (h : read text = .ok graph) :
    ∃ again, read (write graph) = .ok again ∧ again.tokens = graph.tokens ∧
      again.roots = graph.roots ∧
      (∀ edge, edge ∈ again.edges ↔ ∃ old ∈ graph.edges, reread graph old = edge) ∧
      (again.edges.Perm graph.edges ↔ NoBlankAtEnd graph) ∧
      (NoBlankAtEnd graph → write again = write graph) := by
  have htabular := tabular_of_read h
  obtain ⟨again, hread, hdescribes⟩ := exists_read_write htabular
  have htokens := tokens_eq_of_describes htabular hdescribes
  have hroots := roots_eq_of_describes htabular hdescribes
  have hedges (edge : Edge) : edge ∈ again.edges ↔ ∃ old ∈ graph.edges, reread graph old = edge :=
    mem_edges_of_describes htabular hdescribes
  have hkept (hblank : NoBlankAtEnd graph) (edge : Edge) :
      edge ∈ again.edges ↔ edge ∈ graph.edges := by
    have hsame := (noBlankAtEnd_iff htabular).mp hblank
    rw [hedges]
    constructor
    · rintro ⟨old, hold, rfl⟩
      rwa [hsame old hold]
    · exact fun hedge => ⟨edge, hedge, hsame edge hedge⟩
  refine ⟨again, hread, htokens, hroots, hedges, ⟨fun hperm => ?_, fun hblank => ?_⟩,
    fun hblank => ?_⟩
  · refine (noBlankAtEnd_iff htabular).mpr fun edge hedge => ?_
    obtain ⟨old, -, rfl⟩ := (hedges edge).mp (hperm.mem_iff.mpr hedge)
    exact reread_reread
  · exact (List.perm_ext_iff_of_nodup (nodup_edges hdescribes.wellFormed)
      (nodup_edges htabular.wellFormed)).mpr (hkept hblank)
  · exact write_congr htabular (tabular_of_read hread) htokens hroots (hkept hblank)

/-- "dogs bark", with a secondary edge whose relation ends in white space. -/
def dogsBark : Graph where
  tokens := [
    { index := 1, word := "dogs", baseForm := "dog", tag := "NNS" },
    { index := 2, word := "bark", baseForm := "bark", tag := "VBP" }]
  arcs := [
    (0, { governor := 2, dependent := 1, relation := "nsubj" }),
    (1, { governor := 1, dependent := 2, relation := "ref ", extra := true })]
  roots := [2]
  nextEdge := 2

theorem read_dogsBark :
    read "1\tdogs\tdog\tNNS\t2\tnsubj\n2\tbark\tbark\tVBP\t0\troot\t_\t1:ref \tlate" =
      .ok dogsBark := by decide +kernel

theorem write_dogsBark : write dogsBark =
    "1\tdogs\tdog\tNNS\t2\tnsubj\t_\t_\n2\tbark\tbark\tVBP\t0\troot\t_\t1:ref \n" := by
  decide +kernel

def dogsBarkAgain : Graph where
  tokens := dogsBark.tokens
  arcs := [
    (0, { governor := 2, dependent := 1, relation := "nsubj" }),
    (1, { governor := 1, dependent := 2, relation := "ref", extra := true })]
  roots := [2]
  nextEdge := 2

theorem read_write_again : read (write dogsBark) = .ok dogsBarkAgain := by
  rw [write_dogsBark]
  decide +kernel

/-- What is lost of `dogsBark` is the white space of the secondary edge. Of `dogsBarkAgain` nothing
is lost. -/
theorem read_write_dogsBark :
    (∃ again, read (write dogsBark) = .ok again ∧
      { governor := 1, dependent := 2, relation := "ref", extra := true } ∈ again.edges) ∧
    ∃ again, read (write dogsBarkAgain) = .ok again ∧ again.edges.Perm dogsBarkAgain.edges ∧
      write again = write dogsBarkAgain := by
  constructor
  · obtain ⟨again, hread, -, -, hedges, -⟩ := read_write read_dogsBark
    refine ⟨again, hread, (hedges _).mpr ⟨_, List.mem_cons_of_mem _ List.mem_cons_self, ?_⟩⟩
    decide +kernel
  · obtain ⟨again, hread, -, -, -, hperm, hwrite⟩ := read_write read_write_again
    have hblank : NoBlankAtEnd dogsBarkAgain :=
      (noBlankAtEnd_iff (tabular_of_read read_write_again)).mpr (by decide +kernel)
    exact ⟨again, hread, hperm.mpr hblank, hwrite hblank⟩

/-- Edges need not be the same when a graph has been written and read again: those of `dogsBark` are
not. -/
theorem exists_edge_lost :
    ¬ ∀ (text : String) (graph : Graph), read text = .ok graph →
      ∃ again, read (write graph) = .ok again ∧ again.tokens = graph.tokens ∧
        again.roots = graph.roots ∧ (∀ edge, edge ∈ again.edges ↔ edge ∈ graph.edges) ∧
        write again = write graph := by
  intro hall
  obtain ⟨again, hread, -, -, hedges, -⟩ := hall _ _ read_dogsBark
  cases read_write_again.symm.trans hread
  have hmem := (hedges { governor := 1, dependent := 2, relation := "ref", extra := true }).mp
    (by decide)
  exact absurd hmem (by decide)

end TokenTable

end DepNorm
