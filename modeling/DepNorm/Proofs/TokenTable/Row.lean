import DepNorm.Proofs.Outcome
import DepNorm.Proofs.TokenTable.Text

/-!
What a row that has been read promises. Its token has an index that can be written, its texts can
stand in a column, and the relations of its secondary edges can stand in a list. All this is kept
when white space at the end of a relation is taken away.
-/

namespace DepNorm

open Outcome

/-! ### Tokens and edges of a table -/

/-- The text can stand in a column. -/
structure IsField (field : List Char) : Prop where
  no_tab : '\t' ∉ field
  no_feed : '\n' ∉ field

theorem IsField.of_subset {part field : List Char} (h : IsField field) (hpart : part ⊆ field) :
    IsField part := ⟨fun hmem => h.no_tab (hpart hmem), fun hmem => h.no_feed (hpart hmem)⟩

structure Token.Writable (token : Token) : Prop where
  index_ne_zero : token.index ≠ 0
  index_lt : token.index < Text.indexBound
  word : IsField token.word.toList
  baseForm : IsField token.baseForm.toList
  tag : IsField token.tag.toList
  operator : ∀ mark ∈ token.operator, mark ≠ "_" ∧ IsField mark.toList

/-- The edge comes from the parser of the sentence. -/
structure Edge.Parsed (edge : Edge) : Prop where
  weight : edge.weight = .one
  synthetic : edge.synthetic = false

theorem Edge.Parsed.eq_of_key_eq {edge other : Edge} (h : edge.Parsed) (h' : other.Parsed)
    (hkey : edge.key = other.key) : edge = other := by
  obtain ⟨governor, dependent, relation, weight, extra, synthetic⟩ := edge
  obtain ⟨governor', dependent', relation', weight', extra', synthetic'⟩ := other
  obtain ⟨rfl, rfl⟩ := h
  obtain ⟨rfl, rfl⟩ := h'
  cases hkey
  rfl

structure Edge.Writable (edge : Edge) : Prop extends edge.Parsed where
  relation : IsField edge.relation.toList
  bar : edge.extra = true → '|' ∉ edge.relation.toList

def Edge.trimmed (edge : Edge) : Edge :=
  edge.relabel (String.ofList (Text.trimEnd edge.relation.toList))

theorem Edge.Writable.trimmed {edge : Edge} (h : edge.Writable) : edge.trimmed.Writable := by
  have hsubset : edge.trimmed.relation.toList ⊆ edge.relation.toList := by
    simpa [Edge.trimmed, relabel] using Text.trimEnd_subset _
  exact ⟨⟨h.weight, h.synthetic⟩, h.relation.of_subset hsubset,
    fun hextra hmem => h.bar hextra (hsubset hmem)⟩

namespace TokenTable

/-! ### Reading the columns -/

theorem isField_of_mem_columns {line column : List Char} (hline : '\n' ∉ line)
    (h : column ∈ columns line) : IsField column := by
  unfold columns at h
  split at h
  · obtain ⟨htab, hsubset⟩ := Text.of_mem_splitOn h
    exact ⟨htab, fun hfeed => hline (hsubset hfeed)⟩
  · next htab =>
    have hmem (c : Char) (hc : c ∈ column) : c ∈ line :=
      (Text.of_mem_splitOnP (List.mem_filter.mp h).1 hc).1
    exact ⟨fun hc => htab (hmem _ hc), fun hc => hline (hmem _ hc)⟩

theorem readIndex_eq_ok_iff {field : List Char} {index : Nat} :
    readIndex field = .ok index ↔ Text.readIndex? field = some index := by
  unfold readIndex
  cases Text.readIndex? field <;> simp

theorem subset_of_readExtra {item : List Char} {extra : Nat × String}
    (h : readExtra item = .ok extra) : extra.2.toList ⊆ item := by
  unfold readExtra at h
  split at h
  · cases h
  · next colon relation hdrop =>
    obtain ⟨head, -, rfl⟩ := exists_of_map_eq_ok h
    intro c hc
    rw [String.toList_ofList] at hc
    exact List.dropWhile_subset _ (hdrop ▸ List.mem_cons_of_mem colon hc)

theorem of_readOptional {field : Option (List Char)} {content : List Char}
    (h : readOptional field = some content) : content ∈ field ∧ content ≠ ['_'] := by
  rw [readOptional, Option.filter_eq_some_iff] at h
  exact h.imp id (by simp)

theorem of_mem_readExtras {field : Option (List Char)} {extras : List (Nat × String)}
    (h : readExtras field = .ok extras) {extra : Nat × String} (hextra : extra ∈ extras) :
    '|' ∉ extra.2.toList ∧ ∃ content ∈ field, extra.2.toList ⊆ content := by
  unfold readExtras at h
  split at h
  · cases h
    cases hextra
  · next content hcontent =>
    obtain ⟨item, hitem, hread⟩ := exists_of_mem_of_mapM_eq_ok h hextra
    obtain ⟨hbar, hsubset⟩ := Text.of_mem_splitOn hitem
    have hrelation := subset_of_readExtra hread
    exact ⟨fun hmem => hbar (hrelation hmem), content, (of_readOptional hcontent).1,
      List.Subset.trans hrelation hsubset⟩

/-! ### Reading a row -/

/-- The columns of a line are read as a row exactly if index, head and secondary edges are read and
the index is neither zero nor taken. -/
theorem Row.read_eq_ok_iff {seen : List Nat} {index word baseForm tag head relation : List Char}
    {others : List (List Char)} {row : Row} :
    Row.read seen (index :: word :: baseForm :: tag :: head :: relation :: others) = .ok row ↔
      ∃ number governor extras, readIndex index = .ok number ∧ number ≠ 0 ∧ number ∉ seen ∧
        Head.read head = .ok governor ∧ readExtras others[1]? = .ok extras ∧
        row = {
          token := {
            index := number
            word := String.ofList word
            baseForm := String.ofList baseForm
            tag := String.ofList tag
            operator := (readOptional others[0]?).map String.ofList }
          head := governor
          relation := String.ofList relation
          extras } := by
  unfold Row.read
  constructor
  · intro h
    obtain ⟨number, hnumber, h⟩ := exists_of_bind_eq_ok h
    dsimp only at h
    split at h
    · cases h
    · next hzero =>
      split at h
      · cases h
      · next hseen =>
        obtain ⟨governor, hgovernor, h⟩ := exists_of_bind_eq_ok h
        obtain ⟨extras, hextras, h⟩ := exists_of_bind_eq_ok h
        cases h
        exact ⟨number, governor, extras, hnumber, hzero, hseen, hgovernor, hextras, rfl⟩
  · rintro ⟨number, governor, extras, hnumber, hzero, hseen, hgovernor, hextras, rfl⟩
    simp [hnumber, hzero, hseen, hgovernor, hextras, bind, Except.bind, pure, Except.pure]

theorem Row.exists_columns_of_read {seen : List Nat} {columns : List (List Char)} {row : Row}
    (h : Row.read seen columns = .ok row) :
    ∃ index word baseForm tag head relation others,
      columns = index :: word :: baseForm :: tag :: head :: relation :: others := by
  unfold Row.read at h
  split at h
  · exact ⟨_, _, _, _, _, _, _, rfl⟩
  · cases h

theorem Row.mem_edges {row : Row} {edge : Edge} :
    edge ∈ row.edges ↔ edge.dependent = row.token.index ∧ edge.Parsed ∧
      if edge.extra then (edge.governor, edge.relation) ∈ row.extras
      else row.head = .token edge.governor ∧ row.relation = edge.relation := by
  unfold Row.edges
  rw [List.mem_append]
  constructor
  · rintro (hmem | hmem)
    · split at hmem
      · next governor hhead =>
        rw [List.mem_singleton.mp hmem]
        exact ⟨rfl, ⟨rfl, rfl⟩, hhead, rfl⟩
      · cases hmem
    · obtain ⟨extra, hextra, rfl⟩ := List.mem_map.mp hmem
      exact ⟨rfl, ⟨rfl, rfl⟩, hextra⟩
  · obtain ⟨governor, dependent, relation, weight, extra, synthetic⟩ := edge
    rintro ⟨rfl, ⟨rfl, rfl⟩, hends⟩
    cases extra with
    | false =>
        obtain ⟨hhead, rfl⟩ := hends
        rw [hhead]
        exact .inl (List.mem_singleton.mpr rfl)
    | true => exact .inr (List.mem_map.mpr ⟨_, hends, rfl⟩)

theorem Row.mem_edges_of_primary {row : Row} {edge : Edge} (hextra : edge.extra = false) :
    edge ∈ row.edges ↔ edge.dependent = row.token.index ∧ edge.Parsed ∧
      row.head = .token edge.governor ∧ row.relation = edge.relation := by
  rw [mem_edges, hextra, if_neg Bool.false_ne_true]

theorem Row.mem_edges_of_extra {row : Row} {edge : Edge} (hextra : edge.extra = true) :
    edge ∈ row.edges ↔ edge.dependent = row.token.index ∧ edge.Parsed ∧
      (edge.governor, edge.relation) ∈ row.extras := by
  rw [mem_edges, hextra, if_pos rfl]

theorem Row.writable_of_read {seen : List Nat} {columns : List (List Char)} {row : Row}
    (h : Row.read seen columns = .ok row) (hcolumns : ∀ column ∈ columns, IsField column) :
    row.token.Writable ∧ row.token.index ∉ seen ∧ ∀ edge ∈ row.edges, edge.Writable := by
  obtain ⟨index, word, baseForm, tag, head, relation, others, rfl⟩ := exists_columns_of_read h
  obtain ⟨number, governor, extras, hnumber, hzero, hseen, -, hextras, rfl⟩ :=
    Row.read_eq_ok_iff.mp h
  simp only [List.mem_cons, forall_eq_or_imp] at hcolumns
  obtain ⟨-, hword, hbaseForm, htag, -, hrelation, hothers⟩ := hcolumns
  refine ⟨?_, hseen, fun edge hedge => ?_⟩
  · refine ⟨hzero, Text.readIndex?_lt (readIndex_eq_ok_iff.mp hnumber), by simpa, by simpa,
      by simpa, fun mark hmark => ?_⟩
    obtain ⟨content, hcontent, rfl⟩ := Option.map_eq_some_iff.mp hmark
    obtain ⟨hmem, hmark⟩ := of_readOptional hcontent
    refine ⟨fun heq => hmark ?_, by simpa using hothers content (List.mem_of_getElem? hmem)⟩
    simpa using congrArg String.toList heq
  · cases hextra : edge.extra with
    | false =>
        obtain ⟨-, hparsed, -, hsame⟩ := (Row.mem_edges_of_primary hextra).mp hedge
        exact ⟨hparsed, by simpa [← hsame] using hrelation, by simp [hextra]⟩
    | true =>
        obtain ⟨-, hparsed, hmem⟩ := (Row.mem_edges_of_extra hextra).mp hedge
        obtain ⟨hbar, content, hcontent, hsubset⟩ := of_mem_readExtras hextras hmem
        exact ⟨hparsed, (hothers content (List.mem_of_getElem? hcontent)).of_subset hsubset,
          fun _ => hbar⟩

end TokenTable

end DepNorm
