import DepNorm.Proofs.TokenTable.Row
import DepNorm.TokenTable.Writer

/-!
The line of a token, written and read. Each column is read back as what it was written from, and so
is the row, if the token and the edges can stand in a table. Only the last column can end in white
space, and then it ends in that of the last relation, which is lost.
-/

namespace DepNorm

open Outcome

namespace TokenTable

/-! ### Columns -/

def Head.text : Head → List Char
  | .none => ['_']
  | .root => ['0']
  | .token index => Text.writeIndex index

theorem readIndex_writeIndex {index : Nat} (h : index < Text.indexBound) :
    readIndex (Text.writeIndex index) = .ok index :=
  readIndex_eq_ok_iff.mpr (Text.readIndex?_writeIndex h)

theorem Head.read_text {head : Head}
    (h : ∀ index, head = .token index → index ≠ 0 ∧ index < Text.indexBound) :
    Head.read head.text = .ok head := by
  cases head with
  | none => rfl
  | root => rfl
  | token index =>
      obtain ⟨hzero, hlt⟩ := h index rfl
      have hread := Text.readIndex?_writeIndex hlt
      rw [Head.text, Head.read, if_neg, if_neg, readIndex_writeIndex hlt]
      · rfl
      · intro heq
        rw [heq, show Text.readIndex? ['0'] = some 0 by decide] at hread
        exact hzero (Option.some.inj hread).symm
      · intro heq
        rw [heq, show Text.readIndex? ['_'] = Option.none by decide] at hread
        cases hread

theorem readExtra_writeExtra {edge : Edge} (h : edge.governor < Text.indexBound) :
    readExtra (writeExtra edge) = .ok (edge.governor, edge.relation) := by
  have hcolon : ∀ c ∈ Text.writeIndex edge.governor, (c != ':') = true := by
    intro c hc
    rw [bne_iff_ne]
    rintro rfl
    exact Text.not_mem_writeIndex (by decide) hc
  have hdrop : (writeExtra edge).dropWhile (· != ':') = ':' :: edge.relation.toList := by
    rw [writeExtra, List.dropWhile_append_of_pos hcolon]
    rfl
  have htake : (writeExtra edge).takeWhile (· != ':') = Text.writeIndex edge.governor := by
    rw [writeExtra, List.takeWhile_append_of_pos hcolon]
    simp
  rw [readExtra, hdrop, htake, readIndex_writeIndex h]
  simp [Except.map]

theorem writeExtras_of_ne_nil {edges : List Edge} (h : edges ≠ []) :
    writeExtras edges = ['|'].intercalate (edges.map writeExtra) := by
  cases edges with
  | nil => exact absurd rfl h
  | cons edge edges => rfl

theorem writeExtras_ne_nil (edges : List Edge) : writeExtras edges ≠ [] := by
  rcases edges with _ | ⟨edge, _ | ⟨next, edges⟩⟩ <;>
    simp [writeExtras, writeExtra, List.intercalate_cons_cons]

theorem readExtras_writeExtras {edges : List Edge}
    (h : ∀ edge ∈ edges, edge.governor < Text.indexBound ∧ '|' ∉ edge.relation.toList) :
    readExtras (some (writeExtras edges)) =
      .ok (edges.map fun edge => (edge.governor, edge.relation)) := by
  by_cases hnil : edges = []
  · subst hnil
    rfl
  · have hsplit : (writeExtras edges).splitOn '|' = edges.map writeExtra := by
      rw [writeExtras_of_ne_nil hnil]
      refine List.splitOn_intercalate _ (fun item hitem hbar => ?_) (by simpa using hnil)
      obtain ⟨edge, hedge, rfl⟩ := List.mem_map.mp hitem
      rcases List.mem_append.mp hbar with hbar | hbar
      · exact Text.not_mem_writeIndex (by decide) hbar
      · exact (h edge hedge).2 ((List.mem_cons.mp hbar).resolve_left (by decide))
    -- A written edge has a colon, so the column is not the mark of an empty one.
    have hmark : writeExtras edges ≠ ['_'] := by
      intro heq
      have hitem : ['_'] ∈ edges.map writeExtra := by
        rw [← hsplit, heq]
        decide
      obtain ⟨edge, -, hedge⟩ := List.mem_map.mp hitem
      have hcolon : ':' ∈ writeExtra edge := by simp [writeExtra]
      rw [hedge] at hcolon
      exact absurd hcolon (by decide)
    have hread : readOptional (some (writeExtras edges)) = some (writeExtras edges) := by
      simpa [readOptional] using hmark
    rw [readExtras, hread]
    simp only [hsplit, List.mapM_map]
    exact mapM_eq_ok fun edge hedge => readExtra_writeExtra (h edge hedge).1

theorem trimEnd_writeExtras {edges : List Edge} (h : edges.Nodup) :
    Text.trimEnd (writeExtras edges) = writeExtras
      (edges.map fun edge => if edges.getLast? = some edge then edge.trimmed else edge) := by
  rcases List.eq_nil_or_concat edges with rfl | ⟨front, last, rfl⟩
  · rfl
  · rw [List.concat_eq_append] at h ⊢
    -- An edge is listed once, so none before the last one is the last one.
    have hfront : (front.map fun edge =>
        if (front ++ [last]).getLast? = some edge then edge.trimmed else edge) = front := by
      refine (List.map_congr_left fun edge hedge => if_neg ?_).trans (List.map_id front)
      rw [List.getLast?_concat, Option.some_inj]
      rintro rfl
      exact (List.nodup_append.mp h).2.2 last hedge last (by simp) rfl
    have hlast : Text.trimEnd (writeExtra last) = writeExtra last.trimmed := by
      rw [writeExtra, Text.trimEnd_append_cons (by decide)]
      simp [writeExtra, Edge.trimmed, Edge.relabel]
    rw [writeExtras_of_ne_nil (by simp), List.map_append, List.map_singleton,
      Text.trimEnd_intercalate (by rw [hlast]; simp [writeExtra]), hlast,
      writeExtras_of_ne_nil (by simp), List.map_append, hfront]
    simp

/-! ### Lines -/

def writtenColumns (token : Token) (head relation : List Char) (extras : List Edge) :
    List (List Char) :=
  [Text.writeIndex token.index, token.word.toList, token.baseForm.toList, token.tag.toList, head,
    relation, (token.operator.getD "_").toList] ++ [writeExtras extras]

theorem isField_writeIndex (index : Nat) : IsField (Text.writeIndex index) :=
  ⟨Text.not_mem_writeIndex (by decide), Text.not_mem_writeIndex (by decide)⟩

theorem Head.isField_text (head : Head) : IsField head.text := by
  cases head with
  | none => exact ⟨by decide, by decide⟩
  | root => exact ⟨by decide, by decide⟩
  | token index => exact isField_writeIndex index

theorem isField_writeExtras {edges : List Edge} (h : ∀ edge ∈ edges, edge.Writable) :
    IsField (writeExtras edges) := by
  by_cases hnil : edges = []
  · subst hnil
    exact ⟨by decide, by decide⟩
  · have hmem {c : Char} (hcolon : c ≠ ':') (hbar : c ≠ '|') (hdigit : c.isDigit = false)
        (hrelation : ∀ edge ∈ edges, c ∉ edge.relation.toList) : c ∉ writeExtras edges := by
      rw [writeExtras_of_ne_nil hnil]
      intro hc
      rcases Text.mem_intercalate hc with hc | ⟨item, hitem, hc⟩
      · exact hbar (List.mem_singleton.mp hc)
      · obtain ⟨edge, hedge, rfl⟩ := List.mem_map.mp hitem
        rcases List.mem_append.mp hc with hc | hc
        · exact Text.not_mem_writeIndex hdigit hc
        · exact hrelation edge hedge ((List.mem_cons.mp hc).resolve_left hcolon)
    constructor
    case no_tab =>
      exact hmem (by decide) (by decide) (by decide)
        fun edge hedge => (h edge hedge).relation.no_tab
    case no_feed =>
      exact hmem (by decide) (by decide) (by decide)
        fun edge hedge => (h edge hedge).relation.no_feed

theorem isField_of_mem_writtenColumns {token : Token} (htoken : token.Writable)
    {head relation : List Char} (hhead : IsField head) (hrelation : IsField relation)
    {extras : List Edge} (hextras : ∀ edge ∈ extras, edge.Writable) :
    ∀ field ∈ writtenColumns token head relation extras, IsField field := by
  have hoperator : IsField (token.operator.getD "_").toList := by
    cases hmark : token.operator with
    | none => exact ⟨by decide, by decide⟩
    | some mark => exact (htoken.operator mark hmark).2
  simp only [writtenColumns, List.cons_append, List.nil_append, List.forall_mem_cons]
  exact ⟨isField_writeIndex token.index, htoken.word, htoken.baseForm, htoken.tag, hhead, hrelation,
    hoperator, isField_writeExtras hextras, by simp⟩

theorem columns_writtenColumns {token : Token} (htoken : token.Writable) {head relation : List Char}
    (hhead : IsField head) (hrelation : IsField relation) {extras : List Edge}
    (hextras : ∀ edge ∈ extras, edge.Writable) :
    columns (['\t'].intercalate (writtenColumns token head relation extras)) =
      writtenColumns token head relation extras := by
  have hfields := isField_of_mem_writtenColumns htoken hhead hrelation hextras
  rw [columns, if_pos (by simp [writtenColumns, List.intercalate_cons_cons]),
    List.splitOn_intercalate _ (fun field hfield => (hfields field hfield).no_tab)
      (by simp [writtenColumns])]

theorem feed_not_mem_writtenColumns {token : Token} (htoken : token.Writable)
    {head relation : List Char} (hhead : IsField head) (hrelation : IsField relation)
    {extras : List Edge} (hextras : ∀ edge ∈ extras, edge.Writable) :
    '\n' ∉ ['\t'].intercalate (writtenColumns token head relation extras) := by
  intro hfeed
  rcases Text.mem_intercalate hfeed with hfeed | ⟨field, hfield, hfeed⟩
  · exact absurd hfeed (by decide)
  · exact (isField_of_mem_writtenColumns htoken hhead hrelation hextras field hfield).no_feed hfeed

theorem isSkipped_writtenColumns (token : Token) (head relation : List Char) (extras : List Edge) :
    isSkipped (['\t'].intercalate (writtenColumns token head relation extras)) = false := by
  obtain ⟨digit, rest, hindex⟩ := List.exists_cons_of_ne_nil (Text.writeIndex_ne_nil token.index)
  have hdigit : digit.isDigit = true :=
    Text.isDigit_of_mem_writeIndex (hindex ▸ List.mem_cons_self)
  have hcomment : digit ≠ '#' := by
    rintro rfl
    cases hdigit
  rw [writtenColumns, hindex, List.cons_append, List.cons_append, List.intercalate_cons_cons]
  simp [isSkipped, Text.trimStart, isBlank_eq_false_of_isDigit hdigit, hcomment]

/-- Of all that a token's line says, white space at the end of the last relation is lost. -/
theorem trimEnd_writtenColumns {token : Token} {head relation : List Char} {extras : List Edge}
    (h : extras.Nodup) :
    Text.trimEnd (['\t'].intercalate (writtenColumns token head relation extras)) =
      ['\t'].intercalate (writtenColumns token head relation
        (extras.map fun edge => if extras.getLast? = some edge then edge.trimmed else edge)) := by
  have hlast := trimEnd_writeExtras h
  unfold writtenColumns
  rw [Text.trimEnd_intercalate (hlast ▸ writeExtras_ne_nil _), hlast]

/-- A row is read back from its columns. -/
theorem Row.read_writtenColumns {seen : List Nat} {token : Token} (htoken : token.Writable)
    (hseen : token.index ∉ seen) {head : Head}
    (hhead : ∀ index, head = .token index → index ≠ 0 ∧ index < Text.indexBound)
    (relation : List Char) {extras : List Edge}
    (hextras : ∀ edge ∈ extras, edge.governor < Text.indexBound ∧ '|' ∉ edge.relation.toList) :
    Row.read seen (writtenColumns token head.text relation extras) =
      .ok {
        token
        head
        relation := String.ofList relation
        extras := extras.map fun edge => (edge.governor, edge.relation) } := by
  refine Row.read_eq_ok_iff.mpr ⟨token.index, head, _, readIndex_writeIndex htoken.index_lt,
    htoken.index_ne_zero, hseen, Head.read_text hhead, readExtras_writeExtras hextras, ?_⟩
  have hoperator : (readOptional (some (token.operator.getD "_").toList)).map String.ofList =
      token.operator := by
    cases hmark : token.operator with
    | none => rfl
    | some mark =>
        have hne : mark.toList ≠ ['_'] := fun heq =>
          (htoken.operator mark hmark).1 (String.toList_injective heq)
        rw [Option.getD_some, readOptional, Option.filter_some_pos (by simpa using hne)]
        simp
  simp [hoperator]

end TokenTable

end DepNorm
