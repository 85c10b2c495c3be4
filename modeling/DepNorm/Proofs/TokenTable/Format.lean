import DepNorm.Proofs.TokenTable.Rows
import Mathlib.Data.List.TakeWhile

/-!
The format of a line, said without reference to the reader: which lines describe a token, and when
the columns of such a line are those of a row. Each column has a relation between its text and what
it stands for, and the reader finds what stands in this relation to the text, or fails if nothing
does.
-/

namespace DepNorm.TokenTable

open Outcome

/-! ### Numbers -/

/-- The field is the number in decimal digits, perhaps with zeros or a plus sign in front. Only
numbers of 64 bits count. -/
def IsNumeral (field : List Char) (number : Nat) : Prop :=
  ∃ digits, (field = digits ∨ field = '+' :: digits) ∧ digits ≠ [] ∧
    (∀ c ∈ digits, c.isDigit = true) ∧ Nat.ofDigitChars 10 digits 0 = number ∧
    number < Text.indexBound

theorem dropPlus_eq_iff {field digits : List Char} (hdigits : ∀ c ∈ digits, c.isDigit = true) :
    Text.dropPlus field = digits ↔ field = digits ∨ field = '+' :: digits := by
  have hplus (rest : List Char) : '+' :: rest ≠ digits := by
    rintro rfl
    exact absurd (hdigits '+' List.mem_cons_self) (by decide)
  unfold Text.dropPlus
  split
  · next rest =>
    rw [or_iff_right (hplus rest), List.cons.injEq, and_iff_right rfl]
  · next hfield =>
    exact (or_iff_left (hfield digits)).symm

theorem readIndex?_eq_some_iff {field : List Char} {number : Nat} :
    Text.readIndex? field = some number ↔ IsNumeral field number := by
  have hread : Text.readIndex? field = some number ↔ Text.dropPlus field ≠ [] ∧
      (∀ c ∈ Text.dropPlus field, c.isDigit = true) ∧
        Nat.ofDigitChars 10 (Text.dropPlus field) 0 = number ∧ number < Text.indexBound := by
    unfold Text.readIndex?
    dsimp only
    simp only [Option.ite_none_right_eq_some, Bool.and_eq_true, Bool.not_eq_true',
      List.isEmpty_eq_false_iff, List.all_eq_true, Option.some_inj, and_assoc]
    constructor
    · rintro ⟨hne, hdigits, hlt, rfl⟩
      exact ⟨hne, hdigits, rfl, hlt⟩
    · rintro ⟨hne, hdigits, rfl, hlt⟩
      exact ⟨hne, hdigits, hlt, rfl⟩
  rw [hread]
  constructor
  · rintro ⟨hne, hdigits, hvalue⟩
    exact ⟨_, (dropPlus_eq_iff hdigits).mp rfl, hne, hdigits, hvalue⟩
  · rintro ⟨digits, hfield, hne, hdigits, hvalue⟩
    rw [(dropPlus_eq_iff hdigits).mpr hfield]
    exact ⟨hne, hdigits, hvalue⟩

theorem isNumeral_iff {field : List Char} {number : Nat} :
    IsNumeral field number ↔ readIndex field = .ok number :=
  (readIndex_eq_ok_iff.trans readIndex?_eq_some_iff).symm

/-! ### Heads and secondary edges -/

/-- The field names the head. -/
def IsHead (field : List Char) : Head → Prop
  | .none => field = ['_']
  | .root => field = ['0']
  | .token index => field ≠ ['0'] ∧ IsNumeral field index

theorem head_read_eq_ok_iff {field : List Char} {head : Head} :
    Head.read field = .ok head ↔ IsHead field head := by
  have hmark {number : Nat} : ¬ IsNumeral ['_'] number := by
    rw [← readIndex?_eq_some_iff, show Text.readIndex? ['_'] = none by decide]
    exact Option.some_ne_none number ∘ Eq.symm
  by_cases hnone : field = ['_']
  · subst hnone
    cases head <;> simp [Head.read, IsHead, hmark]
  · by_cases hroot : field = ['0']
    · subst hroot
      cases head <;> simp [Head.read, IsHead]
    · rw [Head.read, if_neg hnone, if_neg hroot]
      constructor
      · intro h
        obtain ⟨index, hindex, rfl⟩ := exists_of_map_eq_ok h
        exact ⟨hroot, isNumeral_iff.mpr hindex⟩
      · intro h
        cases head with
        | none => exact absurd h hnone
        | root => exact absurd h hroot
        | token index => rw [isNumeral_iff.mp h.2, Except.map]

/-- The item names a head and a relation, which the first colon separates. -/
def IsItem (item : List Char) (extra : Nat × String) : Prop :=
  ∃ head, item = head ++ ':' :: extra.2.toList ∧ ':' ∉ head ∧ IsNumeral head extra.1

theorem readExtra_eq_ok_iff {item : List Char} {extra : Nat × String} :
    readExtra item = .ok extra ↔ IsItem item extra := by
  constructor
  · intro h
    unfold readExtra at h
    split at h
    · cases h
    · next c relation hdrop =>
      obtain ⟨head, hhead, rfl⟩ := exists_of_map_eq_ok h
      obtain rfl : c = ':' := by
        have hfirst := List.head?_dropWhile_not (· != ':') item
        rw [hdrop] at hfirst
        simpa using hfirst
      refine ⟨item.takeWhile (· != ':'), ?_, fun hmem => ?_, isNumeral_iff.mpr hhead⟩
      · rw [String.toList_ofList, ← hdrop, List.takeWhile_append_dropWhile]
      · simpa using List.all_eq_true.mp List.all_takeWhile _ hmem
  · obtain ⟨number, relation⟩ := extra
    rintro ⟨head, rfl, hcolon, hnumeral⟩
    have hpass : ∀ c ∈ head, (c != ':') = true := fun c hc =>
      bne_iff_ne.mpr fun heq => hcolon (heq ▸ hc)
    rw [readExtra, List.dropWhile_append_of_pos hpass, List.takeWhile_append_of_pos hpass]
    simp [isNumeral_iff.mp hnumeral, Except.map]

/-- The column lists the secondary edges. It may be missing, or be marked as empty. -/
def IsExtras (column : Option (List Char)) (extras : List (Nat × String)) : Prop :=
  match column with
  | none => extras = []
  | some field =>
    if field = ['_'] then extras = [] else List.Forall₂ IsItem (field.splitOn '|') extras

theorem readExtras_eq_ok_iff {column : Option (List Char)} {extras : List (Nat × String)} :
    readExtras column = .ok extras ↔ IsExtras column extras := by
  cases column with
  | none => simp [readExtras, readOptional, IsExtras, eq_comm]
  | some field =>
      by_cases hfield : field = ['_']
      · subst hfield
        have hread : readOptional (some ['_']) = none := by simp [readOptional]
        simp [readExtras, hread, IsExtras, eq_comm]
      · have hread : readOptional (some field) = some field := by simp [readOptional, hfield]
        simp only [readExtras, hread, IsExtras, if_neg hfield, mapM_eq_ok_iff, readExtra_eq_ok_iff]

/-! ### Lines -/

/-- The line is neither blank nor a comment: it has a character that is not blank, and the first one
is no `#`. -/
def IsTokenLine (line : List Char) : Prop :=
  ∃ c, line.find? (fun c => !isBlank c) = some c ∧ c ≠ '#'

theorem isSkipped_eq_false_iff {line : List Char} :
    isSkipped (Text.trimEnd line) = false ↔ IsTokenLine line := by
  have hfirst : (Text.trimStart (Text.trimEnd line)).head? = line.find? fun c => !isBlank c := by
    obtain ⟨blanks, hblanks, hline⟩ := Text.exists_eq_trimEnd_append line
    have hnone : blanks.find? (fun c => !isBlank c) = none := by simpa using hblanks
    conv_rhs => rw [hline]
    rw [List.find?_append, hnone, Option.or_none, List.find?_not_eq_head?_dropWhile]
    rfl
  unfold isSkipped IsTokenLine
  rw [← hfirst]
  cases Text.trimStart (Text.trimEnd line) <;> simp

/-- The columns are those of the row, counted from zero. -/
structure IsRow (columns : List (List Char)) (row : Row) : Prop where
  index : ∃ field, columns[0]? = some field ∧ IsNumeral field row.token.index
  index_pos : 0 < row.token.index
  word : columns[1]? = some row.token.word.toList
  baseForm : columns[2]? = some row.token.baseForm.toList
  tag : columns[3]? = some row.token.tag.toList
  head : ∃ field, columns[4]? = some field ∧ IsHead field row.head
  relation : columns[5]? = some row.relation.toList
  operator : row.token.operator = (columns[6]?.filter (· != ['_'])).map String.ofList
  extras : IsExtras columns[7]? row.extras

theorem row_read_eq_ok_iff {columns : List (List Char)} {row : Row} :
    Row.read [] columns = .ok row ↔ IsRow columns row := by
  constructor
  · intro h
    obtain ⟨index, word, baseForm, tag, head, relation, others, rfl⟩ := Row.exists_columns_of_read h
    obtain ⟨number, governor, extras, hnumber, hzero, -, hgovernor, hextras, rfl⟩ :=
      Row.read_eq_ok_iff.mp h
    exact {
      index := ⟨index, rfl, isNumeral_iff.mpr hnumber⟩
      index_pos := Nat.pos_of_ne_zero hzero
      word := congrArg some String.toList_ofList.symm
      baseForm := congrArg some String.toList_ofList.symm
      tag := congrArg some String.toList_ofList.symm
      head := ⟨head, rfl, head_read_eq_ok_iff.mp hgovernor⟩
      relation := congrArg some String.toList_ofList.symm
      operator := rfl
      extras := readExtras_eq_ok_iff.mp hextras }
  · rintro ⟨⟨index, hindex, hnumber⟩, hpos, hword, hbaseForm, htag, ⟨head, hhead, hgovernor⟩,
      hrelation, hoperator, hextras⟩
    obtain ⟨⟨number, word, baseForm, tag, operator⟩, governor, relation, extras⟩ := row
    rcases columns with _ | ⟨_, _ | ⟨_, _ | ⟨_, _ | ⟨_, _ | ⟨_, _ | ⟨_, others⟩⟩⟩⟩⟩⟩
    iterate 6 cases hrelation
    cases hindex
    cases hword
    cases hbaseForm
    cases htag
    cases hhead
    cases hrelation
    obtain rfl : operator = (others[0]?.filter (· != ['_'])).map String.ofList := hoperator
    refine Row.read_eq_ok_iff.mpr ⟨number, governor, extras, isNumeral_iff.mp hnumber, hpos.ne',
      List.not_mem_nil, head_read_eq_ok_iff.mpr hgovernor, readExtras_eq_ok_iff.mpr hextras, ?_⟩
    simp [readOptional]

end DepNorm.TokenTable
