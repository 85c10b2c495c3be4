import DepNorm.Proofs.TokenTable.Row
import DepNorm.TokenTable.Reader
import Mathlib.Data.List.Forall2
import Mathlib.Data.List.Pairwise

/-!
The lines of a table, read as rows. A line that is not passed over describes one token and does not
refer to the lines around it: that a table is read depends on each such line by itself and on the
indices being different.
-/

namespace DepNorm.TokenTable

open Outcome

variable {lines : List (List Char)} {line : List Char} {row : Row}

/-! ### Lines that describe a token -/

/-- The lines that are not passed over, without the white space at their ends. -/
def tokenLines (lines : List (List Char)) : List (List Char) :=
  (lines.map Text.trimEnd).filter fun line => !isSkipped line

theorem tokenLines_lines (text : List Char) :
    tokenLines (Text.lines text) = tokenLines (text.splitOn '\n') := by
  obtain ⟨front, last, hpieces⟩ : ∃ front last, text.splitOn '\n' = front ++ [last] := by
    obtain hnil | ⟨front, last, hpieces⟩ := List.eq_nil_or_concat (text.splitOn '\n')
    · exact absurd hnil (List.splitOn_ne_nil _ _)
    · exact ⟨front, last, hpieces.trans List.concat_eq_append⟩
  have hfront : (front.map Text.dropReturn).map Text.trimEnd = front.map Text.trimEnd := by
    simp only [List.map_map, Function.comp_def, Text.trimEnd_dropReturn]
  simp only [Text.lines, hpieces, List.dropLast_concat, List.getLast?_concat, tokenLines,
    List.map_append, hfront, List.filter_append]
  congr 1
  cases last with
  | nil => decide
  | cons c last => rfl

theorem tokenLines_intercalate (h : ∀ line ∈ lines, '\n' ∉ line) :
    tokenLines (Text.lines (['\n'].intercalate lines)) = tokenLines lines := by
  rw [tokenLines_lines]
  cases lines with
  | nil => decide
  | cons line lines => rw [List.splitOn_intercalate _ h (List.cons_ne_nil _ _)]

/-! ### Reading the lines -/

theorem Row.read_eq_ok_iff_not_mem {seen : List Nat} {columns : List (List Char)} :
    Row.read seen columns = .ok row ↔
      Row.read [] columns = .ok row ∧ row.token.index ∉ seen := by
  constructor
  · intro h
    obtain ⟨index, word, baseForm, tag, head, relation, others, rfl⟩ :=
      Row.exists_columns_of_read h
    obtain ⟨number, governor, extras, hnumber, hzero, hseen, hrest⟩ := Row.read_eq_ok_iff.mp h
    refine ⟨Row.read_eq_ok_iff.mpr ⟨number, governor, extras, hnumber, hzero, by simp, hrest⟩, ?_⟩
    obtain ⟨-, -, rfl⟩ := hrest
    exact hseen
  · rintro ⟨h, hseen⟩
    obtain ⟨index, word, baseForm, tag, head, relation, others, rfl⟩ :=
      Row.exists_columns_of_read h
    obtain ⟨number, governor, extras, hnumber, hzero, -, hrest⟩ := Row.read_eq_ok_iff.mp h
    refine Row.read_eq_ok_iff.mpr ⟨number, governor, extras, hnumber, hzero, ?_, hrest⟩
    obtain ⟨-, -, rfl⟩ := hrest
    exact hseen

theorem readRows_cons_of_skipped (hskip : isSkipped (Text.trimEnd line) = true) (seen : List Nat)
    (number : Nat) : readRows seen number (line :: lines) = readRows seen (number + 1) lines := by
  simp [readRows, hskip]

theorem readRows_cons_of_ok (hskip : isSkipped (Text.trimEnd line) = false) {seen : List Nat}
    (hread : Row.read seen (columns (Text.trimEnd line)) = .ok row) (number : Nat) :
    readRows seen number (line :: lines) =
      (readRows (row.token.index :: seen) (number + 1) lines).map ((number, row) :: ·) := by
  simp only [readRows, hskip, hread, Bool.false_eq_true, if_false]
  cases readRows (row.token.index :: seen) (number + 1) lines <;> rfl

theorem readRows_cons_of_error (hskip : isSkipped (Text.trimEnd line) = false) {seen : List Nat}
    {cause : LineFault} (hread : Row.read seen (columns (Text.trimEnd line)) = .error cause)
    (number : Nat) : readRows seen number (line :: lines) = .error (.malformed number cause) := by
  simp [readRows, hskip, hread]

theorem readRows_cons_eq_ok_iff {seen : List Nat} {number : Nat}
    (hline : isSkipped (Text.trimEnd line) = false) {rows : List (Nat × Row)} :
    readRows seen number (line :: lines) = .ok rows ↔
      ∃ row rest, Row.read [] (columns (Text.trimEnd line)) = .ok row ∧ row.token.index ∉ seen ∧
        readRows (row.token.index :: seen) (number + 1) lines = .ok rest ∧
        rows = (number, row) :: rest := by
  constructor
  · intro h
    cases hread : Row.read seen (columns (Text.trimEnd line)) with
    | error cause =>
        rw [readRows_cons_of_error hline hread] at h
        cases h
    | ok row =>
        rw [readRows_cons_of_ok hline hread] at h
        obtain ⟨rest, hrest, rfl⟩ := exists_of_map_eq_ok h
        obtain ⟨hrow, hseen⟩ := Row.read_eq_ok_iff_not_mem.mp hread
        exact ⟨row, rest, hrow, hseen, hrest, rfl⟩
  · rintro ⟨row, rest, hrow, hseen, hrest, rfl⟩
    rw [readRows_cons_of_ok hline (Row.read_eq_ok_iff_not_mem.mpr ⟨hrow, hseen⟩), hrest]
    rfl

/-- Lines are read as rows exactly if each line that describes a token is read by itself and all
indices are different. -/
theorem exists_readRows_iff {seen : List Nat} {number : Nat} {content : List Row} :
    (∃ rows, readRows seen number lines = .ok rows ∧ rows.map Prod.snd = content) ↔
      List.Forall₂ (fun line row => Row.read [] (columns line) = .ok row) (tokenLines lines)
          content ∧
        content.Pairwise (·.token.index ≠ ·.token.index) ∧
        ∀ row ∈ content, row.token.index ∉ seen := by
  induction lines generalizing seen number content with
  | nil =>
      constructor
      · rintro ⟨rows, hrows, rfl⟩
        cases hrows
        exact ⟨.nil, .nil, by simp⟩
      · rintro ⟨hread, -⟩
        cases hread
        exact ⟨[], rfl, rfl⟩
  | cons line lines ih =>
      cases hskip : isSkipped (Text.trimEnd line) with
      | true => simpa [tokenLines, readRows_cons_of_skipped hskip, hskip] using ih
      | false =>
          have hlines : tokenLines (line :: lines) = Text.trimEnd line :: tokenLines lines := by
            simp [tokenLines, hskip]
          rw [hlines]
          constructor
          · rintro ⟨rows, hrows, rfl⟩
            obtain ⟨row, rest, hrow, hseen, hrest, rfl⟩ := (readRows_cons_eq_ok_iff hskip).mp hrows
            obtain ⟨hrest, hdistinct, hnew⟩ := ih.mp ⟨rest, hrest, rfl⟩
            refine ⟨.cons hrow hrest, .cons (fun other hother heq => ?_) hdistinct,
              List.forall_mem_cons.mpr ⟨hseen, fun other hother hmem => ?_⟩⟩
            · exact hnew other hother (heq ▸ List.mem_cons_self)
            · exact hnew other hother (List.mem_cons_of_mem _ hmem)
          · rintro ⟨hread, hdistinct, hnew⟩
            obtain ⟨row, rest, hrow, hrest, rfl⟩ := List.forall₂_cons_left_iff.mp hread
            obtain ⟨hfirst, hdistinct⟩ := List.pairwise_cons.mp hdistinct
            obtain ⟨hseen, hnew⟩ := List.forall_mem_cons.mp hnew
            -- The index of this row is one of those seen when the rest is read.
            have hnew : ∀ other ∈ rest, other.token.index ∉ row.token.index :: seen := by
              intro other hother hmem
              rcases List.mem_cons.mp hmem with heq | hmem
              · exact hfirst other hother heq.symm
              · exact hnew other hother hmem
            obtain ⟨rows, hrows, rfl⟩ := ih.mpr ⟨hrest, hdistinct, hnew⟩
            exact ⟨_, (readRows_cons_eq_ok_iff hskip).mpr ⟨row, rows, hrow, hseen, hrows, rfl⟩, rfl⟩

theorem of_readRows (hlines : ∀ line ∈ lines, '\n' ∉ line) {seen : List Nat} {number : Nat}
    {rows : List (Nat × Row)} (h : readRows seen number lines = .ok rows) :
    (∀ row ∈ rows, row.2.token.Writable ∧ row.2.token.index ∉ seen ∧
      ∀ edge ∈ row.2.edges, edge.Writable) ∧
    rows.Pairwise (·.2.token.index ≠ ·.2.token.index) := by
  obtain ⟨hread, hdistinct, hseen⟩ := exists_readRows_iff.mp ⟨rows, h, rfl⟩
  refine ⟨fun row hrow => ?_, (List.pairwise_map (f := Prod.snd)).mp hdistinct⟩
  have hmem : row.2 ∈ rows.map Prod.snd := List.mem_map_of_mem hrow
  obtain ⟨line, hline, hrow⟩ := exists_of_mem_right hread hmem
  obtain ⟨whole, hwhole, rfl⟩ := List.mem_map.mp (List.mem_filter.mp hline).1
  obtain ⟨htoken, -, hedges⟩ := Row.writable_of_read hrow fun column => isField_of_mem_columns
    fun hfeed => hlines whole hwhole (Text.trimEnd_subset whole hfeed)
  exact ⟨htoken, hseen row.2 hmem, hedges⟩

end DepNorm.TokenTable
