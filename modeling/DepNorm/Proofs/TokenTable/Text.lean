import DepNorm.TokenTable.Row

/-!
The characters that a table cannot have in a column: what splitting takes out of a text, and how
lines that are written one below the other are cut apart again. White space at the end of a line is
cut off up to the last character that is not blank, so a line loses white space of its last column
only.
-/

namespace DepNorm

theorem isBlank_eq_false_of_isDigit {c : Char} (h : c.isDigit = true) : isBlank c = false := by
  have hrange : 48 ≤ c.toNat ∧ c.toNat ≤ 57 := by
    rw [Char.isDigit, Bool.and_eq_true, decide_eq_true_eq, decide_eq_true_eq] at h
    exact h
  simp only [isBlank, CodeRanges.has, blankRanges, List.any_cons, List.any_nil,
    Bool.or_eq_false_iff, Bool.and_eq_false_iff, decide_eq_false_iff_not, and_true]
  omega

namespace Text

variable {text line : List Char} {c : Char}

/-! ### White space at the end -/

theorem trimEnd_append {back : List Char} (h : trimEnd back ≠ []) (front : List Char) :
    trimEnd (front ++ back) = front ++ trimEnd back := by
  unfold trimEnd at h ⊢
  rw [List.reverse_append, List.dropWhile_append, if_neg (by simpa using h), List.reverse_append,
    List.reverse_reverse]

theorem trimEnd_cons (hc : isBlank c = false) (back : List Char) :
    trimEnd (c :: back) = c :: trimEnd back := by
  -- Of blank characters nothing is left, and `trimEnd_append` asks for something.
  by_cases hback : trimEnd back = []
  · rw [trimEnd, List.reverse_eq_nil_iff] at hback
    simp [trimEnd, List.dropWhile_append, hback, hc]
  · exact trimEnd_append hback [c]

theorem trimEnd_append_cons (hc : isBlank c = false) (front back : List Char) :
    trimEnd (front ++ c :: back) = front ++ c :: trimEnd back := by
  rw [trimEnd_append (by simp [trimEnd_cons hc]), trimEnd_cons hc]

theorem trimEnd_subset (line : List Char) : trimEnd line ⊆ line := by
  intro c hc
  exact List.mem_reverse.mp ((List.dropWhile_subset _) (List.mem_reverse.mp hc))

theorem exists_eq_trimEnd_append (line : List Char) :
    ∃ blanks, (∀ c ∈ blanks, isBlank c = true) ∧ line = trimEnd line ++ blanks := by
  refine ⟨(line.reverse.takeWhile isBlank).reverse, fun c hc => ?_, ?_⟩
  · exact List.all_eq_true.mp List.all_takeWhile c (List.mem_reverse.mp hc)
  · rw [trimEnd, ← List.reverse_append, List.takeWhile_append_dropWhile, List.reverse_reverse]

theorem trimEnd_dropReturn (line : List Char) : trimEnd (dropReturn line) = trimEnd line := by
  unfold dropReturn
  split
  · next hlast =>
    obtain ⟨front, rfl⟩ := List.getLast?_eq_some_iff.mp hlast
    simp [trimEnd, show isBlank '\r' = true by decide]
  · rfl

theorem intercalate_concat (separator last : List Char) (front : List (List Char)) :
    separator.intercalate (front ++ [last]) = front.flatMap (· ++ separator) ++ last := by
  induction front with
  | nil => simp
  | cons first front ih =>
      rw [List.cons_append, List.intercalate_cons_of_ne_nil (by simp), ih, List.flatMap_cons,
        List.append_assoc _ _ last]

theorem trimEnd_intercalate {last : List Char} (h : trimEnd last ≠ []) (separator : List Char)
    (front : List (List Char)) :
    trimEnd (separator.intercalate (front ++ [last])) =
      separator.intercalate (front ++ [trimEnd last]) := by
  rw [intercalate_concat, trimEnd_append h, intercalate_concat]

theorem mem_intercalate {separator : List Char} {pieces : List (List Char)}
    (h : c ∈ separator.intercalate pieces) : c ∈ separator ∨ ∃ piece ∈ pieces, c ∈ piece := by
  rcases List.eq_nil_or_concat pieces with rfl | ⟨front, last, rfl⟩
  · cases h
  · rw [List.concat_eq_append, intercalate_concat] at h
    rcases List.mem_append.mp h with h | h
    · obtain ⟨piece, hpiece, h⟩ := List.mem_flatMap.mp h
      rcases List.mem_append.mp h with h | h
      · exact .inr ⟨piece, by simp [hpiece], h⟩
      · exact .inl h
    · exact .inr ⟨last, by simp, h⟩

/-! ### Pieces of a text -/

theorem of_mem_splitOnP {separates : Char → Bool} {piece : List Char}
    (hpiece : piece ∈ text.splitOnP separates) (hc : c ∈ piece) :
    c ∈ text ∧ separates c = false := by
  induction text generalizing piece with
  | nil =>
      rw [List.splitOnP_nil, List.mem_singleton] at hpiece
      rw [hpiece] at hc
      cases hc
  | cons first text ih =>
      rw [List.splitOnP_cons_eq_if_modifyHead] at hpiece
      obtain ⟨piece₁, pieces, hpieces⟩ :=
        List.exists_cons_of_ne_nil (List.splitOnP_ne_nil separates text)
      rw [hpieces] at hpiece ih
      -- The first character is a separator, or it opens the first piece of the rest.
      split at hpiece
      · rcases List.mem_cons.mp hpiece with rfl | hpiece
        · cases hc
        · exact (ih hpiece hc).imp_left (List.mem_cons_of_mem _)
      · next hfirst =>
        rcases List.mem_cons.mp hpiece with rfl | hpiece
        · rcases List.mem_cons.mp hc with rfl | hc
          · exact ⟨List.mem_cons_self, Bool.eq_false_iff.mpr hfirst⟩
          · exact (ih List.mem_cons_self hc).imp_left (List.mem_cons_of_mem _)
        · exact (ih (List.mem_cons_of_mem _ hpiece) hc).imp_left (List.mem_cons_of_mem _)

theorem of_mem_splitOn {separator : Char} {piece : List Char}
    (hpiece : piece ∈ text.splitOn separator) : separator ∉ piece ∧ piece ⊆ text := by
  rw [List.splitOn_eq_splitOnP] at hpiece
  refine ⟨fun hc => ?_, fun c hc => (of_mem_splitOnP hpiece hc).1⟩
  simpa using (of_mem_splitOnP hpiece hc).2

/-! ### Lines -/

theorem dropReturn_subset (line : List Char) : dropReturn line ⊆ line := by
  unfold dropReturn
  split
  · exact List.dropLast_subset line
  · exact List.Subset.refl line

theorem not_mem_of_mem_lines (h : line ∈ lines text) : '\n' ∉ line := by
  rcases List.mem_append.mp h with hline | hline
  · obtain ⟨piece, hpiece, rfl⟩ := List.mem_map.mp hline
    have hpiece := (of_mem_splitOn (List.dropLast_subset _ hpiece)).1
    exact fun hmem => hpiece (dropReturn_subset piece hmem)
  · rw [Option.mem_toList, Option.filter_eq_some_iff] at hline
    exact (of_mem_splitOn (List.mem_of_getLast? hline.1)).1

/-- Lines that are written with a line feed after each are read back, but for carriage returns. -/
theorem lines_flatMap {written : List (List Char)} (h : ∀ line ∈ written, '\n' ∉ line) :
    lines (written.flatMap (· ++ ['\n'])) = written.map dropReturn := by
  have hpieces : (written.flatMap (· ++ ['\n'])).splitOn '\n' = written ++ [[]] := by
    induction written with
    | nil => rfl
    | cons line written ih =>
        rw [List.flatMap_cons, List.append_assoc, List.singleton_append,
          List.splitOn_append_cons_self_of_not_mem (h line List.mem_cons_self),
          ih fun other hother => h other (List.mem_cons_of_mem _ hother), List.cons_append]
  simp [lines, hpieces]

end Text

end DepNorm
