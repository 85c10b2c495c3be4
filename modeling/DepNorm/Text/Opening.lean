/-!
Taking a known opening off a text, once or as often as it is there.
-/

namespace DepNorm.Text

/-- What follows the opening, if the text has it. -/
def after? : List Char → List Char → Option (List Char)
  | [], text => some text
  | _ :: _, [] => none
  | c :: opening, d :: text => if c = d then after? opening text else none

theorem after?_eq_some_iff {opening text rest : List Char} :
    after? opening text = some rest ↔ text = opening ++ rest := by
  induction opening generalizing text with
  | nil => simp [after?]
  | cons c opening ih =>
    cases text with
    | nil => simp [after?]
    | cons d text =>
      by_cases h : c = d
      · simp [after?, h, ih]
      · simp [after?, h, Ne.symm h]

/-- What is left when the opening has been taken off as often as it is there. -/
def afterAll (opening text : List Char) : List Char :=
  match after? opening text with
  | some rest => if rest.length < text.length then afterAll opening rest else text
  | none => text
termination_by text.length

theorem length_lt_of_after? {opening text rest : List Char} (hopening : opening ≠ [])
    (h : after? opening text = some rest) : rest.length < text.length := by
  have hpos := List.length_pos_iff.mpr hopening
  rw [after?_eq_some_iff.mp h, List.length_append]
  omega

theorem afterAll_append {opening : List Char} (hopening : opening ≠ []) (text : List Char) :
    afterAll opening (opening ++ text) = afterAll opening text := by
  have hafter : after? opening (opening ++ text) = some text := after?_eq_some_iff.mpr rfl
  rw [afterAll, hafter]
  exact if_pos (length_lt_of_after? hopening hafter)

theorem afterAll_of_not_isPrefix {opening text : List Char} (h : ¬ opening <+: text) :
    afterAll opening text = text := by
  rw [afterAll]
  split
  · next rest hafter => exact absurd ⟨rest, (after?_eq_some_iff.mp hafter).symm⟩ h
  · rfl

theorem afterAll_replicate_append {opening text : List Char} (hopening : opening ≠ [])
    (h : ¬ opening <+: text) (count : Nat) :
    afterAll opening ((List.replicate count opening).flatten ++ text) = text := by
  induction count with
  | zero => exact afterAll_of_not_isPrefix h
  | succ count ih =>
      rw [List.replicate_succ, List.flatten_cons, List.append_assoc, afterAll_append hopening, ih]

theorem exists_replicate_append_afterAll {opening : List Char} (hopening : opening ≠ [])
    (text : List Char) : ∃ count,
      text = (List.replicate count opening).flatten ++ afterAll opening text ∧
        ¬ opening <+: afterAll opening text := by
  fun_induction afterAll opening text with
  | case1 text rest hafter hshorter ih =>
      obtain ⟨count, hrest, hend⟩ := ih
      refine ⟨count + 1, ?_, hend⟩
      rw [List.replicate_succ, List.flatten_cons, List.append_assoc, ← hrest,
        ← after?_eq_some_iff.mp hafter]
  | case2 text rest hafter hlonger => exact absurd (length_lt_of_after? hopening hafter) hlonger
  | case3 text hafter =>
      refine ⟨0, rfl, fun ⟨rest, hrest⟩ => ?_⟩
      rw [after?_eq_some_iff.mpr hrest.symm] at hafter
      cases hafter

end DepNorm.Text
