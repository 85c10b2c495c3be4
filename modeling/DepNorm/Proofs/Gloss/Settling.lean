import DepNorm.Proofs.Configuration
import DepNorm.Proofs.Gloss.LowerBound
import DepNorm.Proofs.Rounds
import Mathlib.Data.String.Basic

/-!
Texts that get shorter. A rule that fires takes more bytes off the front of a text than it puts
there. Upper case may take more bytes, but what a rule gives a capital begins with an operator or a
quantity, and so with a character of ASCII. So a rule has fired exactly if the text has changed, and
a text that is normalized again and again settles.
-/

namespace DepNorm

open String (utf8Len)

namespace Gloss

variable {text result : List Char}

/-! ### Bytes -/

theorem utf8Size_toUpper : ∀ c : Char, c.toNat < 128 → c.toUpper.utf8Size = c.utf8Size :=
  forall_ascii (by decide +kernel)

theorem utf8Len_capitalize {c : Char} (h : c.toNat < 128) (rest : List Char) :
    utf8Len (Text.capitalize (c :: rest)) = utf8Len (c :: rest) := by
  rw [Text.capitalize_cons_of_ascii h, String.utf8Len_cons, String.utf8Len_cons,
    utf8Size_toUpper c h]

-- Beyond ASCII a capital may be longer.
example : utf8Len "ΐ".toList = 2 ∧ utf8Len (Text.capitalize "ΐ".toList) = 6 := by decide +kernel

/-! ### Rules that fire -/

theorem utf8Len_lt_of_thereBe? (h : thereBe? text = some result) :
    utf8Len result < utf8Len text := by
  obtain ⟨-, rest, before, after, ⟨first, -, form, -, rfl⟩, ⟨⟨pronoun, -, rfl⟩, -⟩, hquantified⟩ :=
    thereBe?_eq_some_iff.mp h
  have hlength : utf8Len result ≤ 5 + utf8Len (before ++ ' ' :: after) := by
    rcases hquantified with ⟨hoperator, rfl⟩ | ⟨-, rfl⟩
    · obtain ⟨c, tail, hbody, hascii, -⟩ := hoperator.exists_cons
      rw [hbody, utf8Len_capitalize hascii]
      omega
    · rw [String.utf8Len_append]
      exact le_rfl
  have hhere : utf8Len "here ".toList = 5 := by decide
  have hspace : ' '.utf8Size = 1 := by decide
  have hfirst : 0 < first.utf8Size := first.utf8Size_pos
  simp only [String.utf8Len_cons, String.utf8Len_append] at hlength ⊢
  omega

theorem utf8Len_lt_of_atLeast? (h : atLeast? text = some result) :
    utf8Len result < utf8Len text := by
  obtain ⟨rest, ⟨first, -, rfl⟩, hquantity, rfl⟩ := atLeast?_eq_some_iff.mp h
  obtain ⟨c, tail, rfl, hascii⟩ := exists_cons_of_hasQuantity hquantity
  have hfirst : 0 < first.utf8Size := first.utf8Size_pos
  rw [utf8Len_capitalize hascii, String.utf8Len_cons first, String.utf8Len_append]
  omega

theorem toUpper_eq_of_isDigit : ∀ c : Char, c.toNat < 128 → c.isDigit = true → c.toUpper = c :=
  forall_ascii (by decide +kernel)

theorem not_counts_of_second {first : Char} {tail rest : List Char} :
    ¬ Counts (first :: 't' :: rest) tail := by
  rintro ⟨word, hword, heq⟩
  have hwords : ∀ word ∈ quantityWords, 1 < word.toList.length ∧ word.toList[1]? ≠ some 't' := by
    decide +kernel
  obtain ⟨hlength, hne⟩ := hwords word hword
  rw [← List.getElem?_append_left hlength, ← heq] at hne
  exact hne rfl

theorem atLeast?_eq_none_of_atLeast? (h : atLeast? text = some result) :
    atLeast? result = none := by
  obtain ⟨rest, -, hquantity, rfl⟩ := atLeast?_eq_some_iff.mp h
  refine Option.eq_none_iff_forall_ne_some.mpr fun again hagain => ?_
  obtain ⟨rest', ⟨first, hfirst, heq⟩, -⟩ := atLeast?_eq_some_iff.mp hagain
  obtain ⟨c, tail, rfl, hascii⟩ := exists_cons_of_hasQuantity hquantity
  rw [Text.capitalize_cons_of_ascii hascii] at heq
  obtain ⟨hc, htail⟩ := List.cons_eq_cons.mp heq
  have hnot (more : List Char) : ¬ Counts (c :: tail) more := fun hcounts => by
    rw [htail] at hcounts
    exact not_counts_of_second hcounts
  rcases hquantity with (⟨digit, _, hdigits, hdigit⟩ | ⟨_, hcounts, -⟩) | ⟨_, _, hcounts, -⟩
  · cases hdigits
    rw [toUpper_eq_of_isDigit c hascii hdigit] at hc
    rw [hc] at hdigit
    rcases List.mem_pair.mp hfirst with rfl | rfl <;> cases hdigit
  · exact hnot _ hcounts
  · exact hnot _ hcounts

end Gloss

namespace Filters

variable {filters : Filters} {text : String}

/-! ### Turns -/

abbrev TextRule := Rule × (List Char → Option (List Char))

/-- What a rule in its turn leaves of a text. -/
def turn (filters : Filters) (text : String) (rule : TextRule) : String :=
  if rule.1 ∈ filters then ((rule.2 text.toList).map String.ofList).getD text else text

/-- The rules whose turn changes the text, each on what the one before has left. -/
def changing (filters : Filters) : List TextRule → String → List Rule
  | [], _ => []
  | rule :: rules, text =>
    let next := filters.turn text rule
    if next = text then changing filters rules next else rule.1 :: changing filters rules next

theorem turn_of_not_mem {rule : TextRule} (h : rule.1 ∉ filters) (text : String) :
    filters.turn text rule = text :=
  if_neg h

theorem turn_of_eq_none {rule : TextRule} (h : rule.2 text.toList = none) :
    filters.turn text rule = text := by
  rw [turn, h]
  split <;> rfl

theorem turn_of_eq_some {rule : TextRule} {changed : List Char} (hrule : rule.1 ∈ filters)
    (h : rule.2 text.toList = some changed) : filters.turn text rule = String.ofList changed := by
  rw [turn, if_pos hrule, h]
  rfl

theorem utf8Len_lt_of_mem_textRules {rule : TextRule} (hrule : rule ∈ textRules)
    {text changed : List Char} (h : rule.2 text = some changed) :
    utf8Len changed < utf8Len text := by
  rcases List.mem_pair.mp hrule with rfl | rfl
  · exact Gloss.utf8Len_lt_of_thereBe? h
  · exact Gloss.utf8Len_lt_of_atLeast? h

theorem utf8ByteSize_ofList_lt {rule : TextRule} {changed : List Char} (hrule : rule ∈ textRules)
    (h : rule.2 text.toList = some changed) :
    (String.ofList changed).utf8ByteSize < text.utf8ByteSize := by
  have hlt := utf8Len_lt_of_mem_textRules hrule h
  rwa [← String.utf8ByteSize_ofList, ← String.utf8ByteSize_ofList, String.ofList_toList] at hlt

theorem utf8ByteSize_turn_lt {rule : TextRule} (hrule : rule ∈ textRules)
    (h : filters.turn text rule ≠ text) :
    (filters.turn text rule).utf8ByteSize < text.utf8ByteSize := by
  by_cases hmem : rule.1 ∈ filters
  · cases hchange : rule.2 text.toList with
    | none => exact absurd (turn_of_eq_none hchange) h
    | some changed =>
        rw [turn_of_eq_some hmem hchange]
        exact utf8ByteSize_ofList_lt hrule hchange
  · exact absurd (turn_of_not_mem hmem text) h

theorem chain_cons_of_mem {rule : Rule} {step : Step String} {rules : List (Rule × Step String)}
    {next last : String} {changes : Nat} {passes : List Pass} (hrule : rule ∈ filters)
    (hstep : step text = .ok (next, changes))
    (hrest : filters.chain rules next = .ok (last, passes)) :
    filters.chain ((rule, step) :: rules) text = .ok (last, ⟨rule, true, changes⟩ :: passes) := by
  rw [chain, if_pos hrule, hstep]
  change filters.chain rules next >>= _ = _
  rw [hrest]
  rfl

/-- The first of some rules has its turn, and its pass counts a change exactly if it made one. -/
theorem exists_chain_cons (filters : Filters) {rule : TextRule} (hrule : rule ∈ textRules)
    (text : String) :
    ∃ pass : Pass, pass.rule = rule.1 ∧ (0 < pass.changes ↔ filters.turn text rule ≠ text) ∧
      ∀ rules last passes,
        filters.chain (List.map textStep rules) (filters.turn text rule) = .ok (last, passes) →
          filters.chain ((rule :: rules).map textStep) text = .ok (last, pass :: passes) := by
  by_cases hmem : rule.1 ∈ filters
  · cases hchange : rule.2 text.toList with
    | none =>
        have hturn : filters.turn text rule = text := turn_of_eq_none hchange
        have hstep : (textStep rule).2 text = .ok (text, 0) := by simp only [textStep, hchange]
        refine ⟨⟨rule.1, true, 0⟩, rfl, by simp [hturn], fun rules last passes hrest => ?_⟩
        exact chain_cons_of_mem hmem hstep (hturn ▸ hrest)
    | some changed =>
        have hturn := turn_of_eq_some hmem hchange
        have hne : filters.turn text rule ≠ text := fun h => by
          have hlt := utf8ByteSize_ofList_lt hrule hchange
          rw [← hturn, h] at hlt
          exact lt_irrefl _ hlt
        have hstep : (textStep rule).2 text = .ok (String.ofList changed, 1) := by
          simp only [textStep, hchange]
        refine ⟨⟨rule.1, true, 1⟩, rfl, by simp [hne], fun rules last passes hrest => ?_⟩
        exact chain_cons_of_mem hmem hstep (hturn ▸ hrest)
  · have hturn := turn_of_not_mem hmem text
    refine ⟨⟨rule.1, false, 0⟩, rfl, by simp [hturn], fun rules last passes hrest => ?_⟩
    rw [hturn] at hrest
    rw [List.map_cons, textStep, chain, if_neg hmem, hrest]
    rfl

theorem exists_passes (filters : Filters) {rules : List TextRule} (hrules : rules ⊆ textRules)
    (text : String) :
    ∃ passes, filters.chain (rules.map textStep) text =
        .ok (rules.foldl filters.turn text, passes) ∧
      Pass.fired passes = filters.changing rules text := by
  induction rules generalizing text with
  | nil => exact ⟨[], rfl, rfl⟩
  | cons rule rules ih =>
      obtain ⟨hrule, hrules⟩ := List.cons_subset.mp hrules
      obtain ⟨passes, hpasses, hfired⟩ := ih hrules (filters.turn text rule)
      obtain ⟨pass, hpass, hchanges, hchain⟩ := exists_chain_cons filters hrule text
      refine ⟨pass :: passes, hchain _ _ _ hpasses, ?_⟩
      rw [changing, ← hfired, ← hpass]
      by_cases hturn : filters.turn text rule = text
      · simp [Pass.fired, hturn, hchanges]
      · simp [Pass.fired, hturn, hchanges]

/-! ### Normalization again and again -/

def gloss (filters : Filters) (text : String) : String := (filters.normalizeText text).1

theorem gloss_eq_and_fired_eq (filters : Filters) (text : String) :
    filters.gloss text = textRules.foldl filters.turn text ∧
      Pass.fired (filters.normalizeText text).2 = filters.changing textRules text := by
  obtain ⟨passes, hpasses, hfired⟩ :=
    exists_passes filters (List.Subset.refl textRules) text
  have hresult := Except.ok.inj ((normalizeText_eq_chain filters text).trans hpasses)
  rw [gloss, hresult]
  exact ⟨rfl, hfired⟩

theorem utf8ByteSize_foldl_turn {rules : List TextRule} (hrules : rules ⊆ textRules)
    (text : String) :
    rules.foldl filters.turn text = text ∨
      (rules.foldl filters.turn text).utf8ByteSize < text.utf8ByteSize := by
  induction rules generalizing text with
  | nil => exact .inl rfl
  | cons rule rules ih =>
      obtain ⟨hrule, hrules⟩ := List.cons_subset.mp hrules
      rw [List.foldl_cons]
      by_cases hturn : filters.turn text rule = text
      · rw [hturn]
        exact ih hrules text
      · have hlt := utf8ByteSize_turn_lt hrule hturn
        rcases ih hrules (filters.turn text rule) with heq | hrest
        · rw [heq]
          exact .inr hlt
        · exact .inr (hrest.trans hlt)

/-- A round that makes another text of a text makes a shorter one. -/
theorem lessens_gloss (filters : Filters) :
    Lessens (fun text next => next = filters.gloss text ∧ next ≠ text) (fun _ => True)
      String.utf8ByteSize := by
  rintro text next - ⟨rfl, hne⟩
  refine ⟨trivial, ?_⟩
  rw [(gloss_eq_and_fired_eq filters text).1] at hne ⊢
  exact (utf8ByteSize_foldl_turn (List.Subset.refl textRules) text).resolve_left hne

theorem iterate_of_rounds {count : Nat} {text last : String}
    (h : Rounds (fun text next => next = filters.gloss text ∧ next ≠ text) count text last) :
    filters.gloss^[count] text = last := by
  induction h with
  | none => rfl
  | next first _ ih =>
      rw [Function.iterate_succ_apply, ← first.1]
      exact ih

/-- Each rule in its turn works on what the one before has left. The rules that report a change are
those whose turn changes the text, and such a turn makes it shorter. After as many rounds as the
text has bytes, if not before, normalization no longer changes it; the rule for lower bounds takes
no second round on what it has left. -/
theorem shorter_of_normalizeText (filters : Filters) (text : String) :
    (filters.gloss text = textRules.foldl filters.turn text ∧
      Pass.fired (filters.normalizeText text).2 = filters.changing textRules text ∧
      ∀ rule ∈ textRules, ∀ text, filters.turn text rule ≠ text →
        (filters.turn text rule).utf8ByteSize < text.utf8ByteSize) ∧
    (∃ rounds ≤ text.utf8ByteSize, filters.gloss (filters.gloss^[rounds] text) =
      filters.gloss^[rounds] text) ∧
    ∀ sentence result, Gloss.atLeast? sentence = some result → Gloss.atLeast? result = none := by
  obtain ⟨hgloss, hfired⟩ := gloss_eq_and_fired_eq filters text
  refine ⟨⟨hgloss, hfired, fun rule hrule text => utf8ByteSize_turn_lt hrule⟩, ?_,
    fun sentence result => Gloss.atLeast?_eq_none_of_atLeast?⟩
  obtain ⟨rounds, last, hrounds, -, hlast⟩ :=
    (lessens_gloss filters).exists_last (a := text) trivial
  have hbound := (lessens_gloss filters).count_add_size_le trivial hrounds
  refine ⟨rounds, by omega, ?_⟩
  rw [iterate_of_rounds hrounds]
  by_contra hne
  exact hlast _ ⟨rfl, hne⟩

/-- Both rules change a sentence, the second on what the first has left. -/
theorem shorter_of_normalizeText_both :
    Pass.fired (standard.normalizeText "There are at least three cats who purr").2 =
        [.thereBe, .atLeast] ∧
      standard.gloss "There are at least three cats who purr" = "Three cats purr" ∧
      Gloss.atLeast? "Three cats purr".toList = none := by
  obtain ⟨⟨hgloss, hfired, -⟩, -, hnone⟩ :=
    shorter_of_normalizeText standard "There are at least three cats who purr"
  refine ⟨hfired.trans (by decide +kernel), hgloss.trans (by decide +kernel), ?_⟩
  exact hnone "At least three cats purr".toList _ (by decide +kernel)

end Filters

end DepNorm
