import DepNorm.Regex.Capture
import Mathlib.Data.List.Infix
import Mathlib.Tactic.Common

/-!
What a match of an expression comes to, construct by construct. Each lemma speaks of what comes next
as the match does: a word is followed by it, one of several words too if none of them begins
another, and `.*` takes the longest piece of a line after which it succeeds.
-/

namespace DepNorm.Regex

variable {next : Place → Option Place} {place found : Place} {text : List Char}
  {groups : List (Nat × List Char)} {items : List Regex}

/-! ### A match takes a piece of the text -/

theorem Place.exists_of_step? {test : Char → Bool} (h : place.step? test next = some found) :
    ∃ further, further.after <:+ place.after ∧ next further = some found := by
  rw [step?] at h
  split at h
  · cases h
  · next c rest hafter =>
    split at h
    · exact ⟨_, hafter ▸ List.suffix_cons c rest, h⟩
    · cases h

theorem exists_of_repeat? {once : (Place → Option Place) → Place → Option Place}
    (honce : ∀ next place found, once next place = some found →
      ∃ further, further.after <:+ place.after ∧ next further = some found)
    (h : repeat? once next place = some found) :
    ∃ further, further.after <:+ place.after ∧ next further = some found := by
  -- The rounds take more and more of the text, so the induction is on its length.
  induction hlength : place.after.length using Nat.strong_induction_on generalizing place with
  | _ length ih =>
      rw [repeat?, Option.or_eq_some_iff] at h
      rcases h with honward | ⟨-, hnext⟩
      · obtain ⟨further, hsuffix, hfurther⟩ := honce _ _ _ honward
        split at hfurther
        · next hshorter =>
          obtain ⟨last, hlast, hnext⟩ := ih _ (hlength ▸ hshorter) hfurther rfl
          exact ⟨last, hlast.trans hsuffix, hnext⟩
        · exact ⟨further, hsuffix, hfurther⟩
      · exact ⟨place, List.suffix_rfl, hnext⟩

theorem exists_of_match? (regex : Regex) (h : regex.match? next place = some found) :
    ∃ further, further.after <:+ place.after ∧ next further = some found := by
  induction regex generalizing next place found with
  | empty => exact ⟨place, List.suffix_rfl, h⟩
  | char c => exact Place.exists_of_step? h
  | any => exact Place.exists_of_step? h
  | oneOf ranges => exact Place.exists_of_step? h
  | seq first second hfirst hsecond =>
      obtain ⟨middle, hmiddle, hrest⟩ := hfirst h
      obtain ⟨further, hfurther, hnext⟩ := hsecond hrest
      exact ⟨further, hfurther.trans hmiddle, hnext⟩
  | alt left right hleft hright =>
      rw [match?, Option.or_eq_some_iff] at h
      rcases h with h | ⟨-, h⟩
      · exact hleft h
      · exact hright h
  | star body hbody => exact exists_of_repeat? (fun _ _ _ => hbody) h
  | plus body hbody =>
      obtain ⟨middle, hmiddle, hrest⟩ := hbody h
      obtain ⟨further, hfurther, hnext⟩ := exists_of_repeat? (fun _ _ _ => hbody) hrest
      exact ⟨further, hfurther.trans hmiddle, hnext⟩
  | textStart =>
      rw [match?] at h
      split at h
      · exact ⟨place, List.suffix_rfl, h⟩
      · cases h
  | textEnd =>
      rw [match?] at h
      split at h
      · exact ⟨place, List.suffix_rfl, h⟩
      · cases h
  | group number body hbody =>
      obtain ⟨further, hfurther, hnext⟩ := hbody h
      exact ⟨place.record number further, hfurther, hnext⟩

/-! ### Letters and words -/

theorem match?_concat_nil (next : Place → Option Place) : (concat []).match? next = next := rfl

theorem match?_concat_cons (item : Regex) (items : List Regex) (next : Place → Option Place) :
    (concat (item :: items)).match? next = item.match? ((concat items).match? next) := rfl

theorem match?_concat_singleton (item : Regex) (next : Place → Option Place) :
    (concat [item]).match? next = item.match? next := rfl

theorem Place.step?_eq_some_iff {test : Char → Bool} :
    place.step? test next = some found ↔ ∃ c rest, place.after = c :: rest ∧ test c = true ∧
      next { place with atStart := false, after := rest } = some found := by
  rw [step?]
  cases place.after <;> simp

theorem match?_oneOf_eq_some_iff {letters : List Char} :
    (oneOf (letters.map fun c => (c, c))).match? next place = some found ↔
      ∃ c ∈ letters, ∃ rest, place.after = c :: rest ∧
        next { place with atStart := false, after := rest } = some found := by
  have htest (c : Char) : ((letters.map fun c => (c, c)).any fun r => r.1 ≤ c && c ≤ r.2) = true ↔
      c ∈ letters := by
    simp only [List.any_map, List.any_eq_true, Function.comp_def, Bool.and_eq_true,
      decide_eq_true_eq]
    constructor
    · rintro ⟨d, hd, hle, hge⟩
      exact Char.le_antisymm hle hge ▸ hd
    · exact fun hc => ⟨c, hc, Char.le_refl c, Char.le_refl c⟩
  rw [match?, Place.step?_eq_some_iff]
  simp only [htest]
  constructor
  · rintro ⟨c, rest, hafter, hc, hnext⟩
    exact ⟨c, hc, rest, hafter, hnext⟩
  · rintro ⟨c, hc, rest, hafter, hnext⟩
    exact ⟨c, rest, hafter, hc, hnext⟩

theorem match?_char_eq_some_iff {c : Char} :
    (char c).match? next ⟨false, text, groups⟩ = some found ↔
      ∃ rest, text = c :: rest ∧ next ⟨false, rest, groups⟩ = some found := by
  rw [match?, Place.step?_eq_some_iff]
  simp

theorem match?_letters_eq_some_iff {letters : List Char} :
    (concat (letters.map char ++ items)).match? next ⟨false, text, groups⟩ = some found ↔
      ∃ rest, text = letters ++ rest ∧
        (concat items).match? next ⟨false, rest, groups⟩ = some found := by
  induction letters generalizing text with
  | nil => simp
  | cons c letters ih =>
      rw [List.map_cons, List.cons_append, match?_concat_cons, match?_char_eq_some_iff]
      simp only [ih, List.cons_append]
      constructor
      · rintro ⟨_, rfl, rest, rfl, hnext⟩
        exact ⟨rest, rfl, hnext⟩
      · rintro ⟨rest, rfl, hnext⟩
        exact ⟨_, rfl, rest, rfl, hnext⟩

theorem match?_word_eq_some_iff {letters : String} :
    (word letters).match? next ⟨false, text, groups⟩ = some found ↔
      ∃ rest, text = letters.toList ++ rest ∧ next ⟨false, rest, groups⟩ = some found := by
  rw [word, ← List.append_nil (List.map _ _), match?_letters_eq_some_iff]
  rfl

/-! ### Several branches -/

theorem match?_choice (first : Regex) (others : List Regex) :
    (choice first others).match? next place =
      (first :: others).findSome? fun branch => branch.match? next place := by
  induction others generalizing first with
  | nil => simp [choice]
  | cons other others ih =>
      have hfold : choice first (other :: others) = choice (alt first other) others := rfl
      rw [hfold, ih, List.findSome?_cons, List.findSome?_cons, List.findSome?_cons, match?]
      cases first.match? next place <;> rfl

theorem eq_of_append_eq {words : List String}
    (hfree : ∀ word ∈ words, ∀ other ∈ words, word.toList <+: other.toList → word = other)
    {word other : String} {rest rest' : List Char} (hword : word ∈ words) (hother : other ∈ words)
    (h : word.toList ++ rest = other.toList ++ rest') : word = other ∧ rest = rest' := by
  have hprefix : word.toList <+: other.toList ++ rest' := ⟨rest, h⟩
  have heq : word = other := by
    rcases List.prefix_or_prefix_of_prefix hprefix (List.prefix_append _ rest') with hle | hle
    · exact hfree word hword other hother hle
    · exact (hfree other hother word hword hle).symm
  subst heq
  exact ⟨rfl, List.append_cancel_left h⟩

/-- Of words none of which begins another, no matter in which order, it is the one that the text
begins with. -/
theorem match?_words_eq_some_iff {first : String} {others : List String}
    (hfree : ∀ word ∈ first :: others, ∀ other ∈ first :: others,
      word.toList <+: other.toList → word = other) :
    (choice (word first) (others.map word)).match? next ⟨false, text, groups⟩ = some found ↔
      ∃ word ∈ first :: others, ∃ rest, text = word.toList ++ rest ∧
        next ⟨false, rest, groups⟩ = some found := by
  rw [match?_choice, ← List.map_cons, List.findSome?_map]
  constructor
  · intro hfind
    obtain ⟨word, hword, hmatch⟩ := List.exists_of_findSome?_eq_some hfind
    exact ⟨word, hword, match?_word_eq_some_iff.mp hmatch⟩
  · rintro ⟨letters, hletters, rest, rfl, hnext⟩
    have hmatch : (word letters).match? next ⟨false, letters.toList ++ rest, groups⟩ = some found :=
      match?_word_eq_some_iff.mpr ⟨rest, rfl, hnext⟩
    cases hfind : (first :: others).findSome?
        ((fun branch => branch.match? next ⟨false, letters.toList ++ rest, groups⟩) ∘ word) with
    | none =>
        have hnone := List.findSome?_eq_none_iff.mp hfind letters hletters
        cases hnone.symm.trans hmatch
    | some other =>
        obtain ⟨word', hword', hmatch'⟩ := List.exists_of_findSome?_eq_some hfind
        obtain ⟨rest', heq, hnext'⟩ := match?_word_eq_some_iff.mp hmatch'
        obtain ⟨-, rfl⟩ := eq_of_append_eq hfree hletters hword' heq
        exact hnext'.symm.trans hnext

/-! ### Pieces of a line -/

/-- The text is at its end or at the end of a line. -/
def AtLineEnd (text : List Char) : Prop := ∀ c ∈ text.head?, c = '\n'

theorem line_induction {motive : List Char → Prop} (stop : ∀ text, AtLineEnd text → motive text)
    (cons : ∀ c text, c ≠ '\n' → motive text → motive (c :: text)) (text : List Char) :
    motive text := by
  induction text with
  | nil => exact stop [] nofun
  | cons c text ih =>
      by_cases hc : c = '\n'
      · exact stop _ (by simp [AtLineEnd, hc])
      · exact cons c text hc ih

theorem AtLineEnd.eq_nil {piece rest : List Char} (h : AtLineEnd (piece ++ rest))
    (hpiece : '\n' ∉ piece) : piece = [] := by
  cases piece with
  | nil => rfl
  | cons c piece => exact absurd (h c rfl ▸ List.mem_cons_self) hpiece

theorem match?_star_any_cons {c : Char} (h : c ≠ '\n') :
    (star any).match? next ⟨false, c :: text, groups⟩ =
      ((star any).match? next ⟨false, text, groups⟩).or (next ⟨false, c :: text, groups⟩) := by
  rw [match?, repeat?]
  simp [match?, Place.step?, h]

theorem match?_star_any_of_atLineEnd (h : AtLineEnd text) :
    (star any).match? next ⟨false, text, groups⟩ = next ⟨false, text, groups⟩ := by
  rw [match?, repeat?]
  cases text with
  | nil => simp [match?, Place.step?]
  | cons c text =>
      obtain rfl : c = '\n' := h c rfl
      simp [match?, Place.step?]

theorem match?_star_any_eq_none_iff :
    (star any).match? next ⟨false, text, groups⟩ = none ↔
      ∀ piece rest, text = piece ++ rest → '\n' ∉ piece → next ⟨false, rest, groups⟩ = none := by
  induction text using line_induction with
  | stop text hend =>
      rw [match?_star_any_of_atLineEnd hend]
      refine ⟨fun hnext piece rest htext hpiece => ?_, fun h => h [] _ rfl List.not_mem_nil⟩
      subst htext
      rwa [hend.eq_nil hpiece] at hnext
  | cons c text hc ih =>
      rw [match?_star_any_cons hc, Option.or_eq_none_iff, ih]
      constructor
      · rintro ⟨hlonger, hnext⟩ piece rest htext hpiece
        rcases List.cons_eq_append_iff.mp htext with ⟨rfl, rfl⟩ | ⟨tail, rfl, rfl⟩
        · exact hnext
        · exact hlonger tail rest rfl (List.not_mem_of_not_mem_cons hpiece)
      · intro h
        refine ⟨fun piece rest htext hpiece => ?_, h [] _ rfl List.not_mem_nil⟩
        refine h (c :: piece) rest (by rw [htext, List.cons_append]) ?_
        exact List.not_mem_cons_of_ne_of_not_mem (Ne.symm hc) hpiece

/-- The piece begins the text and stays in its first line, and of the pieces that do it is the
longest with a rest that passes the test. -/
structure TakesMost (test : List Char → List Char → Prop) (text piece rest : List Char) : Prop where
  splits : text = piece ++ rest
  line : '\n' ∉ piece
  passes : test piece rest
  longest : ∀ piece' rest', text = piece' ++ rest' → '\n' ∉ piece' → test piece' rest' →
    piece'.length ≤ piece.length

theorem TakesMost.unique {test : List Char → List Char → Prop} {piece rest piece' rest' : List Char}
    (h : TakesMost test text piece rest) (h' : TakesMost test text piece' rest') :
    piece = piece' ∧ rest = rest' := by
  have hlength : piece.length = piece'.length :=
    (h'.longest _ _ h.splits h.line h.passes).antisymm (h.longest _ _ h'.splits h'.line h'.passes)
  exact List.append_inj (h.splits.symm.trans h'.splits) hlength

theorem exists_of_match?_star_any
    (h : (star any).match? next ⟨false, text, groups⟩ = some found) :
    ∃ piece rest, next ⟨false, rest, groups⟩ = some found ∧
      TakesMost (fun _ rest => (next ⟨false, rest, groups⟩).isSome = true) text piece rest := by
  induction text using line_induction with
  | stop text hend =>
      rw [match?_star_any_of_atLineEnd hend] at h
      refine ⟨[], text, h, rfl, List.not_mem_nil, by rw [h]; rfl, ?_⟩
      rintro piece' rest' rfl hline -
      rw [hend.eq_nil hline]
  | cons c text hc ih =>
      rw [match?_star_any_cons hc, Option.or_eq_some_iff] at h
      rcases h with h | ⟨hnone, hnext⟩
      · obtain ⟨piece, rest, hnext, rfl, hline, hpasses, hlongest⟩ := ih h
        refine ⟨c :: piece, rest, hnext, rfl,
          List.not_mem_cons_of_ne_of_not_mem (Ne.symm hc) hline, hpasses, ?_⟩
        intro piece' rest' htext hline' hpasses'
        rcases List.cons_eq_append_iff.mp htext with ⟨rfl, -⟩ | ⟨tail, rfl, htail⟩
        · exact Nat.zero_le _
        · exact Nat.succ_le_succ
            (hlongest tail rest' htail (List.not_mem_of_not_mem_cons hline') hpasses')
      · refine ⟨[], _, hnext, rfl, List.not_mem_nil, by rw [hnext]; rfl, ?_⟩
        intro piece' rest' htext hline' hpasses'
        rcases List.cons_eq_append_iff.mp htext with ⟨rfl, -⟩ | ⟨tail, rfl, htail⟩
        · exact le_rfl
        · rw [match?_star_any_eq_none_iff.mp hnone tail rest' htail
            (List.not_mem_of_not_mem_cons hline')] at hpasses'
          cases hpasses'

/-- `.*` takes the longest piece of a line after which what comes next succeeds. -/
theorem match?_star_any_eq_some_iff :
    (star any).match? next ⟨false, text, groups⟩ = some found ↔
      ∃ piece rest, next ⟨false, rest, groups⟩ = some found ∧
        TakesMost (fun _ rest => (next ⟨false, rest, groups⟩).isSome = true) text piece rest := by
  refine ⟨exists_of_match?_star_any, ?_⟩
  rintro ⟨piece, rest, hnext, hmost⟩
  cases hmatch : (star any).match? next ⟨false, text, groups⟩ with
  | none =>
      have hnone := match?_star_any_eq_none_iff.mp hmatch piece rest hmost.splits hmost.line
      cases hnone.symm.trans hnext
  | some other =>
      obtain ⟨piece', rest', hnext', hmost'⟩ := exists_of_match?_star_any hmatch
      obtain ⟨rfl, rfl⟩ := hmost.unique hmost'
      exact hnext'.symm.trans hnext

/-! ### Groups -/

theorem Place.record_append (atStart : Bool) (piece rest : List Char) (number : Nat) :
    (⟨atStart, piece ++ rest, groups⟩ : Place).record number ⟨false, rest, groups⟩ =
      ⟨false, rest, (number, piece) :: groups⟩ := by
  simp [record, upTo]

theorem match?_group_line_eq_some_iff {number : Nat} :
    (group number (concat [star any])).match? next ⟨false, text, groups⟩ = some found ↔
      ∃ piece rest, next ⟨false, rest, (number, piece) :: groups⟩ = some found ∧
        TakesMost (fun piece rest => (next ⟨false, rest, (number, piece) :: groups⟩).isSome = true)
          text piece rest := by
  have hrecord {piece rest : List Char} (h : text = piece ++ rest) :
      next ((⟨false, text, groups⟩ : Place).record number ⟨false, rest, groups⟩) =
        next ⟨false, rest, (number, piece) :: groups⟩ := by
    rw [h, Place.record_append]
  rw [match?, match?_concat_singleton, match?_star_any_eq_some_iff]
  refine exists_congr fun piece => exists_congr fun rest => ?_
  constructor
  · rintro ⟨hnext, hsplits, hline, hpasses, hlongest⟩
    refine ⟨hrecord hsplits ▸ hnext, hsplits, hline, hrecord hsplits ▸ hpasses, ?_⟩
    intro piece' rest' hsplits' hline' hpasses'
    exact hlongest piece' rest' hsplits' hline' (by rwa [hrecord hsplits'])
  · rintro ⟨hnext, hsplits, hline, hpasses, hlongest⟩
    refine ⟨by rwa [hrecord hsplits], hsplits, hline, by rwa [hrecord hsplits], ?_⟩
    intro piece' rest' hsplits' hline' hpasses'
    exact hlongest piece' rest' hsplits' hline' (by rwa [hrecord hsplits'] at hpasses')

theorem match?_textEnd_eq_some_iff :
    textEnd.match? next place = some found ↔ place.after = [] ∧ next place = some found := by
  rw [match?]
  cases place.after <;> simp

theorem match?_group_to_textEnd_eq_some_iff {number : Nat} :
    (group number (concat [star any])).match? (textEnd.match? next) ⟨false, text, groups⟩ =
      some found ↔ '\n' ∉ text ∧ next ⟨false, [], (number, text) :: groups⟩ = some found := by
  rw [match?_group_line_eq_some_iff]
  simp only [match?_textEnd_eq_some_iff]
  constructor
  · rintro ⟨piece, rest, ⟨rfl, hnext⟩, hmost⟩
    obtain rfl : text = piece := by simpa using hmost.splits
    exact ⟨hmost.line, hnext⟩
  · rintro ⟨hline, hnext⟩
    refine ⟨text, [], ⟨rfl, hnext⟩, (List.append_nil text).symm, hline, ?_, ?_⟩
    · rw [match?_textEnd_eq_some_iff.mpr ⟨rfl, hnext⟩]
      rfl
    · rintro piece' rest' rfl - -
      simp

theorem Place.upTo_append_after {further : Place} (h : further.after <:+ place.after) :
    place.upTo further ++ further.after = place.after := by
  obtain ⟨piece, hpiece⟩ := h
  simp [upTo, ← hpiece]

/-- What a group that ends an expression keeps, and what is left of the text. -/
theorem exists_of_match?_group {number : Nat} {body : Regex}
    (h : (group number body).match? some place = some found) :
    ∃ piece, found.group? number = some piece ∧ place.after = piece ++ found.after := by
  obtain ⟨further, hsuffix, hfound⟩ := exists_of_match? body h
  obtain rfl := Option.some.inj hfound
  exact ⟨place.upTo further, by simp [Place.group?, Place.record],
    (Place.upTo_append_after hsuffix).symm⟩

/-! ### Whether there is a match -/

section Always

variable (hnext : ∀ place, (next place).isSome = true)

include hnext

theorem isSome_repeat? {once : (Place → Option Place) → Place → Option Place} :
    (repeat? once next place).isSome = true := by
  rw [repeat?, Option.isSome_or, hnext, Bool.or_true]

theorem isSome_match?_word_iff {letters : String} :
    ((word letters).match? next ⟨false, text, groups⟩).isSome = true ↔
      ∃ rest, text = letters.toList ++ rest := by
  rw [Option.isSome_iff_exists]
  simp only [match?_word_eq_some_iff]
  constructor
  · rintro ⟨_, rest, htext, -⟩
    exact ⟨rest, htext⟩
  · rintro ⟨rest, htext⟩
    obtain ⟨found, hfound⟩ := Option.isSome_iff_exists.mp (hnext ⟨false, rest, groups⟩)
    exact ⟨found, rest, htext, hfound⟩

theorem isSome_match?_plus_oneOf_iff {low high : Char} :
    ((plus (oneOf [(low, high)])).match? next ⟨false, text, groups⟩).isSome = true ↔
      ∃ c rest, text = c :: rest ∧ low ≤ c ∧ c ≤ high := by
  rw [match?, match?, Place.step?]
  cases text with
  | nil => simp
  | cons c text =>
      have htest : ([(low, high)].any fun r => r.1 ≤ c && c ≤ r.2) = true ↔ low ≤ c ∧ c ≤ high := by
        simp
      simp only [htest, List.cons.injEq]
      split
      · next hc => exact iff_of_true (isSome_repeat? hnext) ⟨c, text, ⟨rfl, rfl⟩, hc⟩
      · next hc => exact iff_of_false nofun fun ⟨d, rest, ⟨hd, _⟩, hrange⟩ => hc (hd ▸ hrange)

end Always

theorem isSome_match?_choice_iff {first : Regex} {others : List Regex} :
    ((choice first others).match? next place).isSome = true ↔
      ∃ branch ∈ first :: others, (branch.match? next place).isSome = true := by
  rw [match?_choice, List.isSome_findSome?, List.any_eq_true]

/-! ### Expressions that are tied to the start -/

theorem match?_textStart_concat (items : List Regex) (next : Place → Option Place)
    (place : Place) : (concat (textStart :: items)).match? next place =
      if place.atStart then (concat items).match? next place else none := rfl

theorem captures?_of_textStart (items : List Regex) (text : List Char) :
    (concat (textStart :: items)).captures? text =
      (concat items).match? some ⟨true, text, []⟩ := by
  have helsewhere (text : List Char) :
      captures?.go (concat (textStart :: items)) false text = none := by
    induction text with
    | nil => rfl
    | cons c text ih => rw [captures?.go, match?_textStart_concat, ih]; rfl
  rw [captures?]
  cases text with
  | nil => rfl
  | cons c text => rw [captures?.go, helsewhere, match?_textStart_concat, Option.or_none]; rfl

end DepNorm.Regex
