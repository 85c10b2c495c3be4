import DepNorm.Gloss.ThereBe
import DepNorm.Proofs.Regex.Capture
import DepNorm.Text.Lowercase

/-!
What becomes of an existential sentence. The opening and the pronouns are each chosen from a few
words none of which begins another, so a text has them at one place in one way at most. The group
before the pronoun takes as much as it can, and so the pronoun is the last one: no other split has a
longer text before it.
-/

namespace DepNorm.Gloss

open Regex (Place TakesMost concat word)

variable {text rest before after : List Char}

/-! ### What a sentence has to say -/

/-- The text is an existential opening and what follows it. -/
def Opens (text rest : List Char) : Prop :=
  ∃ first ∈ ['T', 't'],
    ∃ form ∈ ["is", "are", "was", "were", "will be", "would be", "has been", "have been"],
      text = first :: ("here ".toList ++ form.toList ++ ' ' :: rest)

/-- The text has a relative pronoun, with a space on both sides, between two others. -/
def SplitsAt (text before after : List Char) : Prop :=
  ∃ pronoun ∈ [" who ".toList, " which ".toList], text = before ++ pronoun ++ after

/-- No relative pronoun of the text begins after the one between the two others. -/
structure SplitsLast (text before after : List Char) : Prop where
  splits : SplitsAt text before after
  longest : ∀ before' after', SplitsAt text before' after' → before'.length ≤ before.length

theorem SplitsAt.iff_append :
    SplitsAt text before after ↔ ∃ rest, text = before ++ rest ∧ SplitsAt rest [] after := by
  constructor
  · rintro ⟨pronoun, hpronoun, rfl⟩
    exact ⟨pronoun ++ after, List.append_assoc .., pronoun, hpronoun, rfl⟩
  · rintro ⟨_, rfl, pronoun, hpronoun, rfl⟩
    exact ⟨pronoun, hpronoun, by simp⟩

theorem exists_splitsAt_iff : (∃ before after, SplitsAt text before after) ↔
    " who ".toList <:+: text ∨ " which ".toList <:+: text := by
  constructor
  · rintro ⟨before, after, pronoun, hpronoun, rfl⟩
    rcases List.mem_pair.mp hpronoun with rfl | rfl
    · exact .inl ⟨before, after, rfl⟩
    · exact .inr ⟨before, after, rfl⟩
  · rintro (⟨before, after, rfl⟩ | ⟨before, after, rfl⟩)
    · exact ⟨before, after, _, List.mem_cons_self, rfl⟩
    · exact ⟨before, after, _, List.mem_cons_of_mem _ List.mem_cons_self, rfl⟩

theorem exists_splitsLast_iff : (∃ before after, SplitsLast text before after) ↔
    " who ".toList <:+: text ∨ " which ".toList <:+: text := by
  rw [← exists_splitsAt_iff]
  constructor
  · rintro ⟨before, after, hlast⟩
    exact ⟨before, after, hlast.splits⟩
  · rintro ⟨before, after, hsplits⟩
    by_contra! hnone
    -- Each split has one with a longer text before it, and no such text is longer than the whole.
    have hlong (length : Nat) :
        ∃ before after, SplitsAt text before after ∧ length ≤ before.length := by
      induction length with
      | zero => exact ⟨before, after, hsplits, Nat.zero_le _⟩
      | succ length ih =>
          obtain ⟨before, after, hsplits, hlength⟩ := ih
          by_contra! hshort
          exact hnone before after ⟨hsplits, fun before' after' hsplits' =>
            (Nat.le_of_lt_succ (hshort before' after' hsplits')).trans hlength⟩
    obtain ⟨before, after, ⟨pronoun, -, rfl⟩, hlength⟩ := hlong (text.length + 1)
    rw [List.length_append, List.length_append] at hlength
    omega

/-! ### The expression -/

def pronounItems : List Regex :=
  [.char ' ', .choice (word "who") (["which"].map word), .char ' ',
    .group 2 (concat [.star .any]), .textEnd]

def openingItems : List Regex :=
  .oneOf (['T', 't'].map fun c => (c, c)) :: ("here ".toList.map .char ++
    [.choice (word "is") (["are", "was", "were", "will be", "would be", "has been",
      "have been"].map word), .char ' '])

def existential : Regex :=
  concat (.textStart :: (openingItems ++ .group 1 (concat [.star .any]) :: pronounItems))

theorem existential?_eq : existential? = some existential := by decide +kernel

theorem forms_free : ∀ word ∈ ["is", "are", "was", "were", "will be", "would be", "has been",
    "have been"], ∀ other ∈ ["is", "are", "was", "were", "will be", "would be", "has been",
    "have been"], word.toList <+: other.toList → word = other := by
  decide +kernel

theorem pronouns_free : ∀ word ∈ ["who", "which"], ∀ other ∈ ["who", "which"],
    word.toList <+: other.toList → word = other := by
  decide +kernel

theorem match?_pronounItems_eq_some_iff {groups : List (Nat × List Char)} {found : Place} :
    (concat pronounItems).match? some ⟨false, text, groups⟩ = some found ↔
      ∃ after, SplitsAt text [] after ∧ '\n' ∉ after ∧
        found = ⟨false, [], (2, after) :: groups⟩ := by
  simp only [pronounItems, Regex.match?_concat_cons, Regex.match?_concat_nil,
    Regex.match?_char_eq_some_iff, Regex.match?_words_eq_some_iff pronouns_free,
    Regex.match?_group_to_textEnd_eq_some_iff]
  constructor
  · rintro ⟨_, rfl, pronoun, hpronoun, _, rfl, after, rfl, hline, hfound⟩
    refine ⟨after, ⟨' ' :: (pronoun.toList ++ [' ']), ?_, by simp⟩, hline,
      (Option.some.inj hfound).symm⟩
    rcases List.mem_pair.mp hpronoun with rfl | rfl
    · exact List.mem_cons_self
    · exact List.mem_cons_of_mem _ List.mem_cons_self
  · rintro ⟨after, ⟨pronoun, hpronoun, rfl⟩, hline, rfl⟩
    rcases List.mem_pair.mp hpronoun with rfl | rfl
    · exact ⟨_, rfl, "who", by decide, _, rfl, after, rfl, hline, rfl⟩
    · exact ⟨_, rfl, "which", by decide, _, rfl, after, rfl, hline, rfl⟩

theorem match?_openingItems_eq_some_iff {items : List Regex} {found : Place} :
    (concat (openingItems ++ items)).match? some ⟨true, text, []⟩ = some found ↔
      ∃ rest, Opens text rest ∧ (concat items).match? some ⟨false, rest, []⟩ = some found := by
  rw [openingItems, List.cons_append, List.append_assoc, Regex.match?_concat_cons,
    Regex.match?_oneOf_eq_some_iff]
  simp only [Regex.match?_letters_eq_some_iff, List.cons_append, List.nil_append,
    Regex.match?_concat_cons, Regex.match?_words_eq_some_iff forms_free,
    Regex.match?_char_eq_some_iff]
  constructor
  · rintro ⟨first, hfirst, _, rfl, _, rfl, form, hform, _, rfl, rest, rfl, hfound⟩
    exact ⟨rest, ⟨first, hfirst, form, hform, by simp⟩, hfound⟩
  · rintro ⟨rest, ⟨first, hfirst, form, hform, rfl⟩, hfound⟩
    exact ⟨first, hfirst, _, rfl, form.toList ++ ' ' :: rest, List.append_assoc .., form, hform, _,
      rfl, rest, rfl, hfound⟩

theorem SplitsAt.mem_newline_iff (h : SplitsAt text before after) :
    '\n' ∈ text ↔ '\n' ∈ before ∨ '\n' ∈ after := by
  obtain ⟨pronoun, hpronoun, rfl⟩ := h
  have hnot : '\n' ∉ pronoun := by rcases List.mem_pair.mp hpronoun with rfl | rfl <;> decide
  simp [hnot]

/-- The first group ends where the last pronoun begins. -/
theorem match?_groupItems_eq_some_iff {found : Place} :
    (concat (.group 1 (concat [.star .any]) :: pronounItems)).match? some ⟨false, rest, []⟩ =
      some found ↔ '\n' ∉ rest ∧ ∃ before after, SplitsLast rest before after ∧
        found = ⟨false, [], [(2, after), (1, before)]⟩ := by
  rw [Regex.match?_concat_cons, Regex.match?_group_line_eq_some_iff]
  have hsome (before tail : List Char) :
      ((concat pronounItems).match? some ⟨false, tail, [(1, before)]⟩).isSome = true ↔
        ∃ after, SplitsAt tail [] after ∧ '\n' ∉ after := by
    rw [Option.isSome_iff_exists]
    simp only [match?_pronounItems_eq_some_iff]
    constructor
    · rintro ⟨_, after, hsplits, hline, -⟩
      exact ⟨after, hsplits, hline⟩
    · rintro ⟨after, hsplits, hline⟩
      exact ⟨_, after, hsplits, hline, rfl⟩
  simp only [match?_pronounItems_eq_some_iff]
  constructor
  · -- The longest piece before a rest that begins with a pronoun ends before the last pronoun.
    rintro ⟨before, tail, ⟨after, hsplits, hafter, rfl⟩, hmost⟩
    have hwhole : SplitsAt rest before after :=
      SplitsAt.iff_append.mpr ⟨tail, hmost.splits, hsplits⟩
    have hline : '\n' ∉ rest := by
      rw [hwhole.mem_newline_iff, not_or]
      exact ⟨hmost.line, hafter⟩
    refine ⟨hline, before, after, ⟨hwhole, fun before' after' hother => ?_⟩, rfl⟩
    have hlines : '\n' ∉ before' ∧ '\n' ∉ after' := by
      rwa [hother.mem_newline_iff, not_or] at hline
    obtain ⟨tail', hrest, hsplits'⟩ := SplitsAt.iff_append.mp hother
    exact hmost.longest before' tail' hrest hlines.1
      ((hsome before' tail').mpr ⟨after', hsplits', hlines.2⟩)
  · rintro ⟨hline, before, after, hlast, rfl⟩
    have hlines : '\n' ∉ before ∧ '\n' ∉ after := by
      rwa [hlast.splits.mem_newline_iff, not_or] at hline
    obtain ⟨tail, hrest, hsplits⟩ := SplitsAt.iff_append.mp hlast.splits
    refine ⟨before, tail, ⟨after, hsplits, hlines.2, rfl⟩, hrest, hlines.1,
      (hsome before tail).mpr ⟨after, hsplits, hlines.2⟩, fun before' tail' hrest' _ hpasses => ?_⟩
    obtain ⟨after', hsplits', -⟩ := (hsome before' tail').mp hpasses
    exact hlast.longest before' after' (SplitsAt.iff_append.mpr ⟨tail', hrest', hsplits'⟩)

theorem Opens.mem_newline_iff (h : Opens text rest) : '\n' ∈ text ↔ '\n' ∈ rest := by
  obtain ⟨first, hfirst, form, hform, rfl⟩ := h
  have hforms : ∀ form ∈ ["is", "are", "was", "were", "will be", "would be", "has been",
    "have been"], '\n' ∉ form.toList := by decide +kernel
  have hnot : '\n' ≠ first := by rcases List.mem_pair.mp hfirst with rfl | rfl <;> decide
  simp [hnot, hforms form hform]

theorem captures?_existential_eq_some_iff {found : Place} :
    existential.captures? text = some found ↔ '\n' ∉ text ∧ ∃ rest before after,
      Opens text rest ∧ SplitsLast rest before after ∧
        found = ⟨false, [], [(2, after), (1, before)]⟩ := by
  rw [existential, Regex.captures?_of_textStart, match?_openingItems_eq_some_iff]
  simp only [match?_groupItems_eq_some_iff]
  constructor
  · rintro ⟨rest, hopens, hline, before, after, hlast, hfound⟩
    exact ⟨fun h => hline (hopens.mem_newline_iff.mp h), rest, before, after, hopens, hlast, hfound⟩
  · rintro ⟨hline, rest, before, after, hopens, hlast, hfound⟩
    have hrest : '\n' ∉ rest := fun h => hline (hopens.mem_newline_iff.mpr h)
    exact ⟨rest, hopens, hrest, before, after, hlast, hfound⟩

/-! ### The quantifier -/

/-- The text begins with the letters of an operator. -/
def HasOperator (text : List Char) : Prop := ∃ op ∈ Operator.all, op.surface.toList <+: text

theorem opensWithOperator_iff : opensWithOperator text = true ↔ HasOperator text := by
  simp [opensWithOperator, HasOperator]

/-- The text with its first character in lower case. -/
def uncapitalize : List Char → List Char
  | [] => []
  | c :: rest => lowerChar c :: rest

/-- What is left of a sentence has a quantifier of its own, in upper case, or gets one. -/
def Quantified (body result : List Char) : Prop :=
  HasOperator body ∧ result = Text.capitalize body ∨
    ¬ HasOperator body ∧ result = "Some ".toList ++ body

theorem quantified_eq_iff {body result : List Char} :
    quantified body = result ↔ Quantified body result := by
  rw [quantified, Quantified, ← opensWithOperator_iff]
  by_cases hoperator : opensWithOperator body = true
  · simp [hoperator, eq_comm]
  · simp [hoperator, eq_comm]

theorem exists_cons_of_any_head? {test : Char → Bool} (h : text.head?.any test = true) :
    ∃ c rest, text = c :: rest ∧ test c = true := by
  cases text with
  | nil => cases h
  | cons c rest => exact ⟨c, rest, rfl, h⟩

/-- An operator begins with a small letter of ASCII. -/
theorem HasOperator.exists_cons (h : HasOperator text) : ∃ c rest, text = c :: rest ∧
    c.toNat < 128 ∧ lowerChar c.toUpper = c := by
  have hsmall : ∀ op ∈ Operator.all, op.surface.toList.head?.any
      (fun c => c.toNat < 128 ∧ lowerChar c.toUpper = c) = true := by decide +kernel
  obtain ⟨op, hop, tail, rfl⟩ := h
  obtain ⟨c, rest, hsurface, hfirst⟩ := exists_cons_of_any_head? (hsmall op hop)
  exact ⟨c, rest ++ tail, by rw [hsurface, List.cons_append], by simpa using hfirst⟩

theorem Quantified.hasOperator {body result : List Char} (h : Quantified body result) :
    HasOperator (uncapitalize result) := by
  rcases h with ⟨hoperator, rfl⟩ | ⟨-, rfl⟩
  · obtain ⟨c, rest, rfl, hascii, hsmall⟩ := hoperator.exists_cons
    rwa [Text.capitalize_cons_of_ascii hascii, uncapitalize, hsmall]
  · exact ⟨⟨"some", "some"⟩, by decide, ' ' :: body, rfl⟩

/-! ### The sentence -/

theorem thereBe?_eq_some_iff {result : List Char} :
    thereBe? text = some result ↔ '\n' ∉ text ∧ ∃ rest before after, Opens text rest ∧
      SplitsLast rest before after ∧ Quantified (before ++ ' ' :: after) result := by
  simp only [thereBe?, existential?_eq, Option.bind_eq_bind, Option.bind_some,
    Option.bind_eq_some_iff, captures?_existential_eq_some_iff, Option.pure_def, Option.some.injEq,
    quantified_eq_iff]
  constructor
  · rintro ⟨_, ⟨hline, rest, before, after, hopens, hlast, rfl⟩, _, hfirst, _, hsecond, hresult⟩
    obtain rfl : before = _ := Option.some.inj hfirst
    obtain rfl : after = _ := Option.some.inj hsecond
    exact ⟨hline, rest, before, after, hopens, hlast, hresult⟩
  · rintro ⟨hline, rest, before, after, hopens, hlast, hresult⟩
    exact ⟨_, ⟨hline, rest, before, after, hopens, hlast, rfl⟩, before, rfl, after, rfl, hresult⟩

/-- A text is rewritten if it is one line with an existential opening and a relative pronoun after
it. What stands before and after the last pronoun is then put together and has a quantifier: its
own, in upper case, or "Some". So, but for the case of its first letter, the result begins with the
letters of an operator. -/
theorem quantified_of_existential (text : List Char) :
    ((thereBe? text).isSome = true ↔ '\n' ∉ text ∧ ∃ rest, Opens text rest ∧
      (" who ".toList <:+: rest ∨ " which ".toList <:+: rest)) ∧
    (∀ result, thereBe? text = some result ↔ '\n' ∉ text ∧ ∃ rest before after, Opens text rest ∧
      SplitsLast rest before after ∧ Quantified (before ++ ' ' :: after) result) ∧
    ∀ result, thereBe? text = some result → HasOperator (uncapitalize result) := by
  refine ⟨?_, fun result => thereBe?_eq_some_iff, fun result hresult => ?_⟩
  · rw [Option.isSome_iff_exists]
    simp only [thereBe?_eq_some_iff, ← exists_splitsLast_iff]
    constructor
    · rintro ⟨_, hline, rest, before, after, hopens, hlast, -⟩
      exact ⟨hline, rest, hopens, before, after, hlast⟩
    · rintro ⟨hline, rest, hopens, before, after, hlast⟩
      exact ⟨_, hline, rest, before, after, hopens, hlast, quantified_eq_iff.mp rfl⟩
  · obtain ⟨-, _, _, _, -, -, hquantified⟩ := thereBe?_eq_some_iff.mp hresult
    exact hquantified.hasOperator

/-- The last pronoun goes, and the quantifier of the sentence stays. -/
theorem quantified_of_existential_noDogs :
    (thereBe? "there were no dogs who chase cats which hide".toList).isSome = true ∧
      HasOperator (uncapitalize "No dogs who chase cats hide".toList) := by
  obtain ⟨hsome, hresult, hoperator⟩ :=
    quantified_of_existential "there were no dogs who chase cats which hide".toList
  have hcaptures : existential.captures? "there were no dogs who chase cats which hide".toList =
      some ⟨false, [], [(2, "hide".toList), (1, "no dogs who chase cats".toList)]⟩ := by
    decide +kernel
  obtain ⟨hline, rest, before, after, hopens, hlast, hfound⟩ :=
    captures?_existential_eq_some_iff.mp hcaptures
  cases hfound
  refine ⟨hsome.mpr ⟨hline, _, hopens, exists_splitsLast_iff.mp ⟨_, _, hlast⟩⟩, ?_⟩
  refine hoperator _ ((hresult _).mpr ⟨hline, _, _, _, hopens, hlast, .inl ⟨?_, by decide⟩⟩)
  exact ⟨⟨"no", "no"⟩, by decide, by decide⟩

end DepNorm.Gloss
