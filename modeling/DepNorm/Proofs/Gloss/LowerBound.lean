import DepNorm.Gloss.AtLeast
import DepNorm.Proofs.Gloss.Existential

/-!
What becomes of a sentence with a lower bound. A quantity is a number in digits or one of a few
words, none of which begins another. The rule looks at letters and not at words, so it also takes a
longer word that merely begins with one of these words: "At least tenants pay" says "Tenants pay".
That is the only way in which it departs from a reading by words.
-/

namespace DepNorm.Gloss

open Regex (Place concat word)

variable {text rest tail result : List Char}

/-! ### What a sentence has to say -/

/-- The text is "At least" and what follows it. -/
def HasBound (text rest : List Char) : Prop :=
  ∃ first ∈ ['A', 'a'], text = first :: ("t least ".toList ++ rest)

/-- The text is a word for a quantity, taken by its letters, and what follows them. -/
def Counts (text tail : List Char) : Prop :=
  ∃ word ∈ ["a few", "one", "two", "three", "four", "five", "six", "seven", "eight", "nine", "ten",
    "eleven", "twelve"], text = word.toList ++ tail

/-- The text begins with a digit, or with a word for a quantity that ends where its letters end. -/
def HasQuantity (text : List Char) : Prop :=
  (∃ digit tail, text = digit :: tail ∧ digit.isDigit = true) ∨
    ∃ tail, Counts text tail ∧ ∀ c ∈ tail.head?, c.isAlpha = false

/-- The text begins with a word for a quantity, by its letters, that goes on after them. -/
def HasLongerWord (text : List Char) : Prop :=
  ∃ letter tail, Counts text (letter :: tail) ∧ letter.isAlpha = true

/-! ### The quantity -/

def quantityWords : List String :=
  ["a few", "one", "two", "three", "four", "five", "six", "seven", "eight", "nine", "ten",
    "eleven", "twelve"]

theorem HasBound.unique {rest' : List Char} (h : HasBound text rest) (h' : HasBound text rest') :
    rest = rest' := by
  obtain ⟨first, -, rfl⟩ := h
  obtain ⟨first', -, heq⟩ := h'
  exact List.append_cancel_left (List.cons.inj heq).2

theorem quantityWords_free : ∀ word ∈ quantityWords, ∀ other ∈ quantityWords,
    word.toList <+: other.toList → word = other := by
  decide +kernel

/-- By its letters, a text begins with one word for a quantity at most. -/
theorem Counts.unique {tail' : List Char} (h : Counts text tail) (h' : Counts text tail') :
    tail = tail' := by
  obtain ⟨word, hword, rfl⟩ := h
  obtain ⟨word', hword', heq⟩ := h'
  exact (Regex.eq_of_append_eq quantityWords_free hword hword' heq).2

theorem Counts.not_digit {digit : Char} (h : Counts (digit :: rest) tail) :
    digit.isDigit = false := by
  obtain ⟨word, hword, heq⟩ := h
  have hwords : ∀ word ∈ quantityWords, word.toList.head?.any (fun c => !c.isDigit) = true := by
    decide +kernel
  obtain ⟨c, letters, hletters, hfirst⟩ := exists_cons_of_any_head? (hwords word hword)
  rw [hletters, List.cons_append] at heq
  cases heq
  simpa using hfirst

theorem not_hasQuantity_of_hasLongerWord (h : HasLongerWord text) : ¬ HasQuantity text := by
  obtain ⟨letter, tail, hcounts, hletter⟩ := h
  rintro (⟨digit, rest, rfl, hdigit⟩ | ⟨tail', hcounts', hends⟩)
  · rw [hcounts.not_digit] at hdigit
    cases hdigit
  · cases hcounts.unique hcounts'
    rw [hends letter rfl] at hletter
    cases hletter

theorem exists_counts_iff :
    (∃ tail, Counts text tail) ↔
      (∃ tail, Counts text tail ∧ ∀ c ∈ tail.head?, c.isAlpha = false) ∨ HasLongerWord text := by
  constructor
  · rintro ⟨tail, hcounts⟩
    cases tail with
    | nil => exact .inl ⟨[], hcounts, fun _ hc => by cases hc⟩
    | cons letter tail =>
        cases hletter : letter.isAlpha with
        | true => exact .inr ⟨letter, tail, hcounts, hletter⟩
        | false =>
            refine .inl ⟨letter :: tail, hcounts, fun c hc => ?_⟩
            cases hc
            exact hletter
  · rintro (⟨tail, hcounts, -⟩ | ⟨letter, tail, hcounts, -⟩)
    · exact ⟨tail, hcounts⟩
    · exact ⟨letter :: tail, hcounts⟩

/-- A quantity, or a word that is taken for one, begins with a character of ASCII. -/
theorem exists_cons_of_hasQuantity (h : HasQuantity text ∨ HasLongerWord text) :
    ∃ c rest, text = c :: rest ∧ c.toNat < 128 := by
  have hwords : ∀ word ∈ quantityWords, word.toList.head?.any (·.toNat < 128) = true := by
    decide +kernel
  have hcounts (tail : List Char) (h : Counts text tail) :
      ∃ c rest, text = c :: rest ∧ c.toNat < 128 := by
    obtain ⟨word, hword, rfl⟩ := h
    obtain ⟨c, letters, hletters, hfirst⟩ := exists_cons_of_any_head? (hwords word hword)
    exact ⟨c, letters ++ tail, by rw [hletters, List.cons_append], by simpa using hfirst⟩
  rcases h with (⟨digit, rest, rfl, hdigit⟩ | ⟨tail, h, -⟩) | ⟨letter, tail, h, -⟩
  · simp only [Char.isDigit, Bool.and_eq_true, decide_eq_true_eq] at hdigit
    exact ⟨digit, rest, rfl, Nat.lt_of_le_of_lt (UInt32.le_iff_toNat_le.mp hdigit.2) (by decide)⟩
  · exact hcounts tail h
  · exact hcounts _ h

/-! ### The expression -/

def quantity : Regex :=
  .choice (word "a few") (quantityWords.tail.map word ++ [concat [.plus (.oneOf [('0', '9')])]])

def lowerBound : Regex :=
  concat (.textStart :: .oneOf (['A', 'a'].map fun c => (c, c)) ::
    ("t least ".toList.map .char ++ [.group 1 quantity]))

theorem lowerBound?_eq : lowerBound? = some lowerBound := by decide +kernel

theorem isSome_match?_quantity_iff :
    ((Regex.group 1 quantity).match? some ⟨false, text, []⟩).isSome = true ↔
      HasQuantity text ∨ HasLongerWord text := by
  have hnext (further : Place) :
      (some ((⟨false, text, []⟩ : Place).record 1 further)).isSome = true := rfl
  have hbranches : word "a few" :: (quantityWords.tail.map word ++
      [concat [.plus (.oneOf [('0', '9')])]]) =
        quantityWords.map word ++ [concat [.plus (.oneOf [('0', '9')])]] := rfl
  have hdigit : (∃ c rest, text = c :: rest ∧ '0' ≤ c ∧ c ≤ '9') ↔
      ∃ digit tail, text = digit :: tail ∧ digit.isDigit = true := by
    simp [Char.isDigit, Char.le_def]
  rw [Regex.match?, quantity, Regex.isSome_match?_choice_iff, hbranches]
  simp only [List.mem_append, or_and_right, exists_or, List.mem_map, exists_exists_and_eq_and,
    List.mem_singleton, exists_eq_left, Regex.match?_concat_singleton,
    Regex.isSome_match?_word_iff hnext, Regex.isSome_match?_plus_oneOf_iff hnext, hdigit]
  have hwords : (∃ word ∈ quantityWords, ∃ rest, text = word.toList ++ rest) ↔
      ∃ tail, Counts text tail := by
    constructor
    · rintro ⟨word, hword, tail, htext⟩
      exact ⟨tail, word, hword, htext⟩
    · rintro ⟨tail, word, hword, htext⟩
      exact ⟨word, hword, tail, htext⟩
  rw [hwords, exists_counts_iff, HasQuantity]
  exact or_comm.trans or_assoc.symm

/-! ### The sentence -/

theorem captures?_lowerBound_eq_some_iff {found : Place} :
    lowerBound.captures? text = some found ↔ ∃ rest, HasBound text rest ∧
      (Regex.group 1 quantity).match? some ⟨false, rest, []⟩ = some found := by
  rw [lowerBound, Regex.captures?_of_textStart, Regex.match?_concat_cons,
    Regex.match?_oneOf_eq_some_iff]
  simp only [Regex.match?_letters_eq_some_iff, Regex.match?_concat_singleton]
  constructor
  · rintro ⟨first, hfirst, _, rfl, rest, rfl, hfound⟩
    exact ⟨rest, ⟨first, hfirst, rfl⟩, hfound⟩
  · rintro ⟨rest, ⟨first, hfirst, rfl⟩, hfound⟩
    exact ⟨first, hfirst, _, rfl, rest, rfl, hfound⟩

theorem atLeast?_eq_some_iff : atLeast? text = some result ↔
    ∃ rest, HasBound text rest ∧ (HasQuantity rest ∨ HasLongerWord rest) ∧
      result = Text.capitalize rest := by
  simp only [atLeast?, lowerBound?_eq, Option.bind_eq_bind, Option.bind_some,
    Option.bind_eq_some_iff, captures?_lowerBound_eq_some_iff, Option.pure_def, Option.some.injEq]
  constructor
  · rintro ⟨found, ⟨rest, hbound, hfound⟩, piece, hpiece, rfl⟩
    obtain ⟨piece', hpiece', hrest⟩ := Regex.exists_of_match?_group hfound
    obtain rfl := Option.some.inj (hpiece.symm.trans hpiece')
    refine ⟨rest, hbound, isSome_match?_quantity_iff.mp ?_, congrArg Text.capitalize hrest.symm⟩
    rw [hfound]
    rfl
  · rintro ⟨rest, hbound, hquantity, rfl⟩
    obtain ⟨found, hfound⟩ :=
      Option.isSome_iff_exists.mp (isSome_match?_quantity_iff.mpr hquantity)
    obtain ⟨piece, hpiece, hrest⟩ := Regex.exists_of_match?_group hfound
    exact ⟨found, ⟨rest, hbound, hfound⟩, piece, hpiece, congrArg Text.capitalize hrest.symm⟩

/-- A text loses its "At least" if a quantity follows, or a longer word that begins with a word for
a quantity. What follows is left, with its first letter in upper case. Where no such longer word
follows, the texts that lose it are those in which a quantity follows, and where one does, no
quantity follows. -/
theorem capitalized_of_lowerBound (text : List Char) :
    (∀ result, atLeast? text = some result ↔ ∃ rest, HasBound text rest ∧
      (HasQuantity rest ∨ HasLongerWord rest) ∧ result = Text.capitalize rest) ∧
    ((∀ rest, HasBound text rest → ¬ HasLongerWord rest) →
      ((atLeast? text).isSome = true ↔ ∃ rest, HasBound text rest ∧ HasQuantity rest)) ∧
    ∀ rest, HasBound text rest → HasLongerWord rest → ¬ HasQuantity rest := by
  refine ⟨fun result => atLeast?_eq_some_iff, fun hshort => Option.isSome_iff_exists.trans ⟨?_, ?_⟩,
    fun rest _ => not_hasQuantity_of_hasLongerWord⟩
  · rintro ⟨result, hresult⟩
    obtain ⟨rest, hbound, hquantity, -⟩ := atLeast?_eq_some_iff.mp hresult
    exact ⟨rest, hbound, hquantity.resolve_right (hshort rest hbound)⟩
  · rintro ⟨rest, hbound, hquantity⟩
    exact ⟨_, atLeast?_eq_some_iff.mpr ⟨rest, hbound, .inl hquantity, rfl⟩⟩

/-- A quantity in digits and one in words, the latter at the end of the sentence. -/
theorem capitalized_of_lowerBound_aFew :
    atLeast? "at least a few".toList = some "A few".toList ∧
      atLeast? "At least 12th graders".toList = some "12th graders".toList ∧
      ¬ HasQuantity "oneself".toList := by
  obtain ⟨hfew, -, -⟩ := capitalized_of_lowerBound "at least a few".toList
  obtain ⟨hdigits, -, -⟩ := capitalized_of_lowerBound "At least 12th graders".toList
  obtain ⟨-, -, hlonger⟩ := capitalized_of_lowerBound "At least oneself".toList
  refine ⟨(hfew _).mpr ⟨"a few".toList, ⟨'a', by decide, rfl⟩, .inl (.inr ⟨[], ?_, ?_⟩), rfl⟩,
    (hdigits _).mpr ⟨"12th graders".toList, ⟨'A', by decide, rfl⟩,
      .inl (.inl ⟨'1', "2th graders".toList, rfl, rfl⟩), rfl⟩,
    hlonger _ ⟨'A', by decide, rfl⟩ ⟨'s', "elf".toList, ⟨"one", by decide, rfl⟩, rfl⟩⟩
  · exact ⟨"a few", by decide, rfl⟩
  · exact fun _ hc => by cases hc

/-- A longer word may be taken for a quantity: "oneself" is. -/
theorem exists_longer_word_taken :
    ¬ ∀ text, (atLeast? text).isSome = true ↔ ∃ rest, HasBound text rest ∧ HasQuantity rest := by
  intro hall
  have hsome : (atLeast? "At least oneself".toList).isSome = true := by decide +kernel
  obtain ⟨rest, hbound, hquantity⟩ := (hall _).mp hsome
  obtain rfl : "oneself".toList = rest := HasBound.unique ⟨'A', by decide, rfl⟩ hbound
  have hlonger : HasLongerWord "oneself".toList :=
    ⟨'s', "elf".toList, ⟨"one", by decide, rfl⟩, rfl⟩
  exact not_hasQuantity_of_hasLongerWord hlonger hquantity

end DepNorm.Gloss
