import DepNorm.Regex.Capture
import Mathlib.Data.List.Infix
import Mathlib.Tactic.Common

/-!
Searching and matching agree: a text in which an expression is found by reading the text once is one
that it matches by going back at dead ends. Whether there is a match does not depend on the texts
that groups have kept.
-/

namespace DepNorm.Regex

variable {next next' : Place → Option Place} {place place' : Place}

/-! ### What a match depends on -/

/-- The places are the same but for what groups have kept. -/
def Place.Same (place place' : Place) : Prop :=
  place.atStart = place'.atStart ∧ place.after = place'.after

/-- From places that are the same, with no more text than this after them, both succeed or both
fail. -/
def Accord (length : Nat) (next next' : Place → Option Place) : Prop :=
  ∀ place place' : Place, place.Same place' → place.after.length ≤ length →
    (next place).isSome = (next' place').isSome

theorem Accord.mono {length shorter : Nat} (h : Accord length next next') (hle : shorter ≤ length) :
    Accord shorter next next' :=
  fun _ _ hsame hlength => h _ _ hsame (hlength.trans hle)

theorem Place.isSome_step?_congr {test : Char → Bool} (hsame : place.Same place')
    (h : Accord place.after.length next next') :
    (place.step? test next).isSome = (place'.step? test next').isSome := by
  obtain ⟨atStart, after, groups⟩ := place
  obtain ⟨atStart', after', groups'⟩ := place'
  obtain ⟨rfl, rfl⟩ : atStart = atStart' ∧ after = after' := hsame
  cases after with
  | nil => rfl
  | cons c rest =>
      simp only [step?]
      split
      · exact h _ _ ⟨rfl, rfl⟩ (Nat.le_succ _)
      · rfl

theorem isSome_repeat?_congr {once : (Place → Option Place) → Place → Option Place}
    (honce : ∀ {next next' place place'}, place.Same place' →
      Accord place.after.length next next' → (once next place).isSome = (once next' place').isSome)
    (hsame : place.Same place') (h : Accord place.after.length next next') :
    (repeat? once next place).isSome = (repeat? once next' place').isSome := by
  induction hlength : place.after.length using Nat.strong_induction_on
    generalizing place place' with
  | _ length ih =>
      rw [repeat?, repeat?, Option.isSome_or, Option.isSome_or, h _ _ hsame le_rfl]
      congr 1
      refine honce hsame fun further further' hfurther hle => ?_
      rw [hfurther.2, hsame.2]
      split
      · next hlt =>
        refine ih _ ?_ hfurther (h.mono hle) rfl
        rw [← hlength, hfurther.2, hsame.2]
        exact hlt
      · exact h _ _ hfurther hle

theorem isSome_match?_congr (regex : Regex) (hsame : place.Same place')
    (h : Accord place.after.length next next') :
    (regex.match? next place).isSome = (regex.match? next' place').isSome := by
  induction regex generalizing next next' place place' with
  | empty => exact h _ _ hsame le_rfl
  | char c => exact Place.isSome_step?_congr hsame h
  | any => exact Place.isSome_step?_congr hsame h
  | oneOf ranges => exact Place.isSome_step?_congr hsame h
  | seq first second hfirst hsecond =>
      exact hfirst hsame fun _ _ hfurther hle => hsecond hfurther (h.mono hle)
  | alt left right hleft hright =>
      rw [match?, match?, Option.isSome_or, Option.isSome_or, hleft hsame h, hright hsame h]
  | star body hbody => exact isSome_repeat?_congr hbody hsame h
  | plus body hbody =>
      exact hbody hsame fun _ _ hfurther hle =>
        isSome_repeat?_congr hbody hfurther (h.mono hle)
  | textStart =>
      rw [match?, match?, ← hsame.1]
      split
      · exact h _ _ hsame le_rfl
      · rfl
  | textEnd =>
      rw [match?, match?, ← hsame.2]
      split
      · exact h _ _ hsame le_rfl
      · rfl
  | group number body hbody =>
      exact hbody hsame fun _ _ hfurther hle => h _ _ hfurther hle

/-! ### One character at a time -/

section Step

variable {c : Char} {atStart : Bool} {rest : List Char} {groups : List (Nat × List Char)}

/-- What comes next does not look at what groups have kept. -/
abbrev Blind (next : Place → Option Place) : Prop := ∀ length, Accord length next next

theorem Blind.match? (regex : Regex) (h : Blind next) : Blind (regex.match? next) :=
  fun _ _ _ hsame _ => isSome_match?_congr regex hsame (h _)

theorem Blind.repeat? (body : Regex) (h : Blind next) : Blind (repeat? body.match? next) :=
  h.match? (star body)

theorem Blind.isSome_record (h : Blind next) (place further : Place) (number : Nat) :
    (next (place.record number further)).isSome = (next further).isSome :=
  h _ _ _ ⟨rfl, rfl⟩ le_rfl

theorem Blind.record (h : Blind next) (place : Place) (number : Nat) :
    Blind fun further => next (place.record number further) :=
  fun length _ _ hsame hle => h length _ _ hsame hle

/-- Another round of a repetition if some of the text has been taken, and `next` otherwise. -/
def again (body : Regex) (next : Place → Option Place) (length : Nat) (place : Place) :
    Option Place :=
  if place.after.length < length then repeat? body.match? next place else next place

theorem Blind.again (body : Regex) (h : Blind next) (length : Nat) :
    Blind (again body next length) := by
  intro _ place place' hsame hle
  rw [Regex.again, Regex.again, hsame.2]
  split
  · exact h.repeat? body _ _ _ hsame hle
  · exact h _ _ _ hsame hle

theorem isSome_repeat?_iff (body : Regex) (next : Place → Option Place) (place : Place) :
    (repeat? body.match? next place).isSome = true ↔
      (body.match? (again body next place.after.length) place).isSome = true ∨
        (next place).isSome = true := by
  rw [repeat?, Option.isSome_or, Bool.or_eq_true]
  rfl

/-- At the end of the text an expression matches the empty piece or nothing. -/
theorem isSome_match?_nil_iff (regex : Regex) (h : Blind next) :
    (regex.match? next ⟨atStart, [], groups⟩).isSome = true ↔
      regex.nullable atStart true = true ∧ (next ⟨atStart, [], groups⟩).isSome = true := by
  induction regex generalizing next with
  | empty => simp [match?, nullable]
  | char c => simp [match?, nullable, Place.step?]
  | any => simp [match?, nullable, Place.step?]
  | oneOf ranges => simp [match?, nullable, Place.step?]
  | seq first second hfirst hsecond =>
      rw [match?, nullable, hfirst (h.match? second), hsecond h, Bool.and_eq_true, and_assoc]
  | alt left right hleft hright =>
      rw [match?, nullable, Option.isSome_or, Bool.or_eq_true, Bool.or_eq_true, hleft h, hright h,
        or_and_right]
  | star body hbody =>
      rw [match?, isSome_repeat?_iff, hbody (h.again body _)]
      simp [again, nullable]
  | plus body hbody =>
      rw [match?, hbody (h.repeat? body), isSome_repeat?_iff, hbody (h.again body _)]
      simp [again, nullable]
  | textStart => cases atStart <;> simp [match?, nullable]
  | textEnd => simp [match?, nullable]
  | group number body hbody => rw [match?, hbody (h.record _ number), h.isSome_record, nullable]

theorem isSome_repeat?_cons_iff (body : Regex) (h : Blind next)
    (hbody : ∀ {next : Place → Option Place}, Blind next →
      ((body.match? next ⟨atStart, c :: rest, groups⟩).isSome = true ↔
        body.nullable atStart false = true ∧ (next ⟨atStart, c :: rest, groups⟩).isSome = true ∨
          ∃ residue ∈ body.residues atStart c,
            (residue.match? next ⟨false, rest, groups⟩).isSome = true)) :
    (repeat? body.match? next ⟨atStart, c :: rest, groups⟩).isSome = true ↔
      (next ⟨atStart, c :: rest, groups⟩).isSome = true ∨
        ∃ residue ∈ body.residues atStart c,
          (residue.match? (repeat? body.match? next) ⟨false, rest, groups⟩).isSome = true := by
  -- After a residue some of the text has been taken, so there is another round.
  have hagain (residue : Regex) :
      (residue.match? (again body next (rest.length + 1)) ⟨false, rest, groups⟩).isSome =
        (residue.match? (repeat? body.match? next) ⟨false, rest, groups⟩).isSome := by
    refine isSome_match?_congr residue ⟨rfl, rfl⟩ fun place place' hsame hle => ?_
    rw [again, if_pos (Nat.lt_succ_of_le hle)]
    exact h.repeat? body _ _ _ hsame le_rfl
  have hnext : again body next (rest.length + 1) ⟨atStart, c :: rest, groups⟩ =
      next ⟨atStart, c :: rest, groups⟩ := if_neg (lt_irrefl _)
  rw [isSome_repeat?_iff, List.length_cons, hbody (h.again body _), hnext, or_right_comm,
    or_iff_right_of_imp And.right]
  simp only [hagain]

/-- Before a character an expression matches the empty piece, or takes the character and leaves it
to one of the residues to match what comes after it. -/
theorem isSome_match?_cons_iff (regex : Regex) (h : Blind next) :
    (regex.match? next ⟨atStart, c :: rest, groups⟩).isSome = true ↔
      regex.nullable atStart false = true ∧ (next ⟨atStart, c :: rest, groups⟩).isSome = true ∨
        ∃ residue ∈ regex.residues atStart c,
          (residue.match? next ⟨false, rest, groups⟩).isSome = true := by
  induction regex generalizing next with
  | empty => simp [match?, nullable, residues]
  | char d => by_cases hc : c = d <;> simp [match?, nullable, residues, Place.step?, hc]
  | any => by_cases hc : c = '\n' <;> simp [match?, nullable, residues, Place.step?, hc]
  | oneOf ranges =>
      simp only [match?, nullable, residues, Place.step?]
      split <;> simp [match?]
  | seq first second hfirst hsecond =>
      -- The second part meets the character only if the first can match the empty piece.
      rw [match?, hfirst (h.match? second), hsecond h, residues, nullable]
      cases first.nullable atStart false with
      | false => simp [match?]
      | true =>
          simp only [true_and, Bool.true_and, if_true, List.mem_append, or_and_right, exists_or,
            List.mem_map, exists_exists_and_eq_and, match?]
          rw [or_assoc, or_comm (a := ∃ residue, _)]
  | alt left right hleft hright =>
      simp only [match?, nullable, residues, Option.isSome_or, Bool.or_eq_true, hleft h, hright h,
        List.mem_append, or_and_right, exists_or]
      exact or_or_or_comm
  | star body hbody =>
      rw [match?, isSome_repeat?_cons_iff body h hbody]
      simp [nullable, residues, match?]
  | plus body hbody =>
      rw [match?, hbody (h.repeat? body), isSome_repeat?_cons_iff body h hbody]
      simp only [nullable, residues, List.mem_map, exists_exists_and_eq_and, match?]
      tauto
  | textStart => cases atStart <;> simp [match?, nullable, residues]
  | textEnd => simp [match?, nullable, residues]
  | group number body hbody =>
      have hrecord (place : Place) (residue : Regex) :
          (residue.match? (fun further => next (place.record number further))
              ⟨false, rest, groups⟩).isSome = (residue.match? next ⟨false, rest, groups⟩).isSome :=
        isSome_match?_congr residue ⟨rfl, rfl⟩ fun _ _ hsame hle => h _ _ _ hsame hle
      rw [match?, hbody (h.record _ number), h.isSome_record, nullable, residues]
      simp only [hrecord]

end Step

/-! ### The search -/

theorem isSome_captures?_go_iff (regex : Regex) (atStart : Bool) (text : List Char) :
    (captures?.go regex atStart text).isSome = true ↔
      (regex.match? some ⟨atStart, text, []⟩).isSome = true ∨
        ∃ c rest, text = c :: rest ∧ (captures?.go regex false rest).isSome = true := by
  cases text with
  | nil => simp [captures?.go]
  | cons c rest => simp [captures?.go, Option.isSome_or]

theorem foundIn_go_iff (regex : Regex) (atStart : Bool) (states : List Regex) (text : List Char) :
    foundIn.go regex atStart states text = true ↔
      (∃ state ∈ states, (state.match? some ⟨atStart, text, []⟩).isSome = true) ∨
        ∃ c rest, text = c :: rest ∧ (captures?.go regex false rest).isSome = true := by
  have hblind : Blind some := fun _ _ _ _ _ => rfl
  induction text generalizing atStart states with
  | nil => simp [foundIn.go, isSome_match?_nil_iff _ hblind]
  | cons c rest ih =>
      -- One of the residues matches the rest, or the expression itself does from here on.
      have hrest : foundIn.go regex false (states.flatMap (residues atStart c) ++ [regex]).eraseDups
            rest = true ↔
          (∃ state ∈ states, ∃ residue ∈ state.residues atStart c,
            (residue.match? some ⟨false, rest, []⟩).isSome = true) ∨
              (captures?.go regex false rest).isSome = true := by
        rw [isSome_captures?_go_iff, ← or_assoc]
        refine (ih false _).trans (or_congr_left ?_)
        simp only [List.mem_eraseDups, List.mem_append, List.mem_flatMap, List.mem_singleton,
          or_and_right, exists_or, exists_eq_left]
        refine or_congr_left ⟨?_, ?_⟩
        · rintro ⟨residue, ⟨state, hstate, hresidue⟩, hmatch⟩
          exact ⟨state, hstate, residue, hresidue, hmatch⟩
        · rintro ⟨state, hstate, residue, hresidue, hmatch⟩
          exact ⟨residue, ⟨state, hstate, hresidue⟩, hmatch⟩
      rw [foundIn.go, Bool.or_eq_true]
      refine (or_congr_right hrest).trans ?_
      simp [isSome_match?_cons_iff _ hblind, and_or_left, exists_or, or_assoc]

/-- An expression is found in a text exactly if it matches a piece of the text. -/
theorem isSome_captures?_iff (regex : Regex) (text : List Char) :
    (regex.captures? text).isSome = true ↔ regex.foundIn text = true := by
  rw [captures?, foundIn, isSome_captures?_go_iff, foundIn_go_iff]
  simp

end DepNorm.Regex
