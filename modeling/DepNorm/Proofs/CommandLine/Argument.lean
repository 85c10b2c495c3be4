import DepNorm.CommandLine.Arguments
import Mathlib.Data.List.Infix
import Mathlib.Tactic.Common

/-!
What one argument says by itself. `Says` gives the arguments of each kind, and `read_eq_iff` says
that the reader takes an argument for what it says.
-/

namespace DepNorm.CommandLine

variable {argument value : String} {setting : Setting}

/-! ### Options of one argument -/

/-- What the value follows in an option of one argument. -/
def Setting.opening (setting : Setting) : String := setting.name ++ "="

theorem Setting.toList_opening (setting : Setting) :
    setting.opening.toList = setting.name.toList ++ ['='] := String.toList_append

theorem Setting.toList_opening_ne_nil (setting : Setting) : setting.opening.toList ≠ [] := by
  cases setting <;> decide

theorem Setting.opening_isPrefix (setting : Setting) (value : String) :
    setting.opening.toList <+: (setting.opening ++ value).toList := by
  rw [String.toList_append]
  exact List.prefix_append ..

/-- The value without the openings that it begins with. -/
def Setting.stripped (setting : Setting) (value : String) : String :=
  String.ofList (Text.afterAll setting.opening.toList value.toList)

theorem Setting.valueIn?_opening_append (setting : Setting) (value : String) :
    setting.valueIn? (setting.opening ++ value) = some (setting.stripped value) := by
  rw [valueIn?, ← toList_opening,
    if_pos (List.isPrefixOf_iff_prefix.mpr (setting.opening_isPrefix value)), String.toList_append,
    Text.afterAll_append setting.toList_opening_ne_nil, stripped]

def wholeArguments : List String :=
  ["-h", "--help", "-V", "--version", "--color", "--no-color", "-f", "--filters", "-g", "--graph",
    "--"]

theorem opening_append_ne (setting : Setting) (value : String) :
    ∀ other ∈ wholeArguments, setting.opening ++ value ≠ other := by
  have hnot : ∀ other ∈ wholeArguments, ¬ setting.opening.toList <+: other.toList := by
    cases setting <;> decide
  rintro other hmem rfl
  exact hnot _ hmem (setting.opening_isPrefix value)

theorem read_opening_append (setting : Setting) (value : String) :
    Argument.read (setting.opening ++ value) = .given setting (setting.stripped value) := by
  have hother := opening_append_ne setting value
  simp only [wholeArguments, List.forall_mem_cons] at hother
  have hvalue := setting.valueIn?_opening_append value
  cases setting with
  | filters => simp [Argument.read, hother, hvalue]
  | graph =>
      have hfilters : Setting.filters.valueIn? (Setting.graph.opening ++ value) = none := by
        simp [Setting.valueIn?, Setting.opening, Setting.name]
      simp [Argument.read, hother, hvalue, hfilters]

theorem read_name (setting : Setting) : Argument.read setting.name = .named setting := by
  cases setting <;> rfl

/-! ### The arguments of each kind -/

def Setting.names : Setting → List String
  | filters => ["-f", "--filters"]
  | graph => ["-g", "--graph"]

/-- The argument is the option's opening, once or more, with the value behind it. -/
def Setting.Gives (setting : Setting) (argument value : String) : Prop :=
  (∃ count, argument.toList =
      (List.replicate (count + 1) setting.opening.toList).flatten ++ value.toList) ∧
    ¬ setting.opening.toList <+: value.toList

/-- What an argument says that is not the value of the one before it. -/
inductive Says : String → Argument → Prop
  | help {argument : String} (hname : argument ∈ ["-h", "--help"]) : Says argument .help
  | version {argument : String} (hname : argument ∈ ["-V", "--version"]) : Says argument .version
  | color : Says "--color" (.color true)
  | noColor : Says "--no-color" (.color false)
  | named {setting : Setting} {argument : String} (hname : argument ∈ setting.names) :
      Says argument (.named setting)
  | given {setting : Setting} {argument value : String} (hvalue : setting.Gives argument value) :
      Says argument (.given setting value)
  | endOfOptions : Says "--" .endOfOptions
  | unknown {argument : String} (hhyphen : argument.toList.head? = some '-')
      (hwhole : argument ∉ wholeArguments)
      (hopening : ∀ setting : Setting, ¬ setting.opening.toList <+: argument.toList) :
      Says argument .unknown
  | word {argument : String} (hhyphen : argument.toList.head? ≠ some '-') : Says argument .word

theorem Setting.opening_isPrefix_iff :
    setting.opening.toList <+: argument.toList ↔ ∃ rest, argument = setting.opening ++ rest := by
  constructor
  · rintro ⟨text, htext⟩
    refine ⟨String.ofList text, String.toList_inj.mp ?_⟩
    rw [String.toList_append, String.toList_ofList, htext]
  · rintro ⟨rest, rfl⟩
    exact setting.opening_isPrefix rest

theorem Setting.valueIn?_eq_none_iff :
    setting.valueIn? argument = none ↔ ¬ setting.opening.toList <+: argument.toList := by
  rw [valueIn?, ← toList_opening, ← List.isPrefixOf_iff_prefix]
  split <;> simp [*]

theorem Setting.Gives.opening_isPrefix (h : setting.Gives argument value) :
    setting.opening.toList <+: argument.toList := by
  obtain ⟨⟨count, hargument⟩, -⟩ := h
  rw [hargument, List.replicate_succ, List.flatten_cons, List.append_assoc]
  exact List.prefix_append ..

theorem Setting.gives_opening_append_iff {rest : String} :
    setting.Gives (setting.opening ++ rest) value ↔ setting.stripped rest = value := by
  have htail (count : Nat) : (setting.opening ++ rest).toList =
      (List.replicate (count + 1) setting.opening.toList).flatten ++ value.toList ↔
        rest.toList = (List.replicate count setting.opening.toList).flatten ++ value.toList := by
    rw [String.toList_append, List.replicate_succ, List.flatten_cons, List.append_assoc,
      List.append_cancel_left_eq]
  simp only [Gives, htail]
  constructor
  · rintro ⟨⟨count, hrest⟩, hend⟩
    rw [stripped, hrest, Text.afterAll_replicate_append setting.toList_opening_ne_nil hend,
      String.ofList_toList]
  · rintro rfl
    obtain ⟨count, hrest, hend⟩ :=
      Text.exists_replicate_append_afterAll setting.toList_opening_ne_nil rest.toList
    rw [stripped, String.toList_ofList]
    exact ⟨⟨count, hrest⟩, hend⟩

theorem Setting.valueIn?_eq_some_iff :
    setting.valueIn? argument = some value ↔ setting.Gives argument value := by
  by_cases hopening : setting.opening.toList <+: argument.toList
  · obtain ⟨rest, rfl⟩ := opening_isPrefix_iff.mp hopening
    rw [valueIn?_opening_append, gives_opening_append_iff, Option.some_inj]
  · rw [valueIn?_eq_none_iff.mpr hopening]
    exact iff_of_false nofun fun hgives => hopening hgives.opening_isPrefix

theorem read_of_not_hyphen (h : argument.toList.head? ≠ some '-') :
    Argument.read argument = .word := by
  have hwhole (other : String) (hother : other ∈ wholeArguments) : argument ≠ other := by
    have hhyphen : ∀ other ∈ wholeArguments, other.toList.head? = some '-' := by decide
    rintro rfl
    exact h (hhyphen argument hother)
  have hvalue (setting : Setting) : setting.valueIn? argument = none := by
    rw [Setting.valueIn?_eq_none_iff, Setting.opening_isPrefix_iff]
    rintro ⟨rest, rfl⟩
    refine h ?_
    rw [String.toList_append]
    cases setting <;> rfl
  simp only [wholeArguments, List.forall_mem_cons] at hwhole
  simp [Argument.read, hwhole, hvalue, h]

theorem says_read (argument : String) : Says argument (Argument.read argument) := by
  rw [Argument.read]
  split
  · next hhelp => exact .help (by simpa using hhelp)
  split
  · next hversion => exact .version (by simpa using hversion)
  split
  · next hcolor => exact hcolor ▸ .color
  split
  · next hnoColor => exact hnoColor ▸ .noColor
  split
  · next hfilters => exact .named (by simpa [Setting.names] using hfilters)
  split
  · next hgraph => exact .named (by simpa [Setting.names] using hgraph)
  split
  · next hend => exact hend ▸ .endOfOptions
  split
  · next value _ hvalue => exact .given (Setting.valueIn?_eq_some_iff.mp hvalue)
  · next value _ hvalue => exact .given (Setting.valueIn?_eq_some_iff.mp hvalue)
  · next hfilters hgraph =>
    split
    · next hhyphen =>
      refine .unknown hhyphen (by simp_all [wholeArguments]) ?_
      rintro (_ | _)
      · exact Setting.valueIn?_eq_none_iff.mp hfilters
      · exact Setting.valueIn?_eq_none_iff.mp hgraph
    · next hhyphen => exact .word hhyphen

/-- The reader takes an argument for what it says. -/
theorem read_eq_iff {said : Argument} : Argument.read argument = said ↔ Says argument said := by
  refine ⟨fun h => h ▸ says_read argument, fun h => ?_⟩
  cases h with
  | help hname => rcases List.mem_pair.mp hname with rfl | rfl <;> rfl
  | version hname => rcases List.mem_pair.mp hname with rfl | rfl <;> rfl
  | color => rfl
  | noColor => rfl
  | @named setting _ hname =>
      cases setting <;> rcases List.mem_pair.mp hname with rfl | rfl <;> rfl
  | given hvalue =>
      obtain ⟨rest, rfl⟩ := Setting.opening_isPrefix_iff.mp hvalue.opening_isPrefix
      rw [read_opening_append, Setting.gives_opening_append_iff.mp hvalue]
  | endOfOptions => rfl
  | unknown hhyphen hwhole hopening =>
      simp only [wholeArguments, List.mem_cons, List.not_mem_nil, or_false, not_or] at hwhole
      simp [Argument.read, hwhole, hhyphen, Setting.valueIn?_eq_none_iff.mpr (hopening _)]
  | word hhyphen => exact read_of_not_hyphen hhyphen

end DepNorm.CommandLine
