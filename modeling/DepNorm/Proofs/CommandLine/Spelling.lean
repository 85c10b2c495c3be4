import DepNorm.CommandLine.Run
import DepNorm.Proofs.CommandLine.Argument
import DepNorm.Proofs.Configuration
import DepNorm.Proofs.TokenTable.Text

/-!
The two spellings of an option with a value: as two arguments, and as one with an equals sign. The
name and the equals sign are taken off the one argument as often as they are there, so that the
spellings agree exactly on the values that do not begin with them.
-/

namespace DepNorm.CommandLine

variable {argument value : String} {before after after' : List String} {setting : Setting}

/-! ### Options before others -/

def namesOfSettings : List String := ["-f", "--filters", "-g", "--graph"]

/-- The arguments are options, each with its value if it takes one from the next argument. -/
inductive Complete : List String → Prop
  | nil : Complete []
  | alone {option : String} {rest : List String} (hoption : option.toList.head? = some '-')
      (hend : option ≠ "--") (hname : option ∉ namesOfSettings) (hrest : Complete rest) :
      Complete (option :: rest)
  | valued {option : String} {rest : List String} (hname : option ∈ namesOfSettings)
      (value : String) (hrest : Complete rest) :
      Complete (option :: value :: rest)

theorem Setting.names_subset (setting : Setting) : setting.names ⊆ namesOfSettings := by
  cases setting <;> decide

theorem exists_read_eq_named (h : argument ∈ namesOfSettings) :
    ∃ setting, Argument.read argument = .named setting := by
  simp only [namesOfSettings, List.mem_cons, List.not_mem_nil, or_false] at h
  rcases h with rfl | rfl | rfl | rfl <;> exact ⟨_, rfl⟩

theorem read_alone (hoption : argument.toList.head? = some '-') (hend : argument ≠ "--")
    (hname : argument ∉ namesOfSettings) :
    (∀ setting, Argument.read argument ≠ .named setting) ∧
      Argument.read argument ≠ .endOfOptions ∧ Argument.read argument ≠ .word := by
  refine ⟨fun setting hread => ?_, fun hread => ?_, fun hread => ?_⟩
  · cases read_eq_iff.mp hread with
    | named hnamed => exact hname (setting.names_subset hnamed)
  · cases read_eq_iff.mp hread with
    | endOfOptions => exact hend rfl
  · cases read_eq_iff.mp hread with
    | word hhyphen => exact hhyphen hoption

/-- Complete options do to the rest of the arguments what they do to other arguments that are read
in the same way. -/
theorem Complete.parse_congr (hbefore : Complete before)
    (h : ∀ options : Options, options.parse after = options.parse after') (options : Options) :
    options.parse (before ++ after) = options.parse (before ++ after') := by
  induction hbefore generalizing options with
  | nil => exact h options
  | alone hoption hend hname _ ih =>
      obtain ⟨hnamed, hends, hword⟩ := read_alone hoption hend hname
      simp only [List.cons_append, Options.parse]
      split
      · rfl
      · rfl
      · exact ih _
      · next setting hread => exact absurd hread (hnamed setting)
      · simp only [ih]
      · next hread => exact absurd hread hends
      · rfl
      · next hread => exact absurd hread hword
  | valued hname value _ ih =>
      obtain ⟨setting, hread⟩ := exists_read_eq_named hname
      simp only [List.cons_append, Options.parse, hread, ih]

theorem Complete.run_congr (hbefore : Complete before)
    (h : ∀ options : Options, options.parse after = options.parse after') (sources : Sources) :
    run (before ++ after) sources = run (before ++ after') sources := by
  rw [run, run, hbefore.parse_congr h]

/-! ### The two spellings -/

theorem parse_opening_append (options : Options) (setting : Setting) (value : String)
    (after : List String) :
    options.parse ((setting.opening ++ value) :: after) =
      options.parse (setting.name :: setting.stripped value :: after) := by
  simp only [Options.parse, read_opening_append, read_name]

theorem Complete.run_opening_append (hbefore : Complete before) (setting : Setting) (value : String)
    (after : List String) (sources : Sources) :
    run (before ++ (setting.opening ++ value) :: after) sources =
      run (before ++ setting.name :: setting.stripped value :: after) sources :=
  hbefore.run_congr (fun options => parse_opening_append options setting value after) sources

/-! ### Values that begin with an opening -/

theorem isPrefix_of_isPrefix_append_cons {opening text more : List Char} {c : Char}
    (hc : c ∉ opening) (h : opening <+: text ++ c :: more) : opening <+: text := by
  have htext : text ++ [c] <+: text ++ c :: more := by simp
  rcases List.prefix_or_prefix_of_prefix h htext with hbegins | hbegins
  · rcases List.prefix_concat_iff.mp hbegins with rfl | hbegins
    · simp at hc
    · exact hbegins
  · exact absurd (hbegins.subset (by simp)) hc

theorem exists_parse_eq_error {text : List Char} (h : value.toList = '-' :: text) :
    ∃ fault, Filters.parse value = .error fault := by
  obtain ⟨item, items, hitems⟩ := List.exists_cons_of_ne_nil (List.splitOn_ne_nil ',' text)
  have hunknown : Filters.Unknown ('-' :: item) := by
    have htrim : Text.trim ('-' :: item) = '-' :: Text.trimEnd item :=
      Text.trimEnd_cons (by decide) item
    rw [Filters.Unknown, htrim]
    exact ⟨List.cons_ne_nil _ _, fun rule => by cases rule <;> simp [Rule.name]⟩
  have hsplit : ('-' :: text).splitOn ',' = ('-' :: item) :: items := by
    rw [List.splitOn_eq_splitOnP] at hitems ⊢
    simp [List.splitOnP_cons_eq_if_modifyHead, hitems]
  refine ⟨.unknownFilter (String.ofList (Text.trim ('-' :: item))), ?_⟩
  rw [Filters.parse_eq_foldlM, h, hsplit, List.foldlM_cons, Filters.readItem_of_unknown hunknown]
  rfl

theorem run_of_parse_error {fault : Fault} (h : Filters.parse value = .error fault)
    (after : List String) (sources : Sources) :
    run (Setting.filters.name :: value :: after) sources =
      ⟨2, "", (UsageFault.invalidFilters value fault).message ++ "\n"⟩ := by
  simp only [run, Options.parse, read_name, Options.put, h]
  rfl

theorem exitCode_of_parse_ok {filters : Filters} (h : Filters.parse value = .ok filters)
    (sources : Sources) :
    (run [Setting.filters.name, value, "cats"] sources).exitCode = 0 := by
  have hword : Argument.read "cats" = .word := by decide
  simp only [run, Options.parse, read_name, Options.put, h]
  simp [bind, Except.bind, hword, Options.withInput, Options.perform]

theorem exists_message_invalidFilters (value : String) (fault : Fault) : ∃ more : List Char,
    (UsageFault.invalidFilters value fault).message.toList =
      "error: invalid --filters '".toList ++ (value.toList ++ '\'' :: more) := by
  have hmessage : (UsageFault.invalidFilters value fault).message =
      "error: invalid --filters '" ++ value ++ "': " ++ fault.message := rfl
  refine ⟨": ".toList ++ fault.message.toList, ?_⟩
  rw [hmessage]
  simp

theorem run_filters_ne {other : String} (hvalue : Setting.filters.opening.toList <+: value.toList)
    (hother : ¬ Setting.filters.opening.toList <+: other.toList) (sources : Sources) :
    run [Setting.filters.name, other, "cats"] sources ≠
      run [Setting.filters.name, value, "cats"] sources := by
  obtain ⟨text, htext⟩ := hvalue
  obtain ⟨fault, hfault⟩ := exists_parse_eq_error htext.symm
  rw [run_of_parse_error hfault]
  intro h
  cases hparse : Filters.parse other with
  | ok filters =>
      have hcode := congrArg Outcome.exitCode h
      rw [exitCode_of_parse_ok hparse] at hcode
      cases hcode
  | error fault' =>
      rw [run_of_parse_error hparse] at h
      obtain ⟨more, hmore⟩ := exists_message_invalidFilters value fault
      obtain ⟨more', hmore'⟩ := exists_message_invalidFilters other fault'
      have herrors : (UsageFault.invalidFilters other fault').message.toList =
          (UsageFault.invalidFilters value fault).message.toList :=
        congrArg String.toList ((String.append_left_inj _).mp (Outcome.mk.inj h).2.2)
      rw [hmore, hmore', List.append_cancel_left_eq, ← htext, List.append_assoc] at herrors
      exact hother (isPrefix_of_isPrefix_append_cons (by decide) ⟨_, herrors.symm⟩)

theorem run_graph (path : String) (sources : Sources) :
    run [Setting.graph.name, path] sources =
      Options.perform { graph := some path } sources := by
  simp only [run, Options.parse, read_name, Options.put]
  rfl

theorem run_graph_congr {path : String} {sources sources' : Sources}
    (h : sources.read path = sources'.read path) :
    run [Setting.graph.name, path] sources = run [Setting.graph.name, path] sources' := by
  rw [run_graph, run_graph]
  simp only [Options.perform, Option.map_some, reportGraph, h]

theorem run_graph_of_read_error {path : String} {sources : Sources} {fault : FileFault}
    (h : sources.read path = .error fault) :
    run [Setting.graph.name, path] sources =
      ⟨2, "", (GraphFault.unreadable path fault).message ++ "\n"⟩ := by
  rw [run_graph]
  simp only [Options.perform, Option.map_some, reportGraph, h]
  rfl

theorem message_unreadable_inj {path reason reason' : String} (hpath : path ≠ "-")
    (h : (GraphFault.unreadable path (.other reason)).message =
      (GraphFault.unreadable path (.other reason')).message) : reason = reason' := by
  have hmessage (reason : String) : (GraphFault.unreadable path (.other reason)).message =
      "error: failed to read graph '" ++ path ++ "': " ++ reason := if_neg hpath
  rw [hmessage, hmessage] at h
  exact (String.append_right_inj _).mp h

theorem exists_run_graph_ne {other : String}
    (hvalue : Setting.graph.opening.toList <+: value.toList)
    (hother : ¬ Setting.graph.opening.toList <+: other.toList) :
    ∃ sources,
      run [Setting.graph.name, other] sources ≠ run [Setting.graph.name, value] sources := by
  have hne : other ≠ value := fun h => hother (h ▸ hvalue)
  have hinput : value ≠ "-" := by
    rintro rfl
    exact absurd hvalue (by decide)
  -- Only of the file that the value names the fault is another.
  let sources (reason : String) : Sources :=
    { input := "", file := fun path => .error (.other (if path = value then reason else "")) }
  have hread (reason : String) : (sources reason).read value = .error (.other reason) := by
    simp [sources, Sources.read, hinput]
  have hsame : run [Setting.graph.name, other] (sources "") =
      run [Setting.graph.name, other] (sources "?") :=
    run_graph_congr (by simp [sources, Sources.read, Sources.readInput, hne])
  by_contra! h
  rw [h, h, run_graph_of_read_error (hread _), run_graph_of_read_error (hread _)] at hsame
  have hmessage := (String.append_left_inj _).mp (Outcome.mk.inj hsame).2.2
  exact absurd (message_unreadable_inj hinput hmessage) (by decide)

/-- What begins with an opening is another value in each spelling. -/
theorem exists_run_ne {other : String} (hvalue : setting.opening.toList <+: value.toList)
    (hother : ¬ setting.opening.toList <+: other.toList) :
    ∃ after sources,
      run (setting.name :: other :: after) sources ≠
        run (setting.name :: value :: after) sources := by
  cases setting with
  | filters =>
      exact ⟨["cats"], { input := "", file := fun _ => .error .missing },
        run_filters_ne hvalue hother _⟩
  | graph => exact ⟨[], exists_run_graph_ne hvalue hother⟩

/-- An option of one argument is the option of two whose value lacks the openings, and so the two
spellings of a value agree wherever they stand exactly if it does not begin with one. -/
theorem spellings_agree_iff (setting : Setting) (value : String) :
    (∃ count rest,
      value.toList = (List.replicate count setting.opening.toList).flatten ++ rest.toList ∧
        ¬ setting.opening.toList <+: rest.toList ∧
        ∀ before, Complete before → ∀ after sources,
          run (before ++ (setting.opening ++ value) :: after) sources =
            run (before ++ setting.name :: rest :: after) sources) ∧
      ((∀ before, Complete before → ∀ after sources,
          run (before ++ (setting.opening ++ value) :: after) sources =
            run (before ++ setting.name :: value :: after) sources) ↔
        ¬ setting.opening.toList <+: value.toList) := by
  obtain ⟨count, hvalue, hend⟩ :=
    Text.exists_replicate_append_afterAll setting.toList_opening_ne_nil value.toList
  rw [← String.toList_ofList (l := Text.afterAll _ _), ← Setting.stripped] at hvalue hend
  refine ⟨⟨count, setting.stripped value, hvalue, hend, fun before hbefore after sources =>
    hbefore.run_opening_append setting value after sources⟩, fun hagree hbegins => ?_,
    fun hbegins before hbefore after sources => ?_⟩
  · obtain ⟨after, sources, hne⟩ := exists_run_ne hbegins hend
    exact hne ((Complete.nil.run_opening_append setting value after sources).symm.trans
      (hagree [] .nil after sources))
  · rw [hbefore.run_opening_append, Setting.stripped, Text.afterAll_of_not_isPrefix hbegins,
      String.ofList_toList]

theorem spellings_agree_iff_mods :
    Complete ["--color"] ∧ ¬ "--filters=".toList <+: "mods".toList ∧ ∀ sources,
      run ["--color", "--filters=mods", "cats"] sources =
        run ["--color", "--filters", "mods", "cats"] sources := by
  have hcolor : Complete ["--color"] := .alone (by decide) (by decide) (by decide) .nil
  have hmods : ¬ Setting.filters.opening.toList <+: "mods".toList := by decide
  exact ⟨hcolor, hmods,
    (spellings_agree_iff .filters "mods").2.mpr hmods ["--color"] hcolor ["cats"]⟩

/-- In one argument the value switches a rule on, and in an argument of its own it is refused. -/
theorem exists_spellings_disagree :
    let sources : Sources := { input := "", file := fun _ => .error .missing }
    (run ["--filters=--filters=mods", "cats"] sources).exitCode = 0 ∧
      (run ["--filters", "--filters=mods", "cats"] sources).exitCode = 2 ∧
      ¬ ∀ before, Complete before → ∀ after sources,
        run (before ++ (Setting.filters.opening ++ "--filters=mods") :: after) sources =
          run (before ++ Setting.filters.name :: "--filters=mods" :: after) sources := by
  intro sources
  have hstripped : Setting.filters.stripped "--filters=mods" = "mods" := by
    rw [Setting.stripped, show "--filters=mods".toList = Setting.filters.opening.toList ++
      "mods".toList from rfl, Text.afterAll_append (Setting.toList_opening_ne_nil _),
      Text.afterAll_of_not_isPrefix (by decide), String.ofList_toList]
  have hmods : Filters.parse "mods" = .ok (Filters.ofList [.quantity]) := by decide +kernel
  have hhyphen : "--filters=mods".toList = '-' :: "-filters=mods".toList := rfl
  have hone : (run ["--filters=--filters=mods", "cats"] sources).exitCode = 0 := by
    have h := Complete.nil.run_opening_append .filters "--filters=mods" ["cats"] sources
    rw [hstripped] at h
    exact (congrArg Outcome.exitCode h).trans (exitCode_of_parse_ok hmods sources)
  have htwo : (run ["--filters", "--filters=mods", "cats"] sources).exitCode = 2 := by
    obtain ⟨fault, hfault⟩ := exists_parse_eq_error hhyphen
    exact congrArg Outcome.exitCode (run_of_parse_error hfault ["cats"] sources)
  refine ⟨hone, htwo, fun hagree => ?_⟩
  have hcode := congrArg Outcome.exitCode (hagree [] .nil ["cats"] sources)
  exact absurd (hone.symm.trans (hcode.trans htwo)) (by decide)

end DepNorm.CommandLine
