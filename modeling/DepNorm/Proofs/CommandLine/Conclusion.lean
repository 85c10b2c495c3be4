import DepNorm.CommandLine.Run
import DepNorm.Proofs.CommandLine.Reading
import DepNorm.Proofs.CommandLine.Report

/-!
How a call of the program ends. `Concludes` says what is printed and with which exit code, first for
what the arguments ask for, then for the sentence and the graph; `run_eq_iff_concludes` that every
call ends so.
-/

namespace DepNorm.CommandLine

variable {options : Options} {sources : Sources} {sentence : Option String}

/-! ### The parts of a call -/

/-- What a call finds under the name of a source: the standard input or a file. -/
inductive Finds (sources : Sources) : String → Except FileFault String → Prop
  | input (hfault : sources.inputFault = none) : Finds sources "-" (.ok sources.input)
  | inputFault {fault : FileFault} (hfault : sources.inputFault = some fault) :
      Finds sources "-" (.error fault)
  | file {path : String} (hpath : path ≠ "-") : Finds sources path (sources.file path)

/-- What is said on the standard error of a fault in the call. -/
inductive Complains : UsageFault → String → Prop
  | missingFilters : Complains (.missingValue .filters) "error: --filters expects a value"
  | missingGraph : Complains (.missingValue .graph) "error: --graph expects a value"
  | invalidFilters {value : String} {fault : Fault} : Complains (.invalidFilters value fault)
      ("error: invalid --filters '" ++ value ++ "': " ++ fault.message)
  | unknownOption {argument : String} :
      Complains (.unknownOption argument) ("error: unknown option '" ++ argument ++ "'")
  | unreadableInput {fault : FileFault} :
      Complains (.unreadableInput fault) ("error: failed to read stdin: " ++ fault.message)
  | noInput : Complains .noInput ("error: no input provided\n\n" ++ helpText)

/-- The sentence of a call that has a sentence or a graph, or what is wrong. The standard input
takes the place of both. -/
inductive Spoken (options : Options) (sources : Sources) :
    Except UsageFault (Option String) → Prop
  | argued {sentence : String} (hsentence : options.sentence = some sentence) :
      Spoken options sources (.ok (some sentence))
  | silent {source : String} (hsentence : options.sentence = none)
      (hgraph : options.graph = some source) : Spoken options sources (.ok none)
  | input {input : String} (hsentence : options.sentence = none) (hgraph : options.graph = none)
      (hfinds : Finds sources "-" (.ok input)) (hinput : isBlankText input = false) :
      Spoken options sources (.ok (some (String.ofList (Text.trim input.toList))))
  | noInput {input : String} (hsentence : options.sentence = none) (hgraph : options.graph = none)
      (hfinds : Finds sources "-" (.ok input)) (hinput : isBlankText input = true) :
      Spoken options sources (.error .noInput)
  | unreadable {fault : FileFault} (hsentence : options.sentence = none)
      (hgraph : options.graph = none) (hfinds : Finds sources "-" (.error fault)) :
      Spoken options sources (.error (.unreadableInput fault))

/-- What is printed about the sentence. -/
inductive GlossPart (options : Options) : Option String → String → Prop
  | nothing : GlossPart options none ""
  | report {sentence output : String} {passes : List Pass} {lines : List String}
      (hnormal : options.filters.normalizeText sentence = (output, passes))
      (hshows : Shows options.color ("⚙  Gloss: \"" ++ sentence ++ "\"") passes
        [tinted options.color "1" (tinted options.color "32" output)] lines) :
      GlossPart options (some sentence) (inLines lines)

/-- How the part of a call ends that is about the graph. -/
inductive GraphPart (options : Options) (sources : Sources) : Outcome → Prop
  | nothing (hgraph : options.graph = none) : GraphPart options sources ⟨0, "", ""⟩
  | unreadableInput {fault : FileFault} (hgraph : options.graph = some "-")
      (hfinds : Finds sources "-" (.error fault)) :
      GraphPart options sources ⟨2, "", "error: failed to read stdin: " ++ fault.message ++ "\n"⟩
  | unreadable {path : String} {fault : FileFault} (hgraph : options.graph = some path)
      (hpath : path ≠ "-") (hfinds : Finds sources path (.error fault)) :
      GraphPart options sources
        ⟨2, "", "error: failed to read graph '" ++ path ++ "': " ++ fault.message ++ "\n"⟩
  | invalid {source table : String} {fault : Fault} (hgraph : options.graph = some source)
      (hfinds : Finds sources source (.ok table)) (htable : TokenTable.read table = .error fault) :
      GraphPart options sources ⟨2, "", "error: invalid graph: " ++ fault.message ++ "\n"⟩
  | failed {source table : String} {graph : Graph} {fault : Fault}
      (hgraph : options.graph = some source) (hfinds : Finds sources source (.ok table))
      (htable : TokenTable.read table = .ok graph)
      (hnormal : options.filters.normalizeGraph graph = .error fault) :
      GraphPart options sources ⟨1, "", "error: rewrite failed: " ++ fault.message ++ "\n"⟩
  | report {source table : String} {graph normal : Graph} {passes : List Pass}
      {lines : List String} (hgraph : options.graph = some source)
      (hfinds : Finds sources source (.ok table)) (htable : TokenTable.read table = .ok graph)
      (hnormal : options.filters.normalizeGraph graph = .ok (normal, passes))
      (hshows : Shows options.color "⚙  Graph" passes
        ((Text.lines (TokenTable.write normal).toList).map String.ofList) lines) :
      GraphPart options sources ⟨0, inLines lines, ""⟩

/-- How a call with the arguments ends. -/
inductive Concludes (sources : Sources) (arguments : List String) : Outcome → Prop
  | help (hasks : Asks arguments (.ok .help)) :
      Concludes sources arguments ⟨0, helpText ++ "\n", ""⟩
  | version (hasks : Asks arguments (.ok .version)) :
      Concludes sources arguments ⟨0, versionText ++ "\n", ""⟩
  | misused {fault : UsageFault} {message : String} (hasks : Asks arguments (.error fault))
      (hmessage : Complains fault message) : Concludes sources arguments ⟨2, "", message ++ "\n"⟩
  | unspoken {options : Options} {fault : UsageFault} {message : String}
      (hasks : Asks arguments (.ok (.run options))) (hfault : Spoken options sources (.error fault))
      (hmessage : Complains fault message) : Concludes sources arguments ⟨2, "", message ++ "\n"⟩
  | performed {options : Options} {sentence : Option String} {gloss : String} {chart : Outcome}
      (hasks : Asks arguments (.ok (.run options)))
      (hsentence : Spoken options sources (.ok sentence))
      (hgloss : GlossPart options sentence gloss) (hchart : GraphPart options sources chart) :
      Concludes sources arguments ⟨chart.exitCode, gloss ++ chart.output, chart.errors⟩

/-! ### What the program does in each case -/

theorem Finds.read_eq {source : String} {found : Except FileFault String}
    (h : Finds sources source found) : sources.read source = found := by
  cases h with
  | input hfault => rw [Sources.read, if_pos rfl, Sources.readInput, hfault]
  | inputFault hfault => rw [Sources.read, if_pos rfl, Sources.readInput, hfault]
  | file hpath => rw [Sources.read, if_neg hpath]

theorem finds_read (sources : Sources) (source : String) :
    Finds sources source (sources.read source) := by
  by_cases hsource : source = "-"
  · subst hsource
    rw [Sources.read, if_pos rfl, Sources.readInput]
    cases hfault : sources.inputFault with
    | none => exact .input hfault
    | some fault => exact .inputFault hfault
  · rw [Sources.read, if_neg hsource]
    exact .file hsource

theorem Complains.message_eq {fault : UsageFault} {message : String} (h : Complains fault message) :
    fault.message = message := by
  cases h <;> rfl

theorem exists_complains (fault : UsageFault) : ∃ message, Complains fault message := by
  cases fault with
  | missingValue setting => cases setting <;> exact ⟨_, by constructor⟩
  | _ => exact ⟨_, by constructor⟩

theorem Spoken.withInput {spoken : Except UsageFault (Option String)}
    (h : Spoken options sources spoken) : options.withInput sources.readInput =
      spoken.map fun sentence => { options with sentence } := by
  have hinput {found : Except FileFault String} (hfinds : Finds sources "-" found) :
      sources.readInput = found := hfinds.read_eq
  cases h with
  | argued hsentence =>
      rw [Except.map, ← hsentence]
      exact if_pos (by simp [hsentence])
  | silent hsentence hgraph =>
      rw [Except.map, ← hsentence]
      exact if_pos (by simp [hgraph])
  | input hsentence hgraph hfinds hblank =>
      simp [Options.withInput, hsentence, hgraph, hinput hfinds, hblank, Except.map]
  | noInput hsentence hgraph hfinds hblank =>
      simp [Options.withInput, hsentence, hgraph, hinput hfinds, hblank, Except.map]
  | unreadable hsentence hgraph hfinds =>
      simp [Options.withInput, hsentence, hgraph, hinput hfinds, Except.map]

theorem exists_spoken (options : Options) (sources : Sources) :
    ∃ spoken, Spoken options sources spoken := by
  cases hsentence : options.sentence with
  | some sentence => exact ⟨_, .argued hsentence⟩
  | none =>
      cases hgraph : options.graph with
      | some source => exact ⟨_, .silent hsentence hgraph⟩
      | none =>
          have hfinds := finds_read sources "-"
          cases hread : sources.read "-" with
          | error fault => exact ⟨_, .unreadable hsentence hgraph (hread ▸ hfinds)⟩
          | ok input =>
              rw [hread] at hfinds
              cases hinput : isBlankText input with
              | true => exact ⟨_, .noInput hsentence hgraph hfinds hinput⟩
              | false => exact ⟨_, .input hsentence hgraph hfinds hinput⟩

theorem exists_glossPart (options : Options) (sentence : Option String) :
    ∃ gloss, GlossPart options sentence gloss := by
  cases sentence with
  | none => exact ⟨_, .nothing⟩
  | some sentence =>
      obtain ⟨lines, hshows⟩ := exists_shows options.color ("⚙  Gloss: \"" ++ sentence ++ "\"") _ _
      exact ⟨_, @GlossPart.report options sentence _ _ lines rfl hshows⟩

theorem GlossPart.eq {gloss : String} (h : GlossPart options sentence gloss) :
    (sentence.map (reportSentence options)).getD "" = gloss := by
  cases h with
  | nothing => rfl
  | report hnormal hshows =>
      simp only [Option.map_some, Option.getD_some, reportSentence, hnormal, Report.sentence,
        Paint.apply_eq_tinted]
      exact hshows.frame_eq

theorem exists_graphPart (options : Options) (sources : Sources) :
    ∃ chart, GraphPart options sources chart := by
  cases hgraph : options.graph with
  | none => exact ⟨_, .nothing hgraph⟩
  | some source =>
      have hfinds := finds_read sources source
      cases hread : sources.read source with
      | error fault =>
          rw [hread] at hfinds
          by_cases hsource : source = "-"
          · subst hsource
            exact ⟨_, .unreadableInput hgraph hfinds⟩
          · exact ⟨_, .unreadable hgraph hsource hfinds⟩
      | ok table =>
          rw [hread] at hfinds
          cases htable : TokenTable.read table with
          | error fault => exact ⟨_, .invalid hgraph hfinds htable⟩
          | ok graph =>
              cases hnormal : options.filters.normalizeGraph graph with
              | error fault => exact ⟨_, .failed hgraph hfinds htable hnormal⟩
              | ok result =>
                  obtain ⟨lines, hshows⟩ := exists_shows options.color "⚙  Graph" result.2 _
                  exact ⟨_, .report hgraph hfinds htable hnormal hshows⟩

section Stages

variable {source table : String} {graph : Graph}

theorem reportGraph_of_read_error {fault : FileFault} (hread : sources.read source = .error fault) :
    reportGraph options sources source = .error (.unreadable source fault) := by
  rw [reportGraph, hread]
  rfl

theorem reportGraph_of_invalid {fault : Fault} (hread : sources.read source = .ok table)
    (htable : TokenTable.read table = .error fault) :
    reportGraph options sources source = .error (.invalid fault) := by
  rw [reportGraph, hread]
  simp only [Except.mapError, bind, Except.bind, htable]

theorem reportGraph_eq_mapError (hread : sources.read source = .ok table)
    (htable : TokenTable.read table = .ok graph) :
    reportGraph options sources source =
      ((options.filters.normalizeGraph graph).mapError .failed).map fun result =>
        Report.graph options.color (TokenTable.write result.1) result.2 := by
  rw [reportGraph, hread]
  simp only [Except.mapError, bind, Except.bind, htable]
  cases options.filters.normalizeGraph graph <;> rfl

end Stages

theorem GraphPart.perform {chart : Outcome} {gloss : String}
    (hchart : GraphPart options sources chart) (hgloss : GlossPart options sentence gloss) :
    Options.perform { options with sentence } sources =
      ⟨chart.exitCode, gloss ++ chart.output, chart.errors⟩ := by
  have hprinted : (sentence.map (reportSentence { options with sentence })).getD "" = gloss :=
    hgloss.eq
  rw [Options.perform, hprinted]
  cases hchart with
  | nothing hgraph => simp [hgraph]
  | unreadableInput hgraph hfinds =>
      rw [hgraph, Option.map_some, reportGraph_of_read_error hfinds.read_eq, String.append_empty]
      rfl
  | @unreadable path fault hgraph hpath hfinds =>
      have hmessage : (GraphFault.unreadable path fault).message =
          "error: failed to read graph '" ++ path ++ "': " ++ fault.message := if_neg hpath
      rw [hgraph, Option.map_some, reportGraph_of_read_error hfinds.read_eq, String.append_empty,
        ← hmessage]
      rfl
  | invalid hgraph hfinds htable =>
      rw [hgraph, Option.map_some, reportGraph_of_invalid hfinds.read_eq htable,
        String.append_empty]
      rfl
  | failed hgraph hfinds htable hnormal =>
      rw [hgraph, Option.map_some, reportGraph_eq_mapError hfinds.read_eq htable, hnormal,
        String.append_empty]
      rfl
  | report hgraph hfinds htable hnormal hshows =>
      rw [hgraph, Option.map_some, reportGraph_eq_mapError hfinds.read_eq htable, hnormal,
        ← hshows.frame_eq]
      rfl

/-! ### Every call -/

theorem exists_concludes (arguments : List String) (sources : Sources) :
    ∃ outcome, Concludes sources arguments outcome := by
  have hasks := parse_eq_iff.mp (rfl : Options.parse {} arguments = _)
  cases hparse : Options.parse {} arguments with
  | error fault =>
      obtain ⟨message, hmessage⟩ := exists_complains fault
      exact ⟨_, .misused (hparse ▸ hasks) hmessage⟩
  | ok request =>
      rw [hparse] at hasks
      cases request with
      | help => exact ⟨_, .help hasks⟩
      | version => exact ⟨_, .version hasks⟩
      | run options =>
          obtain ⟨spoken, hspoken⟩ := exists_spoken options sources
          cases spoken with
          | error fault =>
              obtain ⟨message, hmessage⟩ := exists_complains fault
              exact ⟨_, .unspoken hasks hspoken hmessage⟩
          | ok sentence =>
              obtain ⟨gloss, hgloss⟩ := exists_glossPart options sentence
              obtain ⟨chart, hchart⟩ := exists_graphPart options sources
              exact ⟨_, .performed hasks hspoken hgloss hchart⟩

theorem Concludes.run {arguments : List String} {outcome : Outcome}
    (h : Concludes sources arguments outcome) : run arguments sources = outcome := by
  cases h with
  | help hasks => rw [CommandLine.run, hasks.parse]
  | version hasks => rw [CommandLine.run, hasks.parse]
  | misused hasks hmessage => rw [CommandLine.run, hasks.parse, ← hmessage.message_eq]
  | unspoken hasks hfault hmessage =>
      rw [CommandLine.run, hasks.parse]
      simp only [hfault.withInput, Except.map, hmessage.message_eq]
  | performed hasks hsentence hgloss hchart =>
      -- The sentence is put into the options, which the graph's part does not look at.
      rw [CommandLine.run, hasks.parse]
      simp only [hsentence.withInput, Except.map]
      exact hchart.perform hgloss

/-- For every list of arguments, standard input and files, the call ends in the way that the
arguments, read from the left, call for, and in no other. -/
theorem run_eq_iff_concludes (arguments : List String) (sources : Sources) (outcome : Outcome) :
    run arguments sources = outcome ↔ Concludes sources arguments outcome := by
  refine ⟨fun h => ?_, Concludes.run⟩
  obtain ⟨other, hother⟩ := exists_concludes arguments sources
  exact (hother.run.symm.trans h) ▸ hother

end DepNorm.CommandLine
