import DepNorm.Proofs.CommandLine.Argument

/-!
What a list of arguments asks for. From the left there are options with their values, up to help,
the version, a fault or the sentence. `Asks` says what each of these comes to, and `parse_eq_iff`
that the reader comes to the same and to nothing else.
-/

namespace DepNorm.CommandLine

variable {argument value : String} {arguments before rest : List String} {setting : Setting}
  {options : Options}

/-! ### Options with their values -/

/-- What an option with its value asks for. -/
inductive Demand where
  | color (on : Bool)
  | graph (source : String)
  | filters (chosen : Filters)
  deriving DecidableEq, Repr

namespace Demand

def color? : Demand → Option Bool
  | .color on => some on
  | _ => none

def graph? : Demand → Option String
  | .graph source => some source
  | _ => none

def filters? : Demand → Option Filters
  | .filters chosen => some chosen
  | _ => none

end Demand

/-- The option takes the value, and then asks for the demand. -/
inductive Setting.Takes : Setting → String → Demand → Prop
  | graph (source : String) : Takes .graph source (.graph source)
  | filters {config : String} {chosen : Filters} (hparse : Filters.parse config = .ok chosen) :
      Takes .filters config (.filters chosen)

/-- The arguments are options with their values, all without fault, and make the demands. -/
inductive Demands : List String → List Demand → Prop
  | nil : Demands [] []
  | color {argument : String} {on : Bool} {rest : List String} {demands : List Demand}
      (hsaid : Says argument (.color on)) (hrest : Demands rest demands) :
      Demands (argument :: rest) (.color on :: demands)
  | named {argument value : String} {setting : Setting} {demand : Demand} {rest : List String}
      {demands : List Demand} (hsaid : Says argument (.named setting))
      (hvalue : setting.Takes value demand) (hrest : Demands rest demands) :
      Demands (argument :: value :: rest) (demand :: demands)
  | given {argument value : String} {setting : Setting} {demand : Demand} {rest : List String}
      {demands : List Demand} (hsaid : Says argument (.given setting value))
      (hvalue : setting.Takes value demand) (hrest : Demands rest demands) :
      Demands (argument :: rest) (demand :: demands)

/-- Of several demands for the same thing the last one counts. -/
def Options.meet (options : Options) (demands : List Demand) : Options where
  sentence := options.sentence
  graph := (demands.filterMap Demand.graph?).getLast?.or options.graph
  filters := (demands.filterMap Demand.filters?).getLast?.getD options.filters
  color := (demands.filterMap Demand.color?).getLast?.getD options.color

/-! ### Where the options end -/

/-- What stands next is at fault. -/
inductive Faulty : List String → UsageFault → Prop
  | unknown {argument : String} {after : List String} (hsaid : Says argument .unknown) :
      Faulty (argument :: after) (.unknownOption argument)
  | missing {argument : String} {setting : Setting} (hsaid : Says argument (.named setting)) :
      Faulty [argument] (.missingValue setting)
  | named {argument config : String} {after : List String} {fault : Fault}
      (hsaid : Says argument (.named .filters)) (hparse : Filters.parse config = .error fault) :
      Faulty (argument :: config :: after) (.invalidFilters config fault)
  | given {argument config : String} {after : List String} {fault : Fault}
      (hsaid : Says argument (.given .filters config))
      (hparse : Filters.parse config = .error fault) :
      Faulty (argument :: after) (.invalidFilters config fault)

/-- What stands next is the sentence, or there is none. Of what follows nothing is an option. -/
inductive Sentence : List String → Option String → Prop
  | nothing : Sentence [] none
  | words {argument : String} {after : List String} (hsaid : Says argument .word) :
      Sentence (argument :: after) (some (" ".intercalate (argument :: after)))
  | behind {argument : String} {after : List String} (hsaid : Says argument .endOfOptions)
      (htext : isBlankText (" ".intercalate after) = false) :
      Sentence (argument :: after) (some (" ".intercalate after))
  | blank {argument : String} {after : List String} (hsaid : Says argument .endOfOptions)
      (htext : isBlankText (" ".intercalate after) = true) : Sentence (argument :: after) none

/-- What is asked for when these options stand before the arguments, none of which is an option
without fault. -/
inductive Stops (options : Options) : List String → Except UsageFault Request → Prop
  | help {argument : String} {after : List String} (hsaid : Says argument .help) :
      Stops options (argument :: after) (.ok .help)
  | version {argument : String} {after : List String} (hsaid : Says argument .version) :
      Stops options (argument :: after) (.ok .version)
  | fault {rest : List String} {fault : UsageFault} (hfault : Faulty rest fault) :
      Stops options rest (.error fault)
  | run {rest : List String} {sentence : Option String} (hsentence : Sentence rest sentence) :
      Stops options rest (.ok (.run { options with sentence }))

/-- What the arguments ask for, or what is wrong with them: options without fault come first, and
what stands behind them decides. -/
inductive Asks : List String → Except UsageFault Request → Prop
  | intro {before rest : List String} {demands : List Demand} {asked : Except UsageFault Request}
      (hbefore : Demands before demands) (hrest : Stops (Options.meet {} demands) rest asked) :
      Asks (before ++ rest) asked

/-! ### The reader -/

theorem Options.meet_cons (options : Options) (demand : Demand) (demands : List Demand) :
    options.meet (demand :: demands) = (options.meet [demand]).meet demands := by
  cases demand <;> simp [meet, Demand.graph?, Demand.filters?, Demand.color?, List.getLast?_cons]

theorem Setting.Takes.put {demand : Demand} (h : setting.Takes value demand) (options : Options) :
    options.put setting value = .ok (options.meet [demand]) := by
  cases h with
  | graph source => rfl
  | filters hparse =>
      simp only [Options.put, hparse]
      rfl

theorem Demands.parse_append {demands : List Demand} (h : Demands before demands)
    (options : Options) (rest : List String) :
    options.parse (before ++ rest) = (options.meet demands).parse rest := by
  -- Each option moves its demand into the options that the arguments behind it are read with.
  induction h generalizing options with
  | nil => rfl
  | color hsaid _ ih =>
      simp only [List.cons_append, Options.parse, read_eq_iff.mpr hsaid]
      exact (ih _).trans (by rw [options.meet_cons]; rfl)
  | named hsaid hvalue _ ih =>
      simp only [List.cons_append, Options.parse, read_eq_iff.mpr hsaid, hvalue.put]
      exact (ih _).trans (by rw [← options.meet_cons])
  | given hsaid hvalue _ ih =>
      simp only [List.cons_append, Options.parse, read_eq_iff.mpr hsaid, hvalue.put]
      exact (ih _).trans (by rw [← options.meet_cons])

theorem Faulty.parse {fault : UsageFault} (h : Faulty rest fault) (options : Options) :
    options.parse rest = .error fault := by
  cases h with
  | unknown hsaid => simp only [Options.parse, read_eq_iff.mpr hsaid]
  | missing hsaid => simp only [Options.parse, read_eq_iff.mpr hsaid]
  | named hsaid hparse =>
      simp only [Options.parse, read_eq_iff.mpr hsaid, Options.put, hparse]
      rfl
  | given hsaid hparse =>
      simp only [Options.parse, read_eq_iff.mpr hsaid, Options.put, hparse]
      rfl

theorem Sentence.parse {sentence : Option String} (h : Sentence rest sentence) {options : Options}
    (hoptions : options.sentence = none) :
    options.parse rest = .ok (.run { options with sentence }) := by
  cases h with
  | nothing => rw [Options.parse, ← hoptions]
  | words hsaid => simp only [Options.parse, read_eq_iff.mpr hsaid]
  | behind hsaid htext =>
      simp only [Options.parse, read_eq_iff.mpr hsaid, htext]
      rfl
  | blank hsaid htext =>
      simp only [Options.parse, read_eq_iff.mpr hsaid, htext, if_true]
      rw [← hoptions]

theorem Stops.parse {asked : Except UsageFault Request} (h : Stops options rest asked)
    (hoptions : options.sentence = none) : options.parse rest = asked := by
  cases h with
  | help hsaid => simp only [Options.parse, read_eq_iff.mpr hsaid]
  | version hsaid => simp only [Options.parse, read_eq_iff.mpr hsaid]
  | fault hfault => exact hfault.parse options
  | run hsentence => exact hsentence.parse hoptions

theorem Asks.parse {asked : Except UsageFault Request} (h : Asks arguments asked) :
    Options.parse {} arguments = asked := by
  obtain ⟨hbefore, hrest⟩ := h
  rw [hbefore.parse_append]
  exact hrest.parse rfl

/-! ### Something is always asked for -/

/-- The arguments are options without fault, and others behind them that ask for something. -/
def Divides (arguments : List String) : Prop :=
  ∃ before demands rest, arguments = before ++ rest ∧ Demands before demands ∧
    ∀ options, ∃ asked, Stops options rest asked

theorem Divides.of_stops (h : ∀ options, ∃ asked, Stops options arguments asked) :
    Divides arguments := ⟨[], [], arguments, rfl, .nil, h⟩

theorem Divides.append {demand : Demand} (h : Divides rest) (front : List String)
    (hfront : ∀ {before demands}, Demands before demands →
      Demands (front ++ before) (demand :: demands)) : Divides (front ++ rest) := by
  obtain ⟨before, demands, rest, rfl, hbefore, hrest⟩ := h
  exact ⟨front ++ before, demand :: demands, rest, (List.append_assoc ..).symm, hfront hbefore,
    hrest⟩

theorem divides_given (hsaid : Says argument (.given setting value)) (h : Divides rest) :
    Divides (argument :: rest) := by
  cases setting with
  | graph => exact h.append [argument] (.given hsaid (.graph value))
  | filters =>
      cases hparse : Filters.parse value with
      | ok chosen => exact h.append [argument] (.given hsaid (.filters hparse))
      | error fault => exact .of_stops fun _ => ⟨_, .fault (.given hsaid hparse)⟩

theorem divides_named (hsaid : Says argument (.named setting)) (h : Divides rest) :
    Divides (argument :: value :: rest) := by
  cases setting with
  | graph => exact h.append [argument, value] (.named hsaid (.graph value))
  | filters =>
      cases hparse : Filters.parse value with
      | ok chosen => exact h.append [argument, value] (.named hsaid (.filters hparse))
      | error fault => exact .of_stops fun _ => ⟨_, .fault (.named hsaid hparse)⟩

/-- Reading comes to an end, at an option that asks for something or at the sentence. -/
theorem divides (arguments : List String) : Divides arguments := by
  -- The recursion steps over two arguments at once where the second is the value of the first.
  match arguments with
  | [] => exact .of_stops fun _ => ⟨_, .run .nothing⟩
  | argument :: rest =>
      obtain ⟨said, hsaid⟩ : ∃ said, Says argument said := ⟨_, says_read argument⟩
      cases said with
      | help => exact .of_stops fun _ => ⟨_, .help hsaid⟩
      | version => exact .of_stops fun _ => ⟨_, .version hsaid⟩
      | color on => exact (divides rest).append [argument] (.color hsaid)
      | named setting =>
          match rest with
          | [] => exact .of_stops fun _ => ⟨_, .fault (.missing hsaid)⟩
          | value :: rest => exact divides_named hsaid (divides rest)
      | given setting value => exact divides_given hsaid (divides rest)
      | endOfOptions =>
          cases htext : isBlankText (" ".intercalate rest) with
          | true => exact .of_stops fun _ => ⟨_, .run (.blank hsaid htext)⟩
          | false => exact .of_stops fun _ => ⟨_, .run (.behind hsaid htext)⟩
      | unknown => exact .of_stops fun _ => ⟨_, .fault (.unknown hsaid)⟩
      | word => exact .of_stops fun _ => ⟨_, .run (.words hsaid)⟩

/-- The reader says what the arguments ask for. -/
theorem parse_eq_iff {asked : Except UsageFault Request} :
    Options.parse {} arguments = asked ↔ Asks arguments asked := by
  refine ⟨fun h => ?_, Asks.parse⟩
  obtain ⟨before, demands, rest, rfl, hbefore, hrest⟩ := divides arguments
  obtain ⟨asked', hstops⟩ := hrest (Options.meet {} demands)
  have hasks : Asks (before ++ rest) asked' := ⟨hbefore, hstops⟩
  exact (hasks.parse.symm.trans h) ▸ hasks

end DepNorm.CommandLine
