import DepNorm.CommandLine.Sources
import DepNorm.Filters
import DepNorm.Text.Opening

/-!
The arguments of the command line. Options are read from the left. The first argument that is not
an option begins the sentence, which takes all that follows, joined by spaces; `--` ends the
options, and what follows is the sentence unless it is blank. Of an option given twice the last
value counts.
-/

namespace DepNorm.CommandLine

/-- The options that take a value. -/
inductive Setting where
  | filters
  | graph
  deriving DecidableEq, Repr

def Setting.name : Setting → String
  | filters => "--filters"
  | graph => "--graph"

/-- What one argument says, taken by itself. -/
inductive Argument where
  | help
  | version
  | color (on : Bool)
  /-- An option whose value is the next argument. -/
  | named (setting : Setting)
  /-- An option with its value. -/
  | given (setting : Setting) (value : String)
  | endOfOptions
  | unknown
  | word
  deriving DecidableEq, Repr

/-- The value in an argument that consists of the option's name, an equals sign and a value. The
name and the equals sign may be there more than once. -/
def Setting.valueIn? (setting : Setting) (argument : String) : Option String :=
  let opening := setting.name.toList ++ ['=']
  if opening.isPrefixOf argument.toList then
    some (String.ofList (Text.afterAll opening argument.toList))
  else none

def Argument.read (argument : String) : Argument :=
  if argument = "-h" ∨ argument = "--help" then help
  else if argument = "-V" ∨ argument = "--version" then version
  else if argument = "--color" then color true
  else if argument = "--no-color" then color false
  else if argument = "-f" ∨ argument = "--filters" then named .filters
  else if argument = "-g" ∨ argument = "--graph" then named .graph
  else if argument = "--" then endOfOptions
  else
    match Setting.filters.valueIn? argument, Setting.graph.valueIn? argument with
    | some value, _ => given .filters value
    | none, some value => given .graph value
    | none, none => if argument.toList.head? = some '-' then unknown else word

structure Options where
  sentence : Option String := none
  /-- Where the graph is read from; `-` is the standard input. -/
  graph : Option String := none
  filters : Filters := .standard
  /-- Off unless asked for, as where the output goes to no terminal. -/
  color : Bool := false
  deriving DecidableEq, Repr

inductive Request where
  | help
  | version
  | run (options : Options)
  deriving DecidableEq, Repr

inductive UsageFault where
  | missingValue (setting : Setting)
  | invalidFilters (value : String) (fault : Fault)
  | unknownOption (argument : String)
  | unreadableInput (fault : FileFault)
  | noInput
  deriving DecidableEq, Repr

def Options.put (options : Options) : Setting → String → Except UsageFault Options
  | .graph, value => .ok { options with graph := some value }
  | .filters, value =>
    match Filters.parse value with
    | .ok filters => .ok { options with filters }
    | .error fault => .error (.invalidFilters value fault)

def isBlankText (text : String) : Bool := text.toList.all isBlank

/-- Reads arguments when those before have given `options`. -/
def Options.parse (options : Options) : List String → Except UsageFault Request
  | [] => .ok (.run options)
  | argument :: arguments =>
    match Argument.read argument with
    | .help => .ok .help
    | .version => .ok .version
    | .color on => { options with color := on : Options }.parse arguments
    | .named setting =>
      match arguments with
      | [] => .error (.missingValue setting)
      | value :: arguments => do (← options.put setting value).parse arguments
    | .given setting value => do (← options.put setting value).parse arguments
    | .endOfOptions =>
      let sentence := " ".intercalate arguments
      .ok (.run (if isBlankText sentence then options else { options with sentence }))
    | .unknown => .error (.unknownOption argument)
    | .word => .ok (.run { options with sentence := " ".intercalate (argument :: arguments) })

/-- With neither a sentence nor a graph, the standard input is the sentence. -/
def Options.withInput (options : Options) (input : Except FileFault String) :
    Except UsageFault Options :=
  if options.sentence.isSome || options.graph.isSome then .ok options
  else
    match input with
    | .error fault => .error (.unreadableInput fault)
    | .ok input =>
      if isBlankText input then .error .noInput
      else .ok { options with sentence := String.ofList (Text.trim input.toList) }

end DepNorm.CommandLine
