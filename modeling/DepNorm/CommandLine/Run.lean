import DepNorm.CommandLine.Arguments
import DepNorm.CommandLine.Report
import DepNorm.TokenTable.Reader
import DepNorm.TokenTable.Writer

/-!
What a call of the program prints and how it ends, as a function of its arguments, its standard
input and the files. A sentence is reported on first, then a graph; a fault ends the call, and what
has been printed stays. The exit code is 2 for faulty arguments or input, 1 for a graph that could
not be normalized, and 0 otherwise.
-/

namespace DepNorm.CommandLine

structure Outcome where
  exitCode : Nat
  output : String
  errors : String
  deriving DecidableEq, Repr

def versionText : String := "natlog-rewrite 0.1.0"

def helpText : String :=
  versionText ++ "

Rewrites sentences and dependency graphs for natural-logic inference.

Usage:
  natlog-rewrite [OPTIONS] [--] <sentence...>
  natlog-rewrite [OPTIONS] --graph <file|->

Options:
  -f, --filters <list>       Comma-separated rules to enable.
                             Known: therebe, atleastafew, mods, rootedq, dropdet, has
                             Default: " ++ Filters.standard.toText ++ "
  -g, --graph <file|->       Rewrite a tab-separated dependency graph
                             (index word lemma tag head relation [operator] [extra]).
  --color                    Force ANSI color output.
  --no-color                 Disable ANSI color output.
  -h, --help                 Show this help message.
  -V, --version              Print version information.

Environment:
  NATLOG_LOG                 Log filter, e.g. 'natlog_rewrite=debug'. Default: warn

Exit codes:
  0  Success.
  1  A graph rewrite failed.
  2  Invalid arguments or input.
"

def UsageFault.message : UsageFault → String
  | missingValue setting => s!"error: {setting.name} expects a value"
  | invalidFilters value fault => s!"error: invalid --filters '{value}': {fault.message}"
  | unknownOption argument => s!"error: unknown option '{argument}'"
  | unreadableInput fault => fault.inputMessage
  | noInput => "error: no input provided\n\n" ++ helpText

inductive GraphFault where
  | unreadable (source : String) (fault : FileFault)
  | invalid (fault : Fault)
  | failed (fault : Fault)
  deriving DecidableEq, Repr

def GraphFault.message : GraphFault → String
  | unreadable source fault =>
    if source = "-" then fault.inputMessage
    else s!"error: failed to read graph '{source}': {fault.message}"
  | invalid fault => s!"error: invalid graph: {fault.message}"
  | failed fault => s!"error: rewrite failed: {fault.message}"

def GraphFault.exitCode : GraphFault → Nat
  | unreadable .. | invalid _ => 2
  | failed _ => 1

def Options.readsInput (options : Options) : Bool :=
  match options.graph with
  | some source => source = "-"
  | none => options.sentence.isNone

def reportSentence (options : Options) (sentence : String) : String :=
  let (output, passes) := options.filters.normalizeText sentence
  Report.sentence options.color sentence output passes

def reportGraph (options : Options) (sources : Sources) (source : String) :
    Except GraphFault String := do
  let table ← (sources.read source).mapError (.unreadable source)
  let graph ← (TokenTable.read table).mapError .invalid
  let (graph, passes) ← (options.filters.normalizeGraph graph).mapError .failed
  return Report.graph options.color (TokenTable.write graph) passes

def Options.perform (options : Options) (sources : Sources) : Outcome :=
  let printed := (options.sentence.map (reportSentence options)).getD ""
  match options.graph.map (reportGraph options sources) with
  | none => ⟨0, printed, ""⟩
  | some (.ok report) => ⟨0, printed ++ report, ""⟩
  | some (.error fault) => ⟨fault.exitCode, printed, fault.message ++ "\n"⟩

def run (arguments : List String) (sources : Sources) : Outcome :=
  match Options.parse {} arguments with
  | .ok .help => ⟨0, helpText ++ "\n", ""⟩
  | .ok .version => ⟨0, versionText ++ "\n", ""⟩
  | .ok (.run options) =>
    match options.withInput sources.readInput with
    | .ok options => options.perform sources
    | .error fault => ⟨2, "", fault.message ++ "\n"⟩
  | .error fault => ⟨2, "", fault.message ++ "\n"⟩

end DepNorm.CommandLine
