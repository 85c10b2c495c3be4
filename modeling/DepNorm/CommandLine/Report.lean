import DepNorm.Normalize
import DepNorm.Text.Lines

/-!
The reports that the command line prints: a heading, what became of each rule, the result, and the
time it took. No clock is read, so the mark `<t>` stands where a time belongs.
-/

namespace DepNorm.CommandLine

/-- Colours and weights of letters on a terminal. -/
inductive Paint where
  | dim
  | bold
  | green
  | blue
  | cyan
  | gray
  deriving DecidableEq, Repr

def Paint.code : Paint → String
  | dim => "\x1b[2m"
  | bold => "\x1b[1m"
  | green => "\x1b[32m"
  | blue => "\x1b[34m"
  | cyan => "\x1b[36m"
  | gray => "\x1b[90m"

def Paint.apply (paint : Paint) (color : Bool) (text : String) : String :=
  if color then paint.code ++ text ++ "\x1b[0m" else text

/-- Fills a text up with spaces on the right; the characters of colour codes count. -/
def padTo (width : Nat) (text : String) : String :=
  text ++ String.ofList (List.replicate (width - text.length) ' ')

def timeMark : String := "<t>"

namespace Report

def heading (color : Bool) (title : String) : String :=
  "\n" ++ Paint.bold.apply color (Paint.cyan.apply color title) ++ "\n"

def banner (color : Bool) (title : String) : String :=
  "\n" ++ Paint.gray.apply color ("━━━ " ++ title ++ " ━━━") ++ "\n"

def status (color : Bool) (pass : Pass) : String :=
  if !pass.enabled then Paint.dim.apply color "– disabled"
  else if 0 < pass.changes then Paint.green.apply color s!"✓ {pass.changes} rewrites"
  else Paint.dim.apply color "✗ no match"

def passLine (color : Bool) (pass : Pass) : String :=
  "  " ++ padTo 12 (Paint.blue.apply color pass.rule.name) ++ " " ++ status color pass ++ "  " ++
    Paint.dim.apply color timeMark ++ "\n"

/-- The report around its result lines. -/
def frame (color : Bool) (title : String) (passes : List Pass) (result : List String) : String :=
  heading color title ++ banner color "Rules" ++ String.join (passes.map (passLine color)) ++
    banner color "Result" ++ String.join (result.map fun line => "  " ++ line ++ "\n") ++
    banner color "Timing" ++ "  Total: " ++ Paint.green.apply color timeMark ++ "\n\n"

def sentence (color : Bool) (input output : String) (passes : List Pass) : String :=
  frame color ("⚙  Gloss: \"" ++ input ++ "\"") passes
    [Paint.bold.apply color (Paint.green.apply color output)]

def graph (color : Bool) (table : String) (passes : List Pass) : String :=
  frame color "⚙  Graph" passes ((Text.lines table.toList).map String.ofList)

end Report

end DepNorm.CommandLine
