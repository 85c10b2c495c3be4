import DepNorm.CommandLine.Run

/-!
The program: reads what the call asks for, and prints what `CommandLine.run` says.
-/

namespace DepNorm.CommandLine

def orFault (read : IO String) : IO (Except FileFault String) := do
  try
    return .ok (← read)
  catch
    | .noFileOrDirectory .. => return .error .missing
    | .inappropriateType .. => return .error .isDirectory
    | fault => return .error (.other (toString fault))

/-- Reads the texts that a call with the given arguments looks at. -/
def readSources (arguments : List String) : IO Sources := do
  match Options.parse {} arguments with
  | .ok (.run options) =>
    let input ← orFault <| if options.readsInput then do (← IO.getStdin).readToEnd else pure ""
    let file ← match options.graph with
      | some path => if path = "-" then pure (.error .missing) else orFault (IO.FS.readFile path)
      | none => pure (.error .missing)
    let file := fun _ => file
    match input with
    | .ok input => return { input, file }
    | .error fault => return { input := "", file, inputFault := some fault }
  | _ => return { input := "", file := fun _ => .error .missing }

end DepNorm.CommandLine

open DepNorm.CommandLine in
def main (arguments : List String) : IO UInt32 := do
  let outcome := run arguments (← readSources arguments)
  IO.print outcome.output
  IO.eprint outcome.errors
  return outcome.exitCode.toUInt32
