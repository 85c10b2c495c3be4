/-!
Where a call finds texts. Reading can fail, for the standard input as for a file.
-/

namespace DepNorm.CommandLine

/-- Why a file or the standard input could not be read. -/
inductive FileFault where
  | missing
  | isDirectory
  | other (reason : String)
  deriving DecidableEq, Repr

namespace FileFault

def message : FileFault → String
  | missing => "No such file or directory (os error 2)"
  | isDirectory => "Is a directory (os error 21)"
  | other reason => reason

def inputMessage (fault : FileFault) : String := s!"error: failed to read stdin: {fault.message}"

end FileFault

/-- The standard input and the files, by their paths. -/
structure Sources where
  /-- What is on the standard input, if it can be read. -/
  input : String
  file : String → Except FileFault String
  inputFault : Option FileFault := none

namespace Sources

def readInput (sources : Sources) : Except FileFault String :=
  match sources.inputFault with
  | some fault => .error fault
  | none => .ok sources.input

def read (sources : Sources) (source : String) : Except FileFault String :=
  if source = "-" then sources.readInput else sources.file source

end Sources

end DepNorm.CommandLine
