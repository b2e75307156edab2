import TokenIntake.Cli.Run

/-!
# The command line

Gives a run its arguments, its environment and the settings file that it names, and
prints what it leaves behind: the verdict on the standard output, the log and the error
on the standard error.
-/

namespace TokenIntake.Cli

def loadError : IO.Error → LoadError
  | .inappropriateType none _ _ => .isDirectory
  | .inappropriateType (some _) _ _ => .notDirectory
  | .invalidArgument _ _ _ => .nameTooLong
  | _ => .noFile

def readFile (path : String) : IO (Except LoadError (List UInt8)) := do
  try
    let bytes ← IO.FS.readBinFile path
    return .ok bytes.toList
  catch error => return .error (loadError error)

/-- What a run can read: the file of settings that the arguments name. -/
def readFiles (arguments : List String) : IO Files := do
  match Invocation.ofArguments arguments with
  | .ok ⟨some path, _, _, _⟩ =>
    let found ← readFile path
    return fun _ => found
  | _ => return fun _ => .error .noFile

def Output.emit (output : Output) : IO UInt32 := do
  for line in output.log do
    IO.eprintln line
  IO.print output.stdout
  match output.error with
  | none => pure ()
  | some error => IO.eprintln ((if output.exit = 2 then "error: " else "Error: ") ++ error)
  return output.exit

end TokenIntake.Cli

def main (arguments : List String) : IO UInt32 := do
  let files ← TokenIntake.Cli.readFiles arguments
  let environment ← IO.getEnv "RUST_LOG"
  (TokenIntake.Cli.run files environment arguments).emit
