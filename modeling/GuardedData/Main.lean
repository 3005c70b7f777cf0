import GuardedData.CommandLine.Run

/-!
# The program

Reads the files and variables of the process, and prints how the command line ends.
-/

namespace GuardedData

def FileFault.ofError : IO.Error → FileFault
  | .noFileOrDirectory _ _ _ => .notFound
  | .inappropriateType _ code _ => if code = 21 then .isDirectory else .notDirectory
  | e@(.invalidArgument _ code _) =>
    if code = 36 ∨ code = -36 then .nameTooLong else .other (toString e)
  | e => .other (toString e)

def Files.ofMachine : Files IO where
  read name := do
    try return .ok (← IO.FS.readBinFile name)
    catch e => return .error (.ofError e)

def Variables.ofProcess : IO Variables := do
  let environment ← IO.getEnv "VIGIL_ENV"
  let settings ← IO.getEnv "VIGIL_CONFIG"
  let home ← IO.getEnv "HOME"
  return { environment, settings, home }

end GuardedData

open GuardedData in
/-- Runs the command line and exits with its status. -/
def main (arguments : List String) : IO UInt32 := do
  let outcome ← CommandLine.run Files.ofMachine (← Variables.ofProcess) arguments
  IO.print outcome.output
  IO.eprint outcome.errors
  return outcome.status.toUInt32
