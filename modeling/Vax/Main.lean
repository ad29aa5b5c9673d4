import Vax.CommandLine
/-!
# The program

Reads the command line and the program file, runs the machine a slice at a
time, and passes on what the program writes and logs after each slice.
-/

namespace Vax.Main

/-- A failure of the host with its number, which may come negated. -/
def hostFailure (code : UInt32) (details : String) : String :=
  let number := if 0x80000000 ≤ code then 0 - code else code
  details.capitalize ++ " (os error " ++ toString number ++ ")"

def readFailure (e : IO.Error) : String :=
  match e with
  | .noFileOrDirectory _ code details => hostFailure code details
  | .permissionDenied _ code details => hostFailure code details
  | .inappropriateType _ code details => hostFailure code details
  | other => toString other

def readProgram (path : String) : IO (Except String (List UInt8)) := do
  try
    return .ok (← IO.FS.readBinFile path).toList
  catch e =>
    return .error (readFailure e)

def writeBytes (bytes : List UInt8) : IO Unit := do
  let out ← IO.getStdout
  out.write bytes.toByteArray
  out.flush

/-- Passes on what was written and logged so far, and forgets it. -/
def passOn (m : Machine) : IO Machine := do
  writeBytes m.output.written
  IO.eprint (Command.logText m.log)
  return { m with
    output := .empty m.output.sink
    log := { m.log with recorded := [] } }

/-- The number of steps between two times of passing on. -/
def slice : Nat := 4096

partial def runToEnd (m : Machine) : IO Machine := do
  let m ← passOn (m.run slice)
  if m.isStopped then return m else runToEnd m

def finish (report : Report) : IO UInt32 := do
  writeBytes report.output
  IO.eprint report.errors
  return UInt32.ofNat report.status

end Vax.Main

def main (arguments : List String) : IO UInt32 := do
  match Vax.Options.ofArguments arguments with
  | .error usage =>
    if usage.isRequest then
      IO.println usage.message
      return 0
    else
      IO.eprintln usage.message
      return 2
  | .ok options =>
    match Vax.Command.begin options (← Vax.Main.readProgram options.program) with
    | .finished report => Vax.Main.finish report
    | .running machine => Vax.Main.finish (Vax.Command.report (← Vax.Main.runToEnd machine))
