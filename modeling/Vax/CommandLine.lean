import Vax.CommandLine.Options
import Vax.Disassembler.Listing
import Vax.Machine.Conclusion
import Vax.Machine.Load
/-!
# The command

Given the options and what was read from the program's path, the command
either has its report ready, a listing or a failure, or has a machine to run
until the program stops and then to report on.
-/

namespace Vax

structure Report where
  /-- The exit status, below 256. -/
  status : Nat
  output : List UInt8
  /-- The text on the error stream. -/
  errors : String

namespace Command

inductive Stage where
  | finished (report : Report)
  | running (machine : Machine)

/-- The log as text, one event to a line. -/
def logText (log : Log) : String :=
  String.join (log.events.map fun e => e.line ++ "\n")

/-- The report of a command that failed, after what it logged. -/
def failure (log : Log) (message : String) : Report :=
  ⟨1, [], logText log ++ "vaxrun: " ++ message ++ "\n"⟩

/-- How a file that cannot be read is worded: its own cause comes last. -/
def unreadable (cause : String) : String :=
  "failed to read executable: " ++ cause ++ ": " ++ cause

/-- Lists the program or loads it. -/
def begin (o : Options) (file : Except String (List UInt8)) : Stage :=
  let log := Log.empty (some o.level)
  match file with
  | .error cause =>
    .finished (failure log ("failed to read " ++ o.program ++ ": " ++ unreadable cause))
  | .ok bytes =>
    let log := log.addAll (Program.readEvents bytes)
    match Program.ofFile bytes with
    | .error e =>
      .finished (failure log ("failed to read " ++ o.program ++ ": " ++ e.message))
    | .ok program =>
      if o.disassemble then
        .finished ⟨0, Utf8.encode program.disassembly, logText log⟩
      else
        match Machine.load program (o.program :: o.arguments) o.memorySize log with
        | .error e =>
          .finished (failure log ("failed to load " ++ o.program ++ ": " ++ e.message))
        | .ok machine => .running machine

/-- Reports on a program that has stopped.  Its status counts modulo 256. -/
def report (m : Machine) : Report :=
  ⟨(m.exitStatus?.getD 0 % 256).toNat, m.output.written, logText m.concluded.log⟩

end Command

end Vax
