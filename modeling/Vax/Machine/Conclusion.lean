import Vax.Machine.Step
/-!
# How a run ends

A program that halted leaves its own exit status.  One that faulted leaves a
fixed status, and its diagnosis in the log.
-/

namespace Vax

namespace Machine

/-- The exit status of a run that ended in a fault. -/
def faultStatus : Int := 70

def exitStatus? (m : Machine) : Option Int :=
  match m.status with
  | .notStarted | .running => none
  | .halted halt => some halt.status
  | .faulted _ => some faultStatus

/-- The machine with the end of its program in the log. -/
def concluded (m : Machine) : Machine :=
  match m.status with
  | .notStarted | .running => m
  | .halted halt => m.logged .debug fun _ => "halted: " ++ halt.text
  | .faulted fault => m.logged .error fun _ => "\n".intercalate (m.diagnosis fault)

end Machine

end Vax
