import Vax.Text.Escape
/-!
# Log events

A log has a threshold, the least severe level that it records; without one it
records nothing.  The text of an event below the threshold is never built.
-/

namespace Vax

/-- The severity of an event, the most severe first. -/
inductive Level where
  | error
  | warn
  | info
  | debug
  | trace
  deriving DecidableEq, Repr

namespace Level

/-- The place in the order of severity. -/
def rank : Level → Nat
  | error => 0
  | warn => 1
  | info => 2
  | debug => 3
  | trace => 4

def name : Level → String
  | error => "ERROR"
  | warn => "WARN"
  | info => "INFO"
  | debug => "DEBUG"
  | trace => "TRACE"

end Level

structure Event where
  level : Level
  message : String
  deriving DecidableEq, Repr

/-- The event behind its level, as a log line shows it: the level is
right-aligned to five columns, and the message cannot drive the terminal. -/
def Event.line (e : Event) : String :=
  String.ofList (List.replicate (5 - e.level.name.length) ' ') ++ e.level.name ++ " " ++
    Text.escaped e.message

structure Log where
  threshold : Option Level
  /-- The recorded events, the latest first. -/
  recorded : List Event

namespace Log

def empty (threshold : Option Level) : Log :=
  ⟨threshold, []⟩

def enabled (log : Log) (level : Level) : Bool :=
  match log.threshold with
  | none => false
  | some threshold => level.rank ≤ threshold.rank

def add (log : Log) (level : Level) (message : Unit → String) : Log :=
  if log.enabled level then ⟨log.threshold, ⟨level, message ()⟩ :: log.recorded⟩ else log

/-- Records the events that the threshold lets through. -/
def addAll (log : Log) (events : List Event) : Log :=
  events.foldl (fun log e => log.add e.level fun _ => e.message) log

/-- The recorded events in the order in which they happened. -/
def events (log : Log) : List Event :=
  log.recorded.reverse

end Log

end Vax
