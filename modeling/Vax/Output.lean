/-!
# Where a program writes

An output keeps the writes it took, in order.  The sink behind it decides
whether a write is taken: a refused write is not taken at all.  It may also be
unable to pass on what it took.  In both cases it says why in its own words.
-/

namespace Vax

/-- What takes the writes of a program.  What it answers may depend on all the
writes that it took before. -/
structure Sink where
  /-- Why some bytes are refused, if they are. -/
  refusal? : Array (List UInt8) → List UInt8 → Option String
  /-- Why the writes taken cannot be passed on, if they cannot. -/
  blockage? : Array (List UInt8) → Option String

structure Output where
  sink : Sink
  writes : Array (List UInt8)

namespace Output

/-- Before the first write. -/
def empty (sink : Sink) : Output :=
  ⟨sink, #[]⟩

/-- Takes and passes on everything. -/
def unlimited : Output :=
  empty ⟨fun _ _ => none, fun _ => none⟩

/-- All the bytes taken. -/
def written (o : Output) : List UInt8 :=
  o.writes.toList.flatten

/-- Takes all of `bytes`, or none of them. -/
def write (o : Output) (bytes : List UInt8) : Except String Output :=
  match o.sink.refusal? o.writes bytes with
  | none => .ok { o with writes := o.writes.push bytes }
  | some cause => .error cause

/-- What goes wrong when everything taken is passed on. -/
def flush (o : Output) : Except String Unit :=
  match o.sink.blockage? o.writes with
  | none => .ok ()
  | some cause => .error cause

variable {o after : Output} {bytes : List UInt8} {cause : String}

theorem write_eq_ok_iff :
    o.write bytes = .ok after ↔
      o.sink.refusal? o.writes bytes = none ∧ after = { o with writes := o.writes.push bytes } := by
  unfold write
  cases o.sink.refusal? o.writes bytes <;> simp [eq_comm]

theorem write_eq_error_iff :
    o.write bytes = .error cause ↔ o.sink.refusal? o.writes bytes = some cause := by
  unfold write
  cases o.sink.refusal? o.writes bytes <;> simp

/-- A write that is taken adds exactly its bytes. -/
theorem written_write (h : o.write bytes = .ok after) :
    after.sink = o.sink ∧ after.written = o.written ++ bytes := by
  obtain ⟨-, rfl⟩ := write_eq_ok_iff.mp h
  simp [written]

end Output

end Vax
