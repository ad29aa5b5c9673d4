import Vax.Log
/-!
# Command-line options

Options come first, single letters bundled as one likes; then the program,
whose arguments are whatever follows.  An argument that begins with a dash and
is made of known options is still an option between the program and its first
argument.  After `--` nothing is an option.
-/

namespace Vax

structure Options where
  /-- List the text segment; do not run it. -/
  disassemble : Bool
  /-- Log system calls and procedure calls. -/
  syscalls : Bool
  /-- Log every instruction. -/
  verbose : Bool
  /-- The size of memory in bytes. -/
  memorySize : Nat
  program : String
  arguments : List String
  deriving DecidableEq, Repr

inductive Usage where
  | help
  | version
  | missingProgram
  | missingSize
  | badSize (text : String)
  | repeated (option : String)
  | unknown (option : String)
  deriving DecidableEq, Repr

def Usage.message : Usage → String
  | .help => "usage: vaxrun [-dsv] [--mem-size SIZE] PROGRAM [ARGUMENT...]"
  | .version => "vaxrun"
  | .missingProgram => "error: no program was given"
  | .missingSize => "error: --mem-size needs a value"
  | .badSize text => "error: invalid size '" ++ text ++ "'"
  | .repeated option => "error: " ++ option ++ " cannot be used more than once"
  | .unknown option => "error: unexpected argument '" ++ option ++ "'"

/-- Whether the usage was asked for, and is not the answer to a mistake. -/
def Usage.isRequest : Usage → Bool
  | .help | .version => true
  | _ => false

namespace Options

def defaultMemorySize : Nat := 0x40000

/-- The value of a digit in some radix. -/
def digitValue? (radix : Nat) (c : Char) : Option Nat :=
  let value? : Option Nat :=
    if '0' ≤ c ∧ c ≤ '9' then some (c.toNat - '0'.toNat)
    else if 'a' ≤ c ∧ c ≤ 'f' then some (c.toNat - 'a'.toNat + 10)
    else if 'A' ≤ c ∧ c ≤ 'F' then some (c.toNat - 'A'.toNat + 10)
    else none
  value?.filter fun value => value < radix

/-- The number with the given digits. -/
def digitsValue? (radix : Nat) (digits : List Char) : Option Nat :=
  digits.foldlM (fun value c => (digitValue? radix c).map fun digit => value * radix + digit) 0

/-- An unsigned number below 2^64: one or more digits, perhaps behind a plus
sign. -/
def number? (radix : Nat) (text : List Char) : Option Nat :=
  let digits :=
    match text with
    | '+' :: rest => rest
    | digits => digits
  if digits.isEmpty then none
  else (digitsValue? radix digits).filter fun value => value < 2 ^ 64

/-- A size, hexadecimal behind `0x` and decimal otherwise. -/
def size? (text : String) : Option Nat :=
  match text.toList with
  | '0' :: 'x' :: digits => number? 16 digits
  | '0' :: 'X' :: digits => number? 16 digits
  | digits => number? 10 digits

/-- What has been read of a command line. -/
structure Reading where
  disassemble : Bool
  syscalls : Bool
  verbose : Bool
  memorySize : Option Nat
  program : Option String
  arguments : List String

namespace Reading

def empty : Reading :=
  ⟨false, false, false, none, none, []⟩

/-- Takes note of the size of memory. -/
def setSize (p : Reading) (text : String) : Except Usage Reading :=
  if p.memorySize.isSome then .error (.repeated "--mem-size")
  else
    match size? text with
    | some size => .ok { p with memorySize := some size }
    | none => .error (.badSize text)

/-- Takes note of a single-letter option. -/
def setFlag (p : Reading) (letter : Char) : Except Usage Reading :=
  let once (before : Bool) (after : Reading) : Except Usage Reading :=
    if before then .error (.repeated ("-" ++ String.singleton letter)) else .ok after
  match letter with
  | 'd' => once p.disassemble { p with disassemble := true }
  | 's' => once p.syscalls { p with syscalls := true }
  | 'v' => once p.verbose { p with verbose := true }
  | 'h' => .error .help
  | 'V' => .error .version
  | _ => .error (.unknown ("-" ++ String.singleton letter))

/-- Whether a letter is an option. -/
def isFlag (letter : Char) : Bool :=
  "dsvhV".toList.contains letter

/-- Takes note of the program, whose path cannot be empty. -/
def setProgram (p : Reading) (path : String) : Except Usage Reading :=
  if path.isEmpty then .error .missingProgram else .ok { p with program := some path }

/-- Takes what is left as the program, if there is none yet, and its arguments. -/
def positional (p : Reading) : List String → Except Usage Reading
  | [] => .ok p
  | arguments@(first :: rest) =>
    match p.program with
    | some _ => .ok { p with arguments := arguments }
    | none => do
      let p ← p.setProgram first
      return { p with arguments := rest }

/-- An option with a name, and the value after its equals sign. -/
def splitLong (text : List Char) : String × Option String :=
  match text.span (· ≠ '=') with
  | (name, []) => (String.ofList name, none)
  | (name, _ :: value) => (String.ofList name, some (String.ofList value))

/-- Reads arguments up to the first that belongs to the program. -/
def read (p : Reading) : List String → Except Usage Reading
  | [] => .ok p
  | argument :: rest =>
    match argument.toList with
    | ['-', '-'] => p.positional rest
    | '-' :: '-' :: long =>
      match splitLong long with
      | ("mem-size", some value) => do (← p.setSize value).read rest
      | ("mem-size", none) =>
        match rest with
        | value :: rest => do (← p.setSize value).read rest
        | [] => .error .missingSize
      | ("help", none) => .error .help
      | ("version", none) => .error .version
      | ("help", some _) | ("version", some _) => .error (.unknown argument)
      | _ =>
        if p.program.isSome then .ok { p with arguments := argument :: rest }
        else .error (.unknown argument)
    | '-' :: letter :: letters =>
      if p.program.isSome && !(letter :: letters).all isFlag then
        .ok { p with arguments := argument :: rest }
      else do
        ((← (letter :: letters).foldlM setFlag p)).read rest
    | _ =>
      if p.program.isSome then .ok { p with arguments := argument :: rest }
      else do (← p.setProgram argument).read rest

end Reading

def ofArguments (arguments : List String) : Except Usage Options := do
  let p ← Reading.empty.read arguments
  match p.program with
  | none => throw .missingProgram
  | some program =>
    return ⟨p.disassemble, p.syscalls, p.verbose, p.memorySize.getD defaultMemorySize, program,
      p.arguments⟩

/-- The least severe level that is logged. -/
def level (o : Options) : Level :=
  if o.verbose then .trace else if o.syscalls then .debug else .warn

end Options

end Vax
