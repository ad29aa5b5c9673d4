/-!
# System calls

The calls of Seventh Edition UNIX by number.  Few of them are served; the
names of all are known to messages.
-/

namespace Vax

/-- A system call that the machine serves. -/
inductive SystemCall where
  | exit
  | write
  | close
  | ioctl
  deriving DecidableEq, Repr

namespace SystemCall

/-- The names by number. -/
def names : List String := [
  "indir", "exit", "fork", "read", "write", "open", "close", "wait",
  "creat", "link", "unlink", "exec", "chdir", "time", "mknod", "chmod",
  "chown", "break", "stat", "seek", "getpid", "mount", "umount", "setuid",
  "getuid", "stime", "ptrace", "alarm", "fstat", "pause", "utime", "stty",
  "gtty", "access", "nice", "ftime", "sync", "kill", "switch", "setpgrp",
  "tell", "dup", "pipe", "times", "prof", "tiu", "setgid", "getgid",
  "sig", "(reserved)", "(reserved)", "sysacct", "sysphys", "syslock", "ioctl", "reboot",
  "mpxchan", "(reserved)", "(reserved)", "exece", "umask", "chroot"]

def nameOf (number : Nat) : String :=
  names.getD number "???"

def number : SystemCall → Nat
  | exit => 1
  | write => 4
  | close => 6
  | ioctl => 54

def ofNumber? (number : Nat) : Option SystemCall :=
  [exit, write, close, ioctl].find? fun call => call.number == number

def name (call : SystemCall) : String :=
  nameOf call.number

/-- The `ioctl` request that fetches terminal modes, by which a program finds
out whether it writes to a terminal. -/
def getTerminalModes : UInt32 := 0x7408

end SystemCall

end Vax
