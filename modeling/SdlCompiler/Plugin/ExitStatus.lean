/-!
# How a process ended
-/

namespace SdlCompiler.Plugin

inductive ExitStatus where
  | exited (code : Nat)
  | signaled (signal : Nat) (dumped : Bool)
  | stopped (signal : Nat)
  | continued
  | unrecognised (raw : UInt32)
deriving DecidableEq, Repr

namespace ExitStatus

/-- The status that a system call reports as a number. Its lowest seven bits are a signal, the
eighth tells of a core dump, and the next eight are an exit code. -/
def ofRaw (raw : UInt32) : ExitStatus :=
  let low := raw.toNat % 128
  let byte := raw.toNat / 256 % 256
  let dumped := raw.toNat / 128 % 2 == 1
  if low = 0 then exited byte
  else if low < 127 then signaled low dumped
  else if !dumped then stopped byte
  else if raw = 0xFFFF then continued
  else unrecognised raw

/-- The names of the signals, from number one on. -/
def signalNames : List String :=
  ["SIGHUP", "SIGINT", "SIGQUIT", "SIGILL", "SIGTRAP", "SIGABRT", "SIGBUS", "SIGFPE", "SIGKILL",
    "SIGUSR1", "SIGSEGV", "SIGUSR2", "SIGPIPE", "SIGALRM", "SIGTERM", "SIGSTKFLT", "SIGCHLD",
    "SIGCONT", "SIGSTOP", "SIGTSTP", "SIGTTIN", "SIGTTOU", "SIGURG", "SIGXCPU", "SIGXFSZ",
    "SIGVTALRM", "SIGPROF", "SIGWINCH", "SIGIO", "SIGPWR", "SIGSYS"]

/-- A signal by its number, and by its name if it has one. -/
def signalText (signal : Nat) : String :=
  match signal with
  | 0 => "0"
  | n + 1 =>
    match signalNames[n]? with
    | some name => s!"{signal} ({name})"
    | none => toString signal

def text : ExitStatus → String
  | exited code => s!"exit status: {code}"
  | signaled signal dumped =>
    "signal: " ++ signalText signal ++ if dumped then " (core dumped)" else ""
  | stopped signal => "stopped (not terminated) by signal: " ++ signalText signal
  | continued => "continued (WIFCONTINUED)"
  | unrecognised raw =>
    let signed := raw.toInt32.toInt
    let hex := String.ofList (Nat.toDigits 16 raw.toNat)
    s!"unrecognised wait status: {signed} 0x{hex}"

def isSuccess (status : ExitStatus) : Bool :=
  status == exited 0

end ExitStatus

end SdlCompiler.Plugin
