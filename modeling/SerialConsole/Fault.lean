/-!
# Faults

A fault is raised when the board is misconfigured or fails, and is looked at later.  The latch keeps
the last fault and counts all of them.  A warning never takes the place of a fatal fault that is
active; clearing the latch makes it inactive and leaves everything else as it was.

    (l.raise c s d).count = l.count + 1
    l.isFatal → (l.raise c .warning d).cause = l.cause
-/

namespace SerialConsole.Fault

/-- Why a fault was raised. -/
inductive Cause where
  /-- There was no fault yet. -/
  | noFault
  /-- A command did not fit into the command table. -/
  | tableFull
  /-- The console could not be started. -/
  | consoleStart
  /-- The reception of bytes could not be continued. -/
  | receiveStopped
  /-- The semaphore of the inbox could not be made. -/
  | semaphoreMissing
  deriving Repr, DecidableEq

namespace Cause

/-- How notices name a cause. -/
def name : Cause → String
  | noFault => "None"
  | tableFull => "RegistryFull"
  | consoleStart => "ConsoleStart"
  | receiveStopped => "RxRearm"
  | semaphoreMissing => "SignalInit"

/-- The number of a cause. -/
def toByte : Cause → UInt8
  | noFault => 0
  | tableFull => 1
  | consoleStart => 2
  | receiveStopped => 3
  | semaphoreMissing => 4

/-- The cause with a number; a number without a cause means that there was no fault. -/
def ofByte (n : UInt8) : Cause :=
  if n = 1 then tableFull
  else if n = 2 then consoleStart
  else if n = 3 then receiveStopped
  else if n = 4 then semaphoreMissing
  else noFault

end Cause

/-- How bad a fault is. -/
inductive Severity where
  /-- The board can go on. -/
  | warning
  /-- The console must not start. -/
  | fatal
  deriving Repr, DecidableEq

namespace Severity

/-- How notices name a severity. -/
def name : Severity → String
  | warning => "Warning"
  | fatal => "Fatal"

/-- A greater rank is worse. -/
def rank : Severity → Nat
  | warning => 0
  | fatal => 1

instance : Ord Severity := ⟨fun a b => compare a.rank b.rank⟩

end Severity

/-- The last fault, and how many there were. -/
structure Latch where
  /-- A fault was raised and not cleared. -/
  active : Bool
  cause : Cause
  severity : Severity
  /-- What the cause tells besides, such as the number of commands. -/
  data : UInt32
  /-- All faults so far. -/
  count : UInt32
  deriving Repr, DecidableEq

namespace Latch

/-- No fault so far. -/
def quiet : Latch := ⟨false, .noFault, .warning, 0, 0⟩

/-- A fatal fault is active. -/
def isFatal (l : Latch) : Bool := l.active && l.severity == .fatal

/-- Raises a fault. -/
def raise (l : Latch) (cause : Cause) (severity : Severity) (data : UInt32) : Latch :=
  if l.isFatal && severity == .warning then { l with count := l.count + 1 }
  else ⟨true, cause, severity, data, l.count + 1⟩

/-- Makes the latch inactive. -/
def clear (l : Latch) : Latch := { l with active := false }

/-- What a diagnostic shows of a latch. -/
def describe (l : Latch) : String :=
  "FaultSnapshot \x7b active: " ++ toString l.active ++ ", code: " ++ l.cause.name
    ++ ", severity: " ++ l.severity.name ++ ", data: " ++ toString l.data
    ++ ", count: " ++ toString l.count ++ " \x7d"

end Latch

end SerialConsole.Fault
