import SerialConsole.Line

/-!
# The last command

The console remembers one line, the last one of more than one byte, so that a stray key does not
replace it.  The memory is written over and never emptied.
-/

namespace SerialConsole

/-- Memory for the last command. -/
structure LastCommand where
  line : Line

namespace LastCommand

/-- Nothing remembered yet. -/
def empty : LastCommand := ⟨Line.empty⟩

/-- Remembers a text of more than one byte; says whether it did. -/
def remember (m : LastCommand) (s : String) : LastCommand × Bool :=
  if 1 < (Text.encode s).length then (⟨m.line.assignText s⟩, true) else (m, false)

/-- The line that is remembered, if any. -/
def get? (m : LastCommand) : Option String := if m.line.used = 0 then none else some m.line.text

end LastCommand

end SerialConsole
