import SerialConsole.CommandError
import SerialConsole.Settings
import SerialConsole.Text.Numeral
import SerialConsole.Text.Words

/-!
# Command lines

A command line is read as a command word and its arguments.  Words beyond the last argument that is
kept are dropped; a line without words has the empty command.

    words line = w :: ws → ofText line = ⟨w, ws.take maxArguments⟩
    words line = [] → ofText line = ⟨"", []⟩
-/

namespace SerialConsole

/-- A command word and its arguments. -/
structure CommandLine where
  /-- The first word, empty if there is none. -/
  command : String
  /-- The words after it, as many as are kept. -/
  arguments : List String
  deriving Repr, DecidableEq

namespace CommandLine

/-- The command line that a text is. -/
def ofText (line : String) : CommandLine :=
  match Text.words line with
  | [] => ⟨"", []⟩
  | word :: rest => ⟨word, rest.take Settings.maxArguments⟩

/-- The number of arguments. -/
def count (c : CommandLine) : Nat := c.arguments.length

/-- The argument at a place, counted from zero. -/
def argument? (c : CommandLine) (i : Nat) : Option String := c.arguments[i]?

/-- The number that an argument opens with. -/
def readValue (s : String) : Except CommandError UInt32 :=
  match Text.value? s with
  | some v => .ok v
  | none => .error .invalidValue

end CommandLine

end SerialConsole
