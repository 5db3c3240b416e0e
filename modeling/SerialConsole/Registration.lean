import SerialConsole.Board
import SerialConsole.CommandTable

/-!
# Registration

Commands are registered while the console starts.  A command that does not fit is left out: the
refusal is noted in the journal of the console and raised as a fatal fault, whose data is the number
of commands in the table.
-/

namespace SerialConsole

variable {H : Type}

/-- Adds a command to the table, or notes and raises that there is no place for it. -/
def Board.register (b : Board) (t : CommandTable H) (c : Command H) : Board × CommandTable H :=
  match t.add c with
  | .ok added => (b, added)
  | .error e =>
    ((b.noteConsole .error [e.describe, ": '", c.name, "' dropped"]).raise .tableFull .fatal
      t.size.toUInt32, t)

end SerialConsole
