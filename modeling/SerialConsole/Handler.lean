import SerialConsole.Board
import SerialConsole.CommandError

/-!
# Handlers

Commands can be contributed by other parts of the board.  Such a handler gets the whole line, with
the command word, and may look at the board.  It answers with the text that it prints and with a
result, which is noted and never acted upon.
-/

namespace SerialConsole

/-- What a handler answers. -/
structure Reply where
  /-- The text that it prints. -/
  output : String
  result : Except CommandError Unit

/-- How the contributed handlers answer on a given board to a given line. -/
abbrev Service (H : Type) := H → Board → String → Reply

/-- A handler that had nothing to object to. -/
def Reply.ok (output : String) : Reply := ⟨output, .ok ()⟩

/-- A handler that ended with an error. -/
def Reply.error (output : String) (e : CommandError) : Reply := ⟨output, .error e⟩

end SerialConsole
