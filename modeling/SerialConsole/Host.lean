import SerialConsole.Console.Loop
import SerialConsole.Statistics

/-!
# The hosted console

On a computer the console talks to a terminal.  A terminal ends its lines with a line feed where the
serial line expects a carriage return, so each line feed is turned into one.  The hosted console
knows three commands: help, the statistics, and the forwarding to a link.
-/

namespace SerialConsole.Host

/-- The handlers of the hosted console. -/
inductive Builtin where
  /-- Prints the statistics. -/
  | statistics
  deriving Repr, DecidableEq

/-- How the handlers of the hosted console answer. -/
def service : Service Builtin
  | .statistics => Statistics.reply

/-- The link of the hosted console. -/
def link : LinkId := ⟨0⟩

/-- The version that the hosted console shows.  It does not know the commit that it was built from. -/
def version : String := Settings.version "unknown"

/-- The console as it is when its loop starts. -/
def start : Console Builtin :=
  ((Console.fresh .fresh).register (Statistics.command .statistics)).attach link

/-- The byte that the console gets for a byte of the terminal. -/
def fromTerminal (b : UInt8) : UInt8 := if b = Receiver.lineFeed then Receiver.carriageReturn else b

/-- Takes in bytes of the terminal and answers the lines that they complete. -/
def typed (c : Console Builtin) (bytes : Bytes) : Run Builtin :=
  { c with board := (c.board.feedAll .console (bytes.map fromTerminal)).1 }.run service []

end SerialConsole.Host
