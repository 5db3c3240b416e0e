import SerialConsole.CommandLine
import SerialConsole.CommandTable
import SerialConsole.Handler
import SerialConsole.Help

/-!
# Statistics

The statistics command prints what the board counted: the lines of each receiver and the dropped
journal entries, the last fault, and the memory in use, all of it or the part that its parameter
abbreviates.  Unlike the rest of the console it ends its own lines with a line feed alone.
-/

namespace SerialConsole.Statistics

/-- The name of the command. -/
def label : String := "stats"

/-- What the help listing says about it. -/
def description : String := "console and system statistics"

/-- The command, for the handler that prints statistics. -/
def command {H : Type} (handler : H) : Command H := ⟨label, description, .contributed handler⟩

/-- A line of the statistics. -/
def ended (s : String) : String := s ++ "\n"

/-- How the command is used. -/
def usage : String :=
  Help.heading "Statistics" ++ ended (label ++ " [rx|fault|heap]  (no parameter: overview)")
    ++ ended (label ++ " help")

/-- What one receiver counted. -/
def receiverLine (o : Origin) (r : Receiver) : String :=
  ended (o.name ++ ": " ++ toString r.completed ++ " lines, " ++ toString r.forced ++ " forced, "
    ++ toString r.filling.used ++ " pending")

/-- What the receivers and the journals counted. -/
def receivers (b : Board) : String :=
  receiverLine .console b.inbox.console ++ receiverLine .link b.inbox.link
    ++ ended ("log dropped: " ++ toString (b.receiveLog.dropped + b.consoleLog.dropped))

/-- The last fault, if it is active, and how many there were. -/
def faults (b : Board) : String :=
  (if b.faults.active then
    ended ("fault: " ++ b.faults.cause.name ++ " (" ++ b.faults.severity.name ++ ") data="
      ++ toString b.faults.data)
  else ended "fault: none")
    ++ ended ("faults since boot: " ++ toString b.faults.count)

/-- The memory in use, which only the board itself can tell. -/
def memory : String := ended "stats heap: running on host"

/-- Everything that is counted. -/
def overview (b : Board) : String := receivers b ++ faults b ++ memory

/-- Answers a line that was typed for the command. -/
def reply (b : Board) (line : String) : Reply :=
  match (CommandLine.ofText line).argument? 0 with
  | none => .ok (overview b)
  | some parameter =>
    if Text.abbreviates parameter "rx" then .ok (receivers b)
    else if Text.abbreviates parameter "fault" then .ok (faults b)
    else if Text.abbreviates parameter "heap" then .ok memory
    else if Text.abbreviates parameter "help" then .ok usage
    else
      .error (ended ("stats: unrecognised parameter \"" ++ parameter ++ "\". Usage:") ++ usage)
        .invalidValue

end SerialConsole.Statistics
