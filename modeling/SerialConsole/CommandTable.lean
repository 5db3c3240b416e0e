import SerialConsole.CommandError
import SerialConsole.Settings
import SerialConsole.Text.Words

/-!
# Command tables

A command table lists commands in the order of their registration and never changes what it holds:
a command can only be added at the end, and only while there is a free place.  A typed word finds
the first command whose name it abbreviates, so a command cannot take over a word that already
leads to an earlier one.

    t.add c = .ok u → u.commands = t.commands ++ [c]
    t.find? word = t.commands.find? fun c => abbreviates word c.name
-/

namespace SerialConsole

open Settings

/-- What a command does; `H` stands for the handlers that other parts of the board contribute. -/
inductive Action (H : Type) where
  /-- Prints the help listing. -/
  | help
  /-- Forwards the rest of the line to the link. -/
  | forward
  /-- Hands the line to a contributed handler. -/
  | contributed (handler : H)
  deriving Repr, DecidableEq

/-- A command that can be typed. -/
structure Command (H : Type) where
  name : String
  /-- What the help listing says about it. -/
  description : String
  action : Action H
  deriving Repr, DecidableEq

/-- The command that prints the help listing. -/
def Command.help {H : Type} : Command H := ⟨"help", "help command", .help⟩

/-- The command that forwards to the link. -/
def Command.forward {H : Type} : Command H := ⟨"uartcmd", "send command to link uart", .forward⟩

/-- Commands in the order of their registration. -/
structure CommandTable (H : Type) where
  commands : List (Command H)
  length_le : commands.length ≤ maxCommands

namespace CommandTable

variable {H : Type}

/-- The table that every console starts with. -/
def initial : CommandTable H := ⟨[.help], show 1 ≤ maxCommands by decide⟩

/-- The number of commands. -/
def size (t : CommandTable H) : Nat := t.commands.length

/-- There is no free place. -/
def isFull (t : CommandTable H) : Bool := maxCommands ≤ t.size

/-- Adds a command at the end. -/
def add (t : CommandTable H) (c : Command H) : Except CommandError (CommandTable H) :=
  if h : t.commands.length < maxCommands then
    .ok ⟨t.commands ++ [c], by simp only [List.length_append, List.length_singleton]; omega⟩
  else .error .tableFull

/-- The first command that a typed word leads to. -/
def find? (t : CommandTable H) (word : String) : Option (Command H) :=
  t.commands.find? fun c => Text.abbreviates word c.name

/-- The names of the commands. -/
def names (t : CommandTable H) : List String := t.commands.map (·.name)

end CommandTable

end SerialConsole
