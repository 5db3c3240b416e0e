import SerialConsole.Handler
import SerialConsole.Help
import SerialConsole.LastCommand
import SerialConsole.Registration

/-!
# The console

The console answers lines.  A comment is answered by the prompt alone, and a blank line by what the
last command was.  A line whose first word is empty or abbreviates `reset` resets the board; any
other line runs the first command of the table that its first word leads to, once, or is reported
together with the help listing.

    (c.answer service raw).step = .reset  ↔  raw is no comment and its first word asks for it
    (c.answer service raw).calls.length ≤ 1
-/

namespace SerialConsole

open Settings

/-- A link that the console can send frames to. -/
structure LinkId where
  number : Nat
  deriving Repr, DecidableEq

/-- Bytes sent to a link at once. -/
structure Frame where
  link : LinkId
  bytes : Bytes
  deriving Repr, DecidableEq

/-- The console of a board; `H` stands for the contributed handlers. -/
structure Console (H : Type) where
  board : Board
  table : CommandTable H
  /-- The last command. -/
  lastCommand : LastCommand
  /-- The link that frames go to, if one is attached. -/
  link : Option LinkId

/-- What comes after a line. -/
inductive Step where
  /-- The next line. -/
  | proceed
  /-- The reset of the board. -/
  | reset
  deriving Repr, DecidableEq

/-- What the console does about a line. -/
structure Turn (H : Type) where
  /-- The console afterwards. -/
  console : Console H
  /-- What it printed. -/
  output : String
  /-- The handlers that it called, with the line that each was given. -/
  calls : List (H × String)
  /-- What it sent to links. -/
  frames : List Frame
  step : Step

/-- What a command does about a line. -/
structure Work (H : Type) where
  output : String
  calls : List (H × String)
  frames : List Frame
  result : Except CommandError Unit

namespace Console

variable {H : Type}

/-- A console whose table holds the help command only. -/
def fresh (board : Board) : Console H := ⟨board, .initial, .empty, none⟩

/-- Registers a command. -/
def register (c : Console H) (command : Command H) : Console H :=
  let (board, table) := c.board.register c.table command
  { c with board := board, table := table }

/-- Attaches a link and registers the command that forwards to it. -/
def attach (c : Console H) (link : LinkId) : Console H :=
  { c with link := some link }.register .forward

/-- Adds an entry to the journal of the console. -/
def note (c : Console H) (level : Level) (parts : List String) : Console H :=
  { c with board := c.board.noteConsole level parts }

/-- The line that a blank line stands for, if any was remembered. -/
def last? (c : Console H) : Option String := c.lastCommand.get?

/-- What is printed when the next line can be typed. -/
def promptText : String := newline ++ prompt

/-- What is printed when the console of a version starts. -/
def banner (version : String) : String :=
  newline ++ version ++ newline ++ "Type 'help' for commands." ++ newline ++ promptText

/-- What is printed in place of the banner if a fatal fault is active. -/
def haltNotice? (c : Console H) : Option String :=
  if c.board.faults.isFatal then
    some ("fatal fault " ++ c.board.faults.cause.name ++ " (" ++ toString c.board.faults.data
      ++ "), console halted" ++ newline)
  else none

/-- A comment starts with a hash sign. -/
def isComment (raw : String) : Bool := raw.toList.head? == some '#'

/-- The line that a raw line stands for: the last command, or `help`, for a blank one, and what fits
into a line of any other. -/
def lineFor (c : Console H) (raw : String) : String :=
  (Line.ofText (if raw = "" then c.last?.getD "help" else raw)).text

/-- Remembers a line unless it was typed as a blank one. -/
def remember (c : Console H) (raw line : String) : Console H :=
  if raw = "" then c else { c with lastCommand := (c.lastCommand.remember line).1 }

/-- The word that resets the board. -/
def resetWord : String := "reset"

/-- A first word that resets the board: the empty one, or one that abbreviates `reset`. -/
def asksForReset (word : String) : Bool := word == "" || Text.abbreviates word resetWord

/-- What a line forwards: everything after its first space. -/
def payload (line : String) : String :=
  String.ofList ((line.toList.dropWhile (· != ' ')).drop 1)

/-- The frame of a payload: its bytes, unless they do not fit into a line, and a carriage return, if
there is room for it. -/
def frameBytes (payload : String) : Bytes :=
  (((Row.blank : Scratch lineSize).extend (Text.encode payload)).push Receiver.carriageReturn).bytes

/-- Forwards a line to the link. -/
def forward (c : Console H) (line : String) : Work H :=
  let echo := "uartcmd: " ++ line ++ newline
  match c.link with
  | none => ⟨echo, [], [], .error .noLink⟩
  | some link =>
    if payload line = "" then ⟨echo, [], [], .ok ()⟩
    else ⟨echo, [], [⟨link, frameBytes (payload line)⟩], .ok ()⟩

/-- Runs a command on a line. -/
def perform (service : Service H) (c : Console H) (action : Action H) (line : String) : Work H :=
  match action with
  | .help => ⟨Help.listing c.table, [], [], .ok ()⟩
  | .forward => c.forward line
  | .contributed handler =>
    let reply := service handler c.board line
    ⟨reply.output, [(handler, line)], [], reply.result⟩

/-- Notes how a command ended, if it ended with an error. -/
def noteResult (c : Console H) (name : String) : Except CommandError Unit → Console H
  | .ok () => c
  | .error e => c.note .debug ["'", name, "' returned ", e.describe]

/-- Runs the command that the first word of a line leads to, or reports that there is none. -/
def dispatch (service : Service H) (c : Console H) (word line : String) : Turn H :=
  match c.table.find? word with
  | some command =>
    let c := c.note .debug ["dispatch '", command.name, "'"]
    let work := c.perform service command.action line
    ⟨c.noteResult command.name work.result, newline ++ work.output ++ promptText, work.calls,
      work.frames, .proceed⟩
  | none =>
    ⟨c.note .info [CommandError.unknownCommand.describe, " '", word, "'"],
      newline ++ "CMD : unknown command : " ++ line ++ newline ++ Help.listing c.table ++ promptText,
      [], [], .proceed⟩

/-- Answers a line. -/
def answer (service : Service H) (c : Console H) (raw : String) : Turn H :=
  if isComment raw then ⟨c, promptText, [], [], .proceed⟩
  else
    let line := c.lineFor raw
    let c := c.remember raw line
    let word := (Text.splitWord line).1
    if asksForReset word then
      ⟨c.note .warn ["board reset requested"], "Board reset requested !" ++ newline, [], [], .reset⟩
    else c.dispatch service word line

end Console

end SerialConsole
