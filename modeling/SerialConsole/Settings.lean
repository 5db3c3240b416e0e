/-!
# Settings of the console

Every limit of the console is fixed when it is built.  The line length counts the terminator, so a
line holds one byte less:

    maxChars + 1 = lineSize

The two serial lines differ in their pins only.
-/

namespace SerialConsole.Settings

/-- Cells of a line, the terminator's cell among them. -/
def lineSize : Nat := 100

/-- Bytes that a line can hold. -/
def maxChars : Nat := lineSize - 1

/-- Commands that an application adds to the stock set. -/
def customCommands : Nat := 0

/-- Places in the command table. -/
def maxCommands : Nat := 22 + customCommands

/-- Column at which the help listing starts its descriptions. -/
def helpColumn : Nat := 16

/-- Arguments that a command line keeps. -/
def maxArguments : Nat := 10

/-- Bytes that a journal entry can hold. -/
def maxMessage : Nat := 96

/-- Entries that a journal of the board can hold. -/
def journalSize : Nat := 64

/-- What the console prints when it is ready for the next line. -/
def prompt : String := "$>"

/-- The line break of the console. -/
def newline : String := "\r\n"

/-- Milliseconds between the reset notice and the reset. -/
def resetDelay : UInt32 := 1000

/-- Name and version, as the banner shows them, of a program that was built from a commit. -/
def version (commit : String) : String := "CellConsole v0.1.0-g" ++ commit

/-- How one serial line is wired. -/
structure Wiring where
  /-- Bits per second. -/
  baudRate : UInt32
  /-- Pin that sends. -/
  sendPin : UInt8
  /-- Pin that receives. -/
  receivePin : UInt8
  deriving Repr, DecidableEq

/-- The operator's serial line. -/
def consoleWiring : Wiring := ⟨115200, 43, 44⟩

/-- The serial line of the companion board. -/
def linkWiring : Wiring := ⟨115200, 17, 18⟩

end SerialConsole.Settings
