import SerialConsole.Line

/-!
# Receivers

A receiver turns the bytes of one serial line into lines.  It fills one line while the line that was
completed last stays ready for the reader; on completion the two change places, so no byte is copied.

A line is completed by a carriage return.  It is also completed, by force, by any other byte that
arrives when it is full, and that byte is lost.  The operator's receiver drops line feeds before
anything else is looked at; a backspace takes back the last byte.

    (r.feed b).2 = .completed r.filling.used (b ≠ carriageReturn)    for such bytes
-/

namespace SerialConsole

/-- The two serial lines. -/
inductive Origin where
  /-- The operator's terminal. -/
  | console
  /-- The companion board. -/
  | link
  deriving Repr, DecidableEq

/-- How messages name a serial line. -/
def Origin.name : Origin → String
  | console => "Console"
  | link => "Link"

/-- One line being filled, one ready to be read. -/
structure Receiver where
  /-- Line feeds are stored like other bytes, not dropped. -/
  keepsLineFeed : Bool
  /-- The line in progress. -/
  filling : Line
  /-- The line that was completed last. -/
  ready : Line
  /-- How many lines were completed. -/
  completed : UInt32
  /-- How many of them by force. -/
  forced : UInt32

namespace Receiver

/-- What became of a byte. -/
inductive Event where
  /-- It is the last byte of the line in progress. -/
  | stored
  /-- It took back the last byte, if there was one. -/
  | erased
  /-- It was dropped. -/
  | ignored
  /-- It completed a line of `len` bytes, by force or not. -/
  | completed (len : Nat) (forced : Bool)
  deriving Repr, DecidableEq

/-- A line was completed. -/
def Event.isCompleted : Event → Bool
  | completed _ _ => true
  | _ => false

/-- The byte that completes a line. -/
def carriageReturn : UInt8 := 0x0d

/-- The byte that operators' terminals may send after a carriage return. -/
def lineFeed : UInt8 := 0x0a

/-- The byte that takes back the last one. -/
def backspace : UInt8 := 0x08

/-- A receiver that got no byte yet. -/
def fresh (keepsLineFeed : Bool) : Receiver := ⟨keepsLineFeed, Line.empty, Line.empty, 0, 0⟩

/-- The receiver of a serial line: only that of the link keeps line feeds. -/
def ofOrigin : Origin → Receiver
  | .console => fresh false
  | .link => fresh true

/-- The line in progress becomes the ready one, and the old ready one is cleared and filled next. -/
def complete (r : Receiver) (forced : Bool) : Receiver :=
  { r with
    filling := r.ready.clear
    ready := r.filling.terminate
    completed := r.completed + 1
    forced := if forced then r.forced + 1 else r.forced }

/-- Takes in one byte. -/
def feed (r : Receiver) (b : UInt8) : Receiver × Event :=
  if !r.keepsLineFeed && b == lineFeed then (r, .ignored)
  else if b == carriageReturn || r.filling.isFull then
    let forced := b != carriageReturn
    (r.complete forced, .completed r.filling.used forced)
  else if b == backspace then ({ r with filling := r.filling.erase }, .erased)
  else ({ r with filling := r.filling.push b }, .stored)

/-- The bytes of the line in progress. -/
def pending (r : Receiver) : Bytes := r.filling.bytes

/-- The bytes of the line that was completed last. -/
def latest (r : Receiver) : Bytes := r.ready.bytes

end Receiver

end SerialConsole
