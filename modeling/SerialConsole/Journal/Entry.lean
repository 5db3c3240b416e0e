import SerialConsole.Scratch
import SerialConsole.Settings
import SerialConsole.Text.Column

/-!
# Journal entries

An entry holds a time stamp, a level, a short tag and the first `Settings.maxMessage` bytes of a
message.  Entries are written over and over in the same place, and the cells after a short message
keep what an older one left there; neither `bytes` nor `text` ever shows them.

A message that was cut inside a character is no text, and is shown by a remark in its place.
-/

namespace SerialConsole

open Settings

/-- How important an entry is. -/
inductive Level where
  | error
  | warn
  | info
  | debug
  | trace
  deriving Repr, DecidableEq

namespace Level

/-- How entries show a level. -/
def name : Level → String
  | error => "ERROR"
  | warn => "WARN"
  | info => "INFO"
  | debug => "DEBUG"
  | trace => "TRACE"

/-- A greater rank is more detailed. -/
def rank : Level → Nat
  | error => 0
  | warn => 1
  | info => 2
  | debug => 3
  | trace => 4

instance : Ord Level := ⟨fun a b => compare a.rank b.rank⟩

end Level

namespace Journal

/-- One entry of a journal. -/
structure Entry where
  /-- When it was made, in microseconds. -/
  stamp : Int
  level : Level
  /-- The part of the board that made it. -/
  tag : String
  message : Scratch maxMessage

namespace Entry

/-- What stands in a place that was never written. -/
def blank : Entry := ⟨0, .info, "", Row.blank⟩

/-- Writes an entry over this one; of the message only the first `maxMessage` bytes are kept. -/
def overwrite (e : Entry) (stamp : Int) (level : Level) (tag : String) (message : Bytes) : Entry :=
  ⟨stamp, level, tag, e.message.rewind.write message⟩

/-- The bytes of the message. -/
def bytes (e : Entry) : Bytes := e.message.bytes

/-- The message, or a remark if its bytes are no text. -/
def text (e : Entry) : String := (Text.ofBytes? e.bytes).getD "<invalid utf8>"

/-- The line that shows an entry. -/
def render (e : Entry) : String :=
  "[" ++ Text.alignRight 10 (toString e.stamp) ++ "] " ++ e.level.name ++ " " ++ e.tag ++ ": "
    ++ e.text ++ newline

end Entry

end Journal

end SerialConsole
