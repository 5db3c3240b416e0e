import SerialConsole.Row
import SerialConsole.Settings
import SerialConsole.Text.Quoted

/-!
# Lines

A line is a row of `Settings.lineSize` cells, of which all but the last can be filled; the last is
kept for the terminator, a zero byte.  A line may hold any bytes.  Its text is the longest text that
they open with, and a line whose bytes are no text can be masked so that nothing is lost:

    (l.assign bs).bytes = bs.take maxChars                                 (bytes_assign)
    l.masked? w = some m → m.bytes = l.bytes.map (maskByte w)              (bytes_of_masked?)
-/

namespace SerialConsole

open Settings

/-- Bytes of one line, with a cell for the terminator. -/
abbrev Line := Row maxChars 1

namespace Line

/-- A line without bytes. -/
def empty : Line := Row.blank

/-- Takes all bytes out and terminates the line at its first cell. -/
def clear (l : Line) : Line := l.rewind.terminate

/-- Replaces the bytes by the first `maxChars` of the given ones, and terminates the line. -/
def assign (l : Line) (bs : Bytes) : Line := (l.rewind.write bs).terminate

/-- Replaces the bytes by those of a text. -/
def assignText (l : Line) (s : String) : Line := l.assign (Text.encode s)

/-- A fresh line that holds the given bytes. -/
def ofBytes (bs : Bytes) : Line := empty.assign bs

/-- A fresh line that holds the bytes of a text. -/
def ofText (s : String) : Line := empty.assignText s

/-- The longest text that the line opens with. -/
def text (l : Line) : String := Text.opening l.bytes

/-- `w` in place of a byte that is not ASCII. -/
def maskByte (w b : UInt8) : UInt8 := if Text.isAscii b then b else w

/-- With `w` for every byte that is not ASCII, if the bytes are no text; `none` if they are one. -/
def masked? (l : Line) (w : UInt8) : Option Line :=
  match Text.ofBytes? l.bytes with
  | some _ => none
  | none => some (l.mapUsed (maskByte w))

/-- What a diagnostic shows of a line. -/
def describe (l : Line) : String := "LineBuffer(" ++ Text.quoted l.text ++ ")"

/-! ## The bytes of a line -/

@[simp] theorem bytes_clear (l : Line) : l.clear.bytes = [] := by simp [clear]

theorem bytes_assign (l : Line) (bs : Bytes) : (l.assign bs).bytes = bs.take maxChars := by
  simp [assign, Row.bytes_write]

theorem bytes_of_masked? {l m : Line} {w : UInt8} (h : l.masked? w = some m) :
    m.bytes = l.bytes.map (maskByte w) := by
  unfold masked? at h
  split at h
  · cases h
  · cases h
    exact Row.bytes_mapUsed _ _

end Line

end SerialConsole
