import SerialConsole.Row

/-!
# Messages put together from parts

A message is put together in a row of fixed size.  Its parts are written one after the other, and
what does not fit is left out, so only their concatenation counts:

    (assemble cells parts).bytes = (parts.flatMap encode).take size     (bytes_assemble)
-/

namespace SerialConsole

/-- A row all of whose cells can be filled. -/
abbrev Scratch (size : Nat) := Row size 0

namespace Scratch

/-- Writes the parts of a message over the given cells. -/
def assemble {size : Nat} (cells : Vector UInt8 size) (parts : List String) : Scratch size :=
  parts.foldl (fun row part => row.write (Text.encode part)) (Row.ofCells cells)

theorem foldl_write {size : Nat} (row : Scratch size) (parts : List String) :
    parts.foldl (fun row part => row.write (Text.encode part)) row
      = row.write (parts.flatMap Text.encode) := by
  induction parts generalizing row with
  | nil => rfl
  | cons part parts ih =>
    rw [List.foldl_cons, ih, List.flatMap_cons, Row.write, Row.write, Row.write, List.foldl_append]

theorem bytes_assemble {size : Nat} (cells : Vector UInt8 size) (parts : List String) :
    (assemble cells parts).bytes = (parts.flatMap Text.encode).take size := by
  rw [assemble, foldl_write, Row.bytes_write, Row.bytes_ofCells]
  rfl

/-- The bytes of a message of at most `size` bytes. -/
def message (size : Nat) (parts : List String) : Bytes :=
  (assemble (Vector.replicate size 0) parts).bytes

end Scratch

end SerialConsole
