import SerialConsole.Proofs.Text.Fitting
import SerialConsole.Scratch

/-!
# Putting a message together

A message is put together over cells that hold something already.  Each part is copied in one block from
the cursor on, and the block is cut at the last cell:

    before the cursor     as it was
    the block             the first bytes of the part, as many as there is room for
    behind the block      as it was

From block to block the cells hold the first bytes of all parts so far, one after the other, and behind
them what was there before the first part.  There is only one row that does:

    Assembled cells parts r ↔ r = assemble cells parts        (assembled_iff)

So it does not matter where the parts meet, and behind a part that was cut not even the shortest one is
put in.
-/

namespace SerialConsole

open Text

namespace Text

theorem encode_join (parts : List String) : encode (String.join parts) = parts.flatMap encode := by
  induction parts with
  | nil => rw [String.join_nil]; rfl
  | cons part parts ih => rw [String.join_cons, encode_append, ih, List.flatMap_cons]

end Text

/-! ## One block -/

namespace Row

variable {limit spare : Nat} {r s : Row limit spare}

/-- The bytes are copied to the cursor in one block, which is cut at the limit, and nothing else
changes. -/
structure Copies (r : Row limit spare) (bs : Bytes) (s : Row limit spare) : Prop where
  used : s.used = r.used + min bs.length (limit - r.used)
  cells : s.cells.toList = r.bytes ++ bs.take (limit - r.used) ++ r.cells.toList.drop s.used

/-- Putting in bytes one by one comes to the same as copying a block. -/
theorem copies_write (r : Row limit spare) (bs : Bytes) : Copies r bs (r.write bs) where
  used := by
    have hle := r.used_le
    rw [used_write]
    omega
  cells := by
    rw [← bytes_write, ← drop_cells_write r bs (Nat.le_refl _)]
    exact (List.take_append_drop _ _).symm

theorem Copies.bytes {bs : Bytes} (h : Copies r bs s) :
    s.bytes = r.bytes ++ bs.take (limit - r.used) := by
  have hlength : (r.bytes ++ bs.take (limit - r.used)).length = s.used := by
    rw [List.length_append, length_bytes, List.length_take, Nat.min_comm, h.used]
  rw [Row.bytes, h.cells, List.take_left' hlength]

theorem Copies.drop_cells {bs : Bytes} (h : Copies r bs s) :
    s.cells.toList.drop s.used = r.cells.toList.drop s.used := by
  have hlength : (r.bytes ++ bs.take (limit - r.used)).length = s.used := by
    rw [← h.bytes, length_bytes]
  conv => lhs; rw [h.cells]
  exact List.drop_left' hlength

end Row

namespace Scratch

/-! ## Parts -/

/-- How many bytes the parts have. -/
def totalLength : List String → Nat
  | [] => 0
  | part :: parts => (encode part).length + totalLength parts

theorem totalLength_eq (parts : List String) :
    totalLength parts = (encode (String.join parts)).length := by
  induction parts with
  | nil => rw [String.join_nil]; rfl
  | cons part parts ih =>
    rw [totalLength, ih, String.join_cons, encode_append, List.length_append]

variable {size : Nat} {cells : Vector UInt8 size} {parts : List String} {r s : Scratch size}

/-- The cells hold the first bytes of the parts up to the cursor, and behind it what they held before. -/
structure Assembled (cells : Vector UInt8 size) (parts : List String) (r : Scratch size) : Prop where
  used : r.used = min size (totalLength parts)
  written : r.cells.toList.take r.used = (encode (String.join parts)).take r.used
  untouched : r.cells.toList.drop r.used = cells.toList.drop r.used

/-- What is in front of the cursor is as much of the parts as there is room for. -/
theorem take_of_eq_min {n : Nat} (h : n = min size (totalLength parts)) :
    (encode (String.join parts)).take n = (encode (String.join parts)).take size := by
  rw [h, totalLength_eq, List.take_eq_take_iff]
  omega

theorem Assembled.bytes (h : Assembled cells parts r) :
    r.bytes = (encode (String.join parts)).take size := h.written.trans (take_of_eq_min h.used)

theorem assembled_of_bytes (hbytes : r.bytes = (encode (String.join parts)).take size)
    (hrest : r.cells.toList.drop r.used = cells.toList.drop r.used) : Assembled cells parts r := by
  have hused : r.used = min size (totalLength parts) := by
    rw [← Row.length_bytes, hbytes, List.length_take, totalLength_eq]
  exact ⟨hused, hbytes.trans (take_of_eq_min hused).symm, hrest⟩

theorem Assembled.unique (hr : Assembled cells parts r) (hs : Assembled cells parts s) : r = s := by
  have hused : r.used = s.used := hr.used.trans hs.used.symm
  apply Row.eq_of_bytes_eq
  · rw [hr.bytes, hs.bytes]
  · rw [hr.untouched, hs.untouched, hused]

/-! ## From part to part -/

theorem assembled_ofCells (cells : Vector UInt8 size) : Assembled cells [] (Row.ofCells cells) := by
  apply assembled_of_bytes
  · rw [Row.bytes_ofCells, String.join_nil]
    exact List.take_nil.symm
  · rfl

/-- The next part is copied behind those that are there. -/
theorem Assembled.concat (h : Assembled cells parts r) {part : String}
    (hcopies : Row.Copies r (encode part) s) : Assembled cells (parts ++ [part]) s := by
  apply assembled_of_bytes
  · have hjoin : String.join (parts ++ [part]) = String.join parts ++ part := by
      rw [String.join_append, String.join_cons, String.join_nil, String.append_empty]
    have hroom : size - r.used = size - (encode (String.join parts)).length := by
      rw [h.used, totalLength_eq]
      omega
    rw [hcopies.bytes, h.bytes, hroom, hjoin, encode_append, List.take_append]
  · -- the cursor only moves on, and the cells behind its old place were untouched
    have hle : s.used = r.used + (s.used - r.used) := by
      rw [hcopies.used]
      omega
    rw [hcopies.drop_cells, hle, ← List.drop_drop, h.untouched, List.drop_drop]

theorem Assembled.foldl_write (h : Assembled cells parts r) (more : List String) :
    Assembled cells (parts ++ more) (more.foldl (fun row part => row.write (encode part)) r) := by
  induction more generalizing parts r with
  | nil => rwa [List.append_nil]
  | cons part more ih =>
    have hrest := ih (h.concat (r.copies_write (encode part)))
    rwa [List.append_assoc, List.singleton_append] at hrest

theorem assembled_assemble (cells : Vector UInt8 size) (parts : List String) :
    Assembled cells parts (assemble cells parts) := (assembled_ofCells cells).foldl_write parts

theorem assembled_iff : Assembled cells parts r ↔ r = assemble cells parts := by
  refine ⟨fun h => h.unique (assembled_assemble cells parts), ?_⟩
  rintro rfl
  exact assembled_assemble cells parts

/-- Parts that fill all cells leave no room for others. -/
theorem Assembled.append (h : Assembled cells parts r) (hfull : size ≤ totalLength parts)
    (more : List String) : Assembled cells (parts ++ more) r := by
  refine assembled_of_bytes ?_ h.untouched
  rw [totalLength_eq] at hfull
  rw [h.bytes, String.join_append, encode_append, List.take_append_of_le_length hfull]

theorem assemble_congr {others : List String} (h : String.join others = String.join parts) :
    assemble cells others = assemble cells parts := by
  have hothers := assembled_assemble cells others
  apply assembled_iff.mp
  refine assembled_of_bytes ?_ hothers.untouched
  rw [hothers.bytes, h]

/-- **The law of assembling.**  Whatever the cells held, there is one thing that they can hold afterwards:
the first bytes of all parts together, as many as there are cells or as there are bytes, and behind them
what was there before; the cursor tells how many.  Parts that make the same text make the same of the
cells.  Each part is copied in one block, and once the cells are full no part changes anything. -/
theorem assembling_law (cells : Vector UInt8 size) (parts : List String) :
    (∀ r, Assembled cells parts r ↔ r = assemble cells parts) ∧
    (∀ others, String.join others = String.join parts →
      assemble cells others = assemble cells parts) ∧
    (∀ part, Row.Copies (assemble cells parts) (encode part) (assemble cells (parts ++ [part]))) ∧
    (size ≤ totalLength parts → ∀ more, assemble cells (parts ++ more) = assemble cells parts) := by
  refine ⟨fun r => assembled_iff, fun others h => assemble_congr h, ?_, ?_⟩
  · intro part
    have hlast : assemble cells (parts ++ [part]) = (assemble cells parts).write (encode part) :=
      List.foldl_append
    rw [hlast]
    exact Row.copies_write _ _
  · intro hfull more
    exact (assembled_iff.mp ((assembled_assemble cells parts).append hfull more)).symm

/-- A character that does not fit whole is cut, and nothing follows it. -/
theorem assembling_law_cut :
    let cells : Vector UInt8 4 := Vector.replicate 4 0xFF
    let r := assemble cells ["ab", "cé"]
    4 ≤ totalLength ["ab", "cé"] ∧ r.used = 4 ∧ r.cells.toList = [0x61, 0x62, 0x63, 0xC3] ∧
      assemble cells ["a", "", "bcé"] = r ∧ assemble cells ["ab", "cé", "d"] = r := by
  intro cells r
  have hfull : 4 ≤ totalLength ["ab", "cé"] := by decide
  obtain ⟨hheld, hcongr, -, hstay⟩ := assembling_law cells ["ab", "cé"]
  refine ⟨hfull, ((hheld r).mpr rfl).used, by decide +kernel, ?_, hstay hfull ["d"]⟩
  exact hcongr ["a", "", "bcé"] (by decide)

/-- Parts that do not fill the cells leave the last ones alone. -/
example : (assemble (Vector.replicate 4 0xFF) ["a"]).cells.toList = [0x61, 0xFF, 0xFF, 0xFF] := by
  decide +kernel

end Scratch

end SerialConsole
