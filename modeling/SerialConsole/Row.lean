import SerialConsole.Text.Utf8

/-!
# Rows of cells

A row is a fixed run of byte cells that is filled from the left up to a cursor.  The first `limit`
cells can be filled; `spare` cells follow them.  The cells from the cursor on keep whatever was
written there before, and the bytes of a row are those before its cursor:

    (r.write bs).bytes = r.bytes ++ bs.take (limit - r.used)     (bytes_write)
    (r.extend bs).bytes = r.bytes ++ bs, if they all fit         (bytes_extend)
    r.erase.bytes = r.bytes.dropLast                             (bytes_erase)
    r.rewind.bytes = []                                          (bytes_rewind)
-/

namespace SerialConsole

/-- Byte cells with a cursor. -/
structure Row (limit spare : Nat) where
  /-- All cells, the unused ones included. -/
  cells : Vector UInt8 (limit + spare)
  /-- The cursor: how many cells are in use. -/
  used : Nat
  used_le : used ≤ limit

namespace Row

variable {limit spare : Nat}

/-- A row that starts with the given cells and has none in use. -/
def ofCells (cells : Vector UInt8 (limit + spare)) : Row limit spare := ⟨cells, 0, Nat.zero_le _⟩

/-- A row of zero cells. -/
def blank : Row limit spare := ofCells (Vector.replicate (limit + spare) 0)

/-- The bytes before the cursor. -/
def bytes (r : Row limit spare) : Bytes := r.cells.toList.take r.used

/-- The bytes before the cursor and the cell at it. -/
def bytesThroughCursor (r : Row limit spare) : Bytes := r.cells.toList.take (r.used + 1)

/-- No byte fits in any more. -/
def isFull (r : Row limit spare) : Bool := limit ≤ r.used

/-- Puts a byte at the cursor; `none` if the row is full. -/
def push? (r : Row limit spare) (b : UInt8) : Option (Row limit spare) :=
  if h : r.used < limit then some ⟨r.cells.set r.used b (by omega), r.used + 1, h⟩ else none

/-- Puts a byte at the cursor if it fits. -/
def push (r : Row limit spare) (b : UInt8) : Row limit spare := (r.push? b).getD r

/-- Puts bytes at the cursor as long as they fit. -/
def write (r : Row limit spare) (bs : Bytes) : Row limit spare := bs.foldl push r

/-- Puts bytes at the cursor if they all fit, and none of them otherwise. -/
def extend (r : Row limit spare) (bs : Bytes) : Row limit spare :=
  if r.used + bs.length ≤ limit then r.write bs else r

/-- Moves the cursor back by one cell, if it can. -/
def erase (r : Row limit spare) : Row limit spare :=
  ⟨r.cells, r.used - 1, Nat.le_trans (Nat.sub_le _ _) r.used_le⟩

/-- Moves the cursor to the first cell. -/
def rewind (r : Row limit spare) : Row limit spare := ofCells r.cells

/-- Puts a zero into the cell at the cursor, if there is one. -/
def terminate (r : Row limit spare) : Row limit spare :=
  if h : r.used < limit + spare then { r with cells := r.cells.set r.used 0 h } else r

/-- Changes every byte before the cursor. -/
def mapUsed (f : UInt8 → UInt8) (r : Row limit spare) : Row limit spare :=
  { r with cells := r.cells.mapIdx fun i b => if i < r.used then f b else b }

/-! ## The bytes of a row -/

@[simp] theorem length_bytes (r : Row limit spare) : r.bytes.length = r.used := by
  have h := r.used_le
  simp only [bytes, List.length_take, Vector.length_toList]
  omega

@[simp] theorem bytes_ofCells (cells : Vector UInt8 (limit + spare)) :
    (ofCells cells).bytes = [] := by simp [bytes, ofCells]

@[simp] theorem bytes_blank : (blank : Row limit spare).bytes = [] := bytes_ofCells _

@[simp] theorem bytes_rewind (r : Row limit spare) : r.rewind.bytes = [] := bytes_ofCells _

@[simp] theorem used_rewind (r : Row limit spare) : r.rewind.used = 0 := rfl

theorem isFull_iff {r : Row limit spare} : r.isFull = true ↔ limit ≤ r.used := by
  simp [isFull]

theorem push?_eq_none_iff {r : Row limit spare} {b : UInt8} :
    r.push? b = none ↔ limit ≤ r.used := by
  unfold push?
  split <;> simp <;> omega

theorem bytes_of_push? {r s : Row limit spare} {b : UInt8} (h : r.push? b = some s) :
    s.bytes = r.bytes ++ [b] := by
  unfold push? at h
  split at h
  · next hlt =>
    cases h
    simp only [bytes, Vector.toList_set]
    rw [List.take_add_one, List.take_set_of_le (Nat.le_refl _)]
    have hin : r.used < r.cells.toList.length := by
      rw [Vector.length_toList]
      omega
    rw [List.getElem?_set_self hin, Option.toList_some]
  · cases h

theorem bytes_push (r : Row limit spare) (b : UInt8) :
    (r.push b).bytes = r.bytes ++ [b].take (limit - r.used) := by
  unfold push
  cases h : r.push? b with
  | none => simp [Nat.sub_eq_zero_of_le (push?_eq_none_iff.mp h)]
  | some s =>
    have hlt : r.used < limit := by
      refine Nat.lt_of_not_le fun hle => ?_
      rw [push?_eq_none_iff.mpr hle] at h
      cases h
    rw [Option.getD_some, bytes_of_push? h, List.take_of_length_le]
    simp only [List.length_singleton]
    omega

theorem used_push (r : Row limit spare) (b : UInt8) : (r.push b).used = min limit (r.used + 1) := by
  have h := r.used_le
  rw [← length_bytes, bytes_push, List.length_append, length_bytes, List.length_take,
    List.length_singleton]
  omega

theorem bytes_write (r : Row limit spare) (bs : Bytes) :
    (r.write bs).bytes = r.bytes ++ bs.take (limit - r.used) := by
  induction bs generalizing r with
  | nil => simp [write]
  | cons b bs ih =>
    have hle := r.used_le
    have hstep := ih (r.push b)
    rw [used_push, bytes_push, List.append_assoc] at hstep
    refine hstep.trans ?_
    congr 1
    by_cases hlt : r.used < limit
    · obtain ⟨n, hn⟩ : ∃ n, limit - r.used = n + 1 := ⟨limit - r.used - 1, by omega⟩
      have hn' : limit - min limit (r.used + 1) = n := by omega
      rw [hn, hn']
      simp
    · have h0 : limit - r.used = 0 := by omega
      have h1 : limit - min limit (r.used + 1) = 0 := by omega
      rw [h0, h1]
      simp

theorem used_write (r : Row limit spare) (bs : Bytes) :
    (r.write bs).used = min limit (r.used + bs.length) := by
  have h := r.used_le
  rw [← length_bytes, bytes_write, List.length_append, length_bytes, List.length_take]
  omega

theorem bytes_extend {r : Row limit spare} {bs : Bytes} (h : r.used + bs.length ≤ limit) :
    (r.extend bs).bytes = r.bytes ++ bs := by
  rw [extend, if_pos h, bytes_write, List.take_of_length_le]
  omega

theorem bytes_erase (r : Row limit spare) : r.erase.bytes = r.bytes.dropLast := by
  rw [List.dropLast_eq_take, length_bytes]
  simp only [bytes, erase, List.take_take]
  congr 1
  omega

@[simp] theorem bytes_terminate (r : Row limit spare) : r.terminate.bytes = r.bytes := by
  unfold terminate
  split
  · simp [bytes, Vector.toList_set, List.take_set_of_le]
  · rfl

/-- Terminating a row that has a spare cell puts a zero right after its bytes. -/
theorem bytesThroughCursor_terminate (r : Row limit spare) (hspare : 0 < spare) :
    r.terminate.bytesThroughCursor = r.bytes ++ [0] := by
  have hle := r.used_le
  have hlt : r.used < limit + spare := by omega
  have hin : r.used < r.cells.toList.length := by rwa [Vector.length_toList]
  simp only [terminate, dif_pos hlt, bytesThroughCursor, bytes, Vector.toList_set]
  rw [List.take_add_one, List.take_set_of_le (Nat.le_refl _), List.getElem?_set_self hin,
    Option.toList_some]

theorem bytes_mapUsed (f : UInt8 → UInt8) (r : Row limit spare) :
    (r.mapUsed f).bytes = r.bytes.map f := by
  have hle := r.used_le
  simp only [bytes, mapUsed]
  apply List.ext_getElem
  · simp
  · intro i h1 h2
    simp only [List.length_take, List.length_map, Vector.length_toList] at h1 h2
    simp [show i < r.used by omega]

/-! ## The cells behind the cursor -/

/-- A row is known from its bytes and from the cells behind them. -/
theorem eq_of_bytes_eq {r s : Row limit spare} (hbytes : r.bytes = s.bytes)
    (hbehind : r.cells.toList.drop r.used = s.cells.toList.drop s.used) : r = s := by
  have hused : r.used = s.used := by rw [← length_bytes, hbytes, length_bytes]
  have hcells : r.cells = s.cells := by
    apply Vector.toList_inj.mp
    calc r.cells.toList
        = r.bytes ++ r.cells.toList.drop r.used := (List.take_append_drop _ _).symm
      _ = s.bytes ++ s.cells.toList.drop s.used := by rw [hbytes, hbehind]
      _ = s.cells.toList := List.take_append_drop _ _
  cases r
  cases s
  cases hused
  cases hcells
  rfl

theorem drop_cells_push (r : Row limit spare) (b : UInt8) {n : Nat} (h : (r.push b).used ≤ n) :
    (r.push b).cells.toList.drop n = r.cells.toList.drop n := by
  by_cases hroom : r.used < limit
  · rw [used_push] at h
    rw [push, push?, dif_pos hroom, Option.getD_some, Vector.toList_set,
      List.drop_set_of_lt (by omega)]
  · rw [push, push?, dif_neg hroom, Option.getD_none]

/-- Putting bytes at the cursor changes no cell behind the new cursor. -/
theorem drop_cells_write (r : Row limit spare) (bs : Bytes) {n : Nat} (h : (r.write bs).used ≤ n) :
    (r.write bs).cells.toList.drop n = r.cells.toList.drop n := by
  induction bs generalizing r with
  | nil => rfl
  | cons b bs ih =>
    have hle : (r.push b).used ≤ n := by
      refine Nat.le_trans ?_ h
      have hlimit := (r.push b).used_le
      show (r.push b).used ≤ ((r.push b).write bs).used
      rw [used_write]
      omega
    exact (ih (r.push b) h).trans (drop_cells_push r b hle)

end Row

end SerialConsole
