import SerialConsole.Proofs.Text.Masking

/-!
# Editing a line

A line is edited at its end or replaced as a whole.  The cells from the cursor on keep what was written
there before, but no edit reads them: a line does to its bytes what the edit does to a list of bytes, and
answers the same.

    edit           the bytes afterwards                  answer
    push           one more, unless there are maxChars   whether it was put in
    erase          without the last one
    clear          none
    assign         the first maxChars of the given ones
    mask           masked, unless they are a text        whether they were masked
    other edits    the same

    (l.editAll es).1.bytes = (Edit.applyAll l.bytes es).1        (bytes_editAll)

So what a line held before is never seen again, with one exception: the cell at the cursor, which is there
for the terminator.  It holds the terminator right after an edit that puts it there, and as long as the
line is only masked and copied.
-/

namespace SerialConsole

open Settings Text

namespace Row

variable {limit spare : Nat}

/-- There is a cell at the cursor, behind the bytes. -/
theorem exists_cursor (r : Row limit spare) (hspare : 0 < spare) :
    ∃ b, r.cells.toList[r.used]? = some b ∧ r.bytesThroughCursor = r.bytes ++ [b] := by
  have hle := r.used_le
  have hin : r.used < r.cells.toList.length := by
    rw [Vector.length_toList]
    omega
  refine ⟨r.cells.toList[r.used], List.getElem?_eq_getElem hin, ?_⟩
  rw [bytesThroughCursor, bytes, List.take_add_one, List.getElem?_eq_getElem hin, Option.toList_some]

/-- Changing the bytes leaves the cell at the cursor alone. -/
theorem bytesThroughCursor_mapUsed {r : Row limit spare} {b : UInt8} (hspare : 0 < spare)
    (h : r.bytesThroughCursor = r.bytes ++ [b]) (f : UInt8 → UInt8) :
    (r.mapUsed f).bytesThroughCursor = r.bytes.map f ++ [b] := by
  obtain ⟨b', hcell, hcursor⟩ := r.exists_cursor hspare
  obtain ⟨b'', hcell', hcursor'⟩ := (r.mapUsed f).exists_cursor hspare
  have hb : b = b' := by
    rw [h] at hcursor
    simpa using hcursor
  have hsame : (r.mapUsed f).cells.toList[r.used]? = r.cells.toList[r.used]? := by
    simp [mapUsed]
  have hb' : b'' = b' := by
    rw [← Option.some_inj, ← hcell, ← hcell', ← hsame]
    rfl
  rw [hcursor', bytes_mapUsed, hb', hb]

theorem isSome_push?_iff (r : Row limit spare) (b : UInt8) :
    (r.push? b).isSome = true ↔ r.used < limit := by
  rw [← Option.ne_none_iff_isSome, Ne, push?_eq_none_iff, Nat.not_le]

theorem push_of_full {r : Row limit spare} (h : limit ≤ r.used) (b : UInt8) : r.push b = r := by
  rw [push, push?_eq_none_iff.mpr h, Option.getD_none]

end Row

namespace Line

/-- What can be done to a line. -/
inductive Edit where
  | push (b : UInt8)
  | erase
  | terminate
  | clear
  | assignText (s : String)
  | assign (bs : Bytes)
  | mask (w : UInt8)
  /-- A copy is edited from now on. -/
  | copy
  deriving Repr, DecidableEq

/-- An edit, and what it answers. -/
def edit (l : Line) : Edit → Line × Option Bool
  | .push b => (l.push b, some (l.push? b).isSome)
  | .erase => (l.erase, none)
  | .terminate => (l.terminate, none)
  | .clear => (l.clear, none)
  | .assignText s => (l.assignText s, none)
  | .assign bs => (l.assign bs, none)
  | .mask w => ((l.mask w).1, some (l.mask w).2)
  | .copy => (l, none)

def editAll (l : Line) : List Edit → Line × List (Option Bool)
  | [] => (l, [])
  | e :: es =>
    let rest := editAll (l.edit e).1 es
    (rest.1, (l.edit e).2 :: rest.2)

namespace Edit

/-- The edit of a list of bytes. -/
def apply (bs : Bytes) : Edit → Bytes × Option Bool
  | .push b => if bs.length < maxChars then (bs ++ [b], some true) else (bs, some false)
  | .erase => (bs.dropLast, none)
  | .terminate => (bs, none)
  | .clear => ([], none)
  | .assignText s => ((encode s).take maxChars, none)
  | .assign bs' => (bs'.take maxChars, none)
  | .mask w =>
    if WellFormed bs then (bs, some false)
    else (bs.map fun b => if 0x80 ≤ b then w else b, some true)
  | .copy => (bs, none)

def applyAll (bs : Bytes) : List Edit → Bytes × List (Option Bool)
  | [] => (bs, [])
  | e :: es =>
    let rest := applyAll (apply bs e).1 es
    (rest.1, (apply bs e).2 :: rest.2)

/-- The edit puts a terminator behind the bytes. -/
def terminates : Edit → Bool
  | .terminate => true
  | .clear => true
  | .assignText _ => true
  | .assign _ => true
  | _ => false

/-- The edit leaves the cell at the cursor alone, and the cursor too. -/
def keepsEnd : Edit → Bool
  | .mask _ => true
  | .copy => true
  | _ => false

end Edit

/-- A zero byte is in the cell at the cursor. -/
def Terminated (l : Line) : Prop := l.bytesThroughCursor = l.bytes ++ [0]

instance (l : Line) : Decidable l.Terminated := inferInstanceAs (Decidable (_ = _))

/-- Everything that is seen of the line is as the bytes say, the cell at the cursor left aside. -/
structure Holds (l : Line) (bs : Bytes) : Prop where
  bytes : l.bytes = bs
  used : l.used = bs.length
  fits : bs.length ≤ maxChars
  full : l.isFull = true ↔ bs.length = maxChars
  text : LongestText bs l.text
  /-- The cursor is at a cell. -/
  cursor : ∃ b, l.cells.toList[l.used]? = some b ∧ l.bytesThroughCursor = bs ++ [b]

/-- Two lines look the same, whatever their other cells hold. -/
structure Alike (l m : Line) : Prop where
  bytes : l.bytes = m.bytes
  used : l.used = m.used
  isFull : l.isFull = m.isFull
  text : l.text = m.text
  describe : l.describe = m.describe

theorem holds_bytes (l : Line) : l.Holds l.bytes := by
  have hlength : l.bytes.length = l.used := Row.length_bytes l
  have hle := l.used_le
  refine ⟨rfl, hlength.symm, ?_, ?_, longestText_opening l.bytes, Row.exists_cursor l Nat.one_pos⟩
  · rwa [hlength]
  · rw [hlength, Row.isFull_iff]
    exact ⟨Nat.le_antisymm hle, Nat.le_of_eq ∘ Eq.symm⟩

theorem alike_of_bytes_eq {l m : Line} (h : l.bytes = m.bytes) : Alike l m := by
  have hused : l.used = m.used := by rw [← Row.length_bytes l, ← Row.length_bytes m, h]
  have htext : l.text = m.text := by rw [text, text, h]
  refine ⟨h, hused, ?_, htext, ?_⟩
  · rw [Row.isFull, Row.isFull, hused]
  · rw [describe, describe, htext]

/-! ## One edit -/

theorem edit_refines (l : Line) (e : Edit) :
    (l.edit e).1.bytes = (e.apply l.bytes).1 ∧ (l.edit e).2 = (e.apply l.bytes).2 := by
  cases e with
  | push b =>
    have hlength : l.bytes.length = l.used := Row.length_bytes l
    show (l.push b).bytes = _ ∧ some (l.push? b).isSome = _
    rw [Edit.apply, hlength]
    by_cases hroom : l.used < maxChars
    · have hpushed : (l.push? b).isSome = true := (Row.isSome_push?_iff l b).mpr hroom
      have htake : [b].take (maxChars - l.used) = [b] :=
        List.take_of_length_le (Nat.sub_pos_of_lt hroom)
      rw [if_pos hroom, Row.bytes_push, htake, hpushed]
      exact ⟨rfl, rfl⟩
    · have hfull : maxChars ≤ l.used := Nat.not_lt.mp hroom
      rw [if_neg hroom, Row.push_of_full hfull, Row.push?_eq_none_iff.mpr hfull]
      exact ⟨rfl, rfl⟩
  | erase => exact ⟨Row.bytes_erase l, rfl⟩
  | terminate => exact ⟨Row.bytes_terminate l, rfl⟩
  | clear => exact ⟨bytes_clear l, rfl⟩
  | assignText s => exact ⟨bytes_assign l _, rfl⟩
  | assign bs => exact ⟨bytes_assign l bs, rfl⟩
  | mask w =>
    show (l.mask w).1.bytes = _ ∧ some (l.mask w).2 = _
    rw [Edit.apply]
    by_cases hwell : WellFormed l.bytes
    · rw [if_pos hwell, mask_of_wellFormed hwell]
      exact ⟨rfl, rfl⟩
    · rw [if_neg hwell, mask_of_not_wellFormed hwell]
      refine ⟨?_, rfl⟩
      rw [Row.bytes_mapUsed]
      exact List.map_congr_left fun b _ => maskByte_eq w b
  | copy => exact ⟨rfl, rfl⟩

/-- An edit that is refused changes nothing, not even a cell behind the cursor. -/
theorem edit_of_refused {l : Line} {e : Edit} (h : (l.edit e).2 = some false) : (l.edit e).1 = l := by
  cases e with
  | push b =>
    have hrefused : (l.push? b).isSome = false := Option.some_inj.mp h
    apply Row.push_of_full
    refine Nat.le_of_not_lt fun hroom => ?_
    rw [(Row.isSome_push?_iff l b).mpr hroom] at hrefused
    cases hrefused
  | mask w =>
    have hwell : WellFormed l.bytes := by
      refine Decidable.byContradiction fun hnot => ?_
      rw [edit, mask_of_not_wellFormed hnot] at h
      cases h
    show (l.mask w).1 = l
    rw [mask_of_wellFormed hwell]
  | _ => cases h

theorem terminated_terminate (l : Line) : Terminated l.terminate := by
  rw [Terminated, Row.bytesThroughCursor_terminate l Nat.one_pos, Row.bytes_terminate]

theorem terminated_edit {e : Edit} (he : e.terminates = true) (l : Line) :
    Terminated (l.edit e).1 := by
  cases e with
  | terminate => exact terminated_terminate l
  | clear => exact terminated_terminate _
  | assignText s => exact terminated_terminate _
  | assign bs => exact terminated_terminate _
  | _ => cases he

theorem Terminated.edit {l : Line} (h : l.Terminated) {e : Edit} (he : e.keepsEnd = true) :
    Terminated (l.edit e).1 := by
  cases e with
  | mask w =>
    show Terminated (l.mask w).1
    by_cases hwell : WellFormed l.bytes
    · rwa [mask_of_wellFormed hwell]
    · rw [mask_of_not_wellFormed hwell, Terminated, Row.bytes_mapUsed]
      exact Row.bytesThroughCursor_mapUsed Nat.one_pos h _
  | copy => exact h
  | _ => cases he

/-! ## Runs of edits -/

theorem editAll_refines (l : Line) (es : List Edit) :
    (l.editAll es).1.bytes = (Edit.applyAll l.bytes es).1 ∧
      (l.editAll es).2 = (Edit.applyAll l.bytes es).2 := by
  induction es generalizing l with
  | nil => exact ⟨rfl, rfl⟩
  | cons e es ih =>
    obtain ⟨hbytes, hanswer⟩ := l.edit_refines e
    obtain ⟨hrest, hanswers⟩ := ih (l.edit e).1
    rw [hbytes] at hrest hanswers
    refine ⟨hrest, ?_⟩
    rw [editAll, Edit.applyAll, hanswer, hanswers]

theorem bytes_editAll (l : Line) (es : List Edit) :
    (l.editAll es).1.bytes = (Edit.applyAll l.bytes es).1 := (l.editAll_refines es).1

/-- Lines with the same bytes stay alike, whatever is done to both. -/
theorem editAll_congr {l m : Line} (h : l.bytes = m.bytes) (es : List Edit) :
    (l.editAll es).2 = (m.editAll es).2 ∧ Alike (l.editAll es).1 (m.editAll es).1 := by
  constructor
  · rw [(l.editAll_refines es).2, (m.editAll_refines es).2, h]
  · apply alike_of_bytes_eq
    rw [bytes_editAll, bytes_editAll, h]

theorem Terminated.editAll {l : Line} (h : l.Terminated) {es : List Edit}
    (hes : ∀ e ∈ es, e.keepsEnd = true) : Terminated (l.editAll es).1 := by
  induction es generalizing l with
  | nil => exact h
  | cons e es ih =>
    obtain ⟨he, hes⟩ := List.forall_mem_cons.mp hes
    exact ih (h.edit he) hes

/-- **The law of editing.**  Whatever is done to a new line, it answers what a list of bytes answers and
holds what the list holds, never more than `maxChars` bytes, with the cursor at a cell; a refused edit
changes nothing.  What is done to it from then on shows nothing else of its cells: every line with the
same bytes answers the same and looks the same.  A terminator that is put behind the bytes stays there
under masks and copies. -/
theorem editing_law (es : List Edit) :
    let l := (empty.editAll es).1
    let bs := (Edit.applyAll [] es).1
    (empty.editAll es).2 = (Edit.applyAll [] es).2 ∧ l.Holds bs ∧
    (∀ e, (l.edit e).2 = some false → (l.edit e).1 = l) ∧
    (∀ l' : Line, l'.bytes = bs → ∀ es', (l'.editAll es').2 = (l.editAll es').2 ∧
      Alike (l'.editAll es').1 (l.editAll es').1) ∧
    ∀ e es', e.terminates = true → (∀ e' ∈ es', e'.keepsEnd = true) →
      Terminated (l.editAll (e :: es')).1 := by
  intro l bs
  obtain ⟨hbytes, hanswers⟩ := (empty : Line).editAll_refines es
  have hempty : empty.bytes = [] := Row.bytes_blank
  rw [hempty] at hbytes hanswers
  have hl : l.bytes = bs := hbytes
  refine ⟨hanswers, ?_, fun e => edit_of_refused, ?_, ?_⟩
  · rw [← hl]
    exact l.holds_bytes
  · intro l' hl' es'
    exact editAll_congr (hl'.trans hl.symm) es'
  · intro e es' he hes'
    exact (terminated_edit he l).editAll hes'

/-- Bytes that were taken back show at the cursor, and nowhere else; the next terminator hides them. -/
theorem editing_law_stale :
    let l := (empty.editAll [.assignText "stats", .erase, .erase]).1
    l.bytesThroughCursor = encode "stat" ∧ ¬ l.Terminated ∧
      ((ofText "sta").editAll [.push 0xFF, .mask 0x3F]).2 = (l.editAll [.push 0xFF, .mask 0x3F]).2 ∧
      Terminated (l.editAll [.terminate, .mask 0x3F, .copy]).1 := by
  intro l
  obtain ⟨-, -, -, hsame, hterminated⟩ := editing_law [.assignText "stats", .erase, .erase]
  refine ⟨by decide +kernel, by decide +kernel, ?_, ?_⟩
  · exact (hsame (ofText "sta") (by decide +kernel) _).1
  · exact hterminated .terminate [.mask 0x3F, .copy] rfl (by decide)

end Line

end SerialConsole
