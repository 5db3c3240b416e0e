import SerialConsole.Help

/-!
# The rows of a help listing

A help listing is a heading, one row for each command of the table and a reminder.  A row is told by
what stands in it: the name, spaces up to the column of the descriptions, one more space, the
description and a line break.  So a command has one row only, and a table one listing:

    RowOf e text            ↔  text = row e                              (rowOf_iff)
    RowsOf es rows          ↔  rows = es.map row                         (rowsOf_iff)
    RowsOf t.commands rows  →  listing t = framed rows                   (listing_eq_framed)
-/

namespace SerialConsole

open Settings

/-! ## Cells of a column -/

namespace Text

/-- The text and then nothing but spaces, as wide as the column, or as the text if that is wider. -/
structure Fills (width : Nat) (s cell : String) : Prop where
  isPrefix : s.toList <+: cell.toList
  spaces : ∀ c ∈ cell.toList.drop s.toList.length, c = ' '
  length : cell.toList.length = max width s.toList.length

theorem fills_alignLeft (width : Nat) (s : String) : Fills width s (alignLeft width s) := by
  have hcell : (alignLeft width s).toList =
      s.toList ++ List.replicate (width - s.toList.length) ' ' := String.toList_ofList
  refine ⟨?_, ?_, ?_⟩
  · rw [hcell]
    exact List.prefix_append _ _
  · intro c hc
    rw [hcell, List.drop_left] at hc
    exact List.eq_of_mem_replicate hc
  · rw [hcell, List.length_append, List.length_replicate]
    omega

/-- A text fills a column in one way only. -/
theorem Fills.unique {width : Nat} {s cell cell' : String} (h : Fills width s cell)
    (h' : Fills width s cell') : cell = cell' := by
  obtain ⟨pad, hpad⟩ := h.isPrefix
  obtain ⟨pad', hpad'⟩ := h'.isPrefix
  have hspaces : ∀ c ∈ pad, c = ' ' := by
    have hall := h.spaces
    rwa [← hpad, List.drop_left] at hall
  have hspaces' : ∀ c ∈ pad', c = ' ' := by
    have hall := h'.spaces
    rwa [← hpad', List.drop_left] at hall
  have hlength : pad.length = pad'.length := by
    have hwidth := h.length.trans h'.length.symm
    rw [← hpad, ← hpad', List.length_append, List.length_append] at hwidth
    omega
  rw [← String.toList_inj, ← hpad, ← hpad', List.eq_replicate_of_mem hspaces,
    List.eq_replicate_of_mem hspaces', hlength]

theorem fills_iff {width : Nat} {s cell : String} :
    Fills width s cell ↔ cell = alignLeft width s := by
  refine ⟨fun h => h.unique (fills_alignLeft width s), ?_⟩
  rintro rfl
  exact fills_alignLeft width s

end Text

/-! ## Rows -/

namespace Help

variable {H : Type}

/-- The row of a command: the name in its column, a space, the description and a line break. -/
def RowOf (e : Command H) (row : String) : Prop :=
  ∃ cell, Text.Fills helpColumn e.name cell ∧ row = cell ++ " " ++ e.description ++ newline

/-- One row for each command, in the same order. -/
structure RowsOf (es : List (Command H)) (rows : List String) : Prop where
  length : rows.length = es.length
  row : ∀ (i : Nat) e row, es[i]? = some e → rows[i]? = some row → RowOf e row

/-- The text below the rows. -/
def reminder : String := String.join (syntaxReminder.map (· ++ newline))

/-- The listing with the given rows. -/
def framed (rows : List String) : String := title ++ String.join rows ++ reminder

theorem rowOf_iff {e : Command H} {text : String} : RowOf e text ↔ text = row e := by
  constructor
  · rintro ⟨cell, hcell, rfl⟩
    rw [Text.fills_iff.mp hcell]
    rfl
  · rintro rfl
    exact ⟨_, Text.fills_alignLeft helpColumn e.name, rfl⟩

theorem rowsOf_iff {es : List (Command H)} {rows : List String} :
    RowsOf es rows ↔ rows = es.map row := by
  constructor
  · intro h
    apply List.ext_getElem
    · rw [h.length, List.length_map]
    · intro i hi hi'
      have hes : i < es.length := by rwa [← h.length]
      rw [List.getElem_map]
      exact rowOf_iff.mp (h.row i _ _ (List.getElem?_eq_getElem hes) (List.getElem?_eq_getElem hi))
  · rintro rfl
    refine ⟨List.length_map row, fun i e text he htext => rowOf_iff.mpr ?_⟩
    rw [List.getElem?_map, he, Option.map_some] at htext
    exact (Option.some_inj.mp htext).symm

theorem rowsOf_append {es es' : List (Command H)} {rows rows' : List String} (h : RowsOf es rows)
    (h' : RowsOf es' rows') : RowsOf (es ++ es') (rows ++ rows') := by
  rw [rowsOf_iff] at h h' ⊢
  rw [h, h', List.map_append]

/-- The description starts behind the column, or behind the name if that is longer, and one space. -/
theorem RowOf.drop_eq {e : Command H} {row : String} (h : RowOf e row) :
    row.toList.drop (max helpColumn e.name.toList.length + 1) =
      e.description.toList ++ newline.toList := by
  obtain ⟨cell, hcell, rfl⟩ := h
  have hlength : (cell.toList ++ " ".toList).length =
      max helpColumn e.name.toList.length + 1 := by
    rw [List.length_append, hcell.length]
    rfl
  rw [String.toList_append, String.toList_append, String.toList_append, List.append_assoc,
    ← hlength, List.drop_left]

/-- The listing has the rows of the commands of the table, and no others. -/
theorem listing_eq_framed {t : CommandTable H} {rows : List String} (h : RowsOf t.commands rows) :
    listing t = framed rows := by
  rw [rowsOf_iff.mp h]
  rfl

theorem exists_rowsOf (es : List (Command H)) : ∃ rows, RowsOf es rows := ⟨_, rowsOf_iff.mpr rfl⟩

end Help

end SerialConsole
