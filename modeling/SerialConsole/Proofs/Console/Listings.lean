import SerialConsole.Proofs.Console.ListingRows
import SerialConsole.Proofs.Console.Registrations

/-!
# The help listing of a table

The rows of a help listing stand in the order of the table, so what is registered later only adds rows
below the others:

    what is registered     the listing
    up to the last place   one more row below the last one, and nothing else changes
    beyond it              stays as it is

In a row stands the name, then the description.  Names that fit into the column have their descriptions
at one place, counted in characters; a longer name is not cut, and pushes its description to the right.
-/

namespace SerialConsole

open Settings

namespace Console

variable {H : Type}

open Help

/-- Whatever happens to a console adds rows below those that its listing has: one for each command that
is registered, as long as the table has room. -/
theorem listing_afterAll (c : Console H) {rows : List String} (h : RowsOf c.table.commands rows)
    (acts : List (Act H)) :
    ∃ more, RowsOf ((entries acts).take c.room) more ∧
      listing (c.afterAll acts).table = framed (rows ++ more) := by
  have hmore : RowsOf ((entries acts).take c.room) (((entries acts).take c.room).map row) :=
    rowsOf_iff.mpr rfl
  refine ⟨_, hmore, listing_eq_framed ?_⟩
  rw [commands_afterAll]
  exact rowsOf_append h hmore

/-- A command that finds room adds its row behind the last one. -/
theorem listing_register_of_room {c : Console H} {rows : List String}
    (h : RowsOf c.table.commands rows) (hroom : 0 < c.room) (e : Command H) :
    ∃ row, RowOf e row ∧ listing (c.register e).table = framed (rows ++ [row]) := by
  refine ⟨row e, rowOf_iff.mpr rfl, listing_eq_framed ?_⟩
  rw [commands_register, List.take_of_length_le hroom]
  exact rowsOf_append h (rowsOf_iff.mpr rfl)

/-- A command that is refused does not change the listing. -/
theorem listing_register_of_full {c : Console H} (hfull : c.room = 0) (e : Command H) :
    listing (c.register e).table = listing c.table := by
  have htable : (c.register e).table = c.table := by
    apply CommandTable.eq_of_commands_eq
    rw [commands_register, hfull, List.take_zero, List.append_nil]
  rw [htable]

/-- **The listing law.**  Whatever happened to a console since it was started, its help listing is the
heading, one row for `help` and for each of the first 21 commands that were registered, in their order,
and the reminder; no other rows will do.  The next command adds its own row behind the last one if there
is room for it and leaves the listing as it is otherwise, and whatever happens from then on only adds
rows behind those that are there.  All descriptions of names that fit into the column start at the same
character of their rows. -/
theorem listing_law (b : Board) (acts : List (Act H)) :
    let c := (fresh b).afterAll acts
    ∃ rows, RowsOf (.help :: (entries acts).take 21) rows ∧ listing c.table = framed rows ∧
      (∀ rows', RowsOf (.help :: (entries acts).take 21) rows' → rows' = rows) ∧
      (∀ e, (entries acts).length < 21 →
        ∃ row, RowOf e row ∧ listing (c.register e).table = framed (rows ++ [row])) ∧
      (∀ e, 21 ≤ (entries acts).length → listing (c.register e).table = listing c.table) ∧
      (∀ acts', ∃ more, RowsOf ((entries acts').take (21 - (entries acts).length)) more ∧
        listing (c.afterAll acts').table = framed (rows ++ more)) ∧
      ∀ e row, RowOf (H := H) e row → e.name.toList.length ≤ helpColumn →
        row.toList.drop (helpColumn + 1) = e.description.toList ++ newline.toList := by
  intro c
  have hcommands : c.table.commands = .help :: (entries acts).take 21 :=
    commands_afterAll (fresh b) acts
  have hroom : c.room = 21 - (entries acts).length := room_afterAll (fresh b) acts
  obtain ⟨rows, hrows⟩ := exists_rowsOf (.help :: (entries acts).take 21)
  have htable : RowsOf c.table.commands rows := by rwa [hcommands]
  refine ⟨rows, hrows, listing_eq_framed htable, ?_, ?_, ?_, ?_, ?_⟩
  · intro rows' hrows'
    rw [rowsOf_iff.mp hrows', rowsOf_iff.mp hrows]
  · intro e hlt
    exact listing_register_of_room htable (by omega) e
  · intro e hle
    exact listing_register_of_full (by omega) e
  · intro acts'
    rw [← hroom]
    exact listing_afterAll c htable acts'
  · intro e row hrow hfits
    have hdrop := hrow.drop_eq
    rwa [Nat.max_eq_left hfits] at hdrop

/-- A row is measured in characters.  The command behind the last place is not listed. -/
theorem listing_law_full :
    let c := (fresh (H := Unit) .fresh).afterAll (List.replicate 21 (.register "temp" () ""))
    RowOf (⟨"état", "state", .contributed ()⟩ : Command Unit) "état             state\r\n" ∧
      "état             state\r\n".toList.drop 17 = "state\r\n".toList ∧
      listing (c.register ⟨"late", "", .contributed ()⟩).table = listing c.table ∧
      ∃ row, RowOf (⟨"late", "", .contributed ()⟩ : Command Unit) row ∧
        listing ((fresh .fresh).register ⟨"late", "", .contributed ()⟩).table =
          framed [Help.row (H := Unit) .help, row] := by
  intro c
  have hrow : RowOf (⟨"état", "state", .contributed ()⟩ : Command Unit)
      "état             state\r\n" := rowOf_iff.mpr (by decide)
  obtain ⟨rows, -, -, -, -, hfull, -, hcolumn⟩ :=
    listing_law (H := Unit) .fresh (List.replicate 21 (.register "temp" () ""))
  obtain ⟨first, hfirst, -, -, hnext, -⟩ := listing_law (H := Unit) .fresh []
  refine ⟨hrow, hcolumn _ _ hrow (by decide), hfull _ (by decide), ?_⟩
  rw [rowsOf_iff.mp hfirst] at hnext
  exact hnext ⟨"late", "", .contributed ()⟩ (by decide)

end Console

end SerialConsole
