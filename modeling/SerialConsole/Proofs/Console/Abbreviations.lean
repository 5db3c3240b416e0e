import SerialConsole.Proofs.Console.Reach
import SerialConsole.Proofs.Console.Registrations

/-!
# Abbreviations

A word leads to the first command whose name it begins.  A longer word begins fewer names, so it leads
to the same command or to one behind it, and stays at the same one as long as it begins its name:

    t.LeadsTo longer j e → ∃ i d, i ≤ j ∧ t.LeadsTo word i d          if `longer` begins with `word`

Commands are only ever added at the end, so no registration takes a word away from a command.  What it
can do is to give the new command some words that led nowhere, and if there is no room the table stays
as it is:

    registered       a word that led somewhere     a word that led nowhere
    with room        leads to the same place       leads to the new command, if it begins its name
    without room     leads to the same place       leads nowhere

So whoever chooses a name has to look at the names before it only.
-/

namespace SerialConsole

open Settings Text

namespace CommandTable

variable {H : Type} {t u : CommandTable H} {word longer : String}

/-- The word leads to the command at that place. -/
structure LeadsTo (t : CommandTable H) (word : String) (j : Nat) (e : Command H) : Prop where
  place : t.place? word = some j
  entry : t.commands[j]? = some e

/-- The command that a word finds is the one at the place that it leads to. -/
theorem find?_eq_some_iff_leadsTo {e : Command H} :
    t.find? word = some e ↔ ∃ j, t.LeadsTo word j e := by
  rw [find?_eq_place?, Option.bind_eq_some_iff]
  constructor
  · rintro ⟨j, hplace, hentry⟩
    exact ⟨j, hplace, hentry⟩
  · rintro ⟨j, h⟩
    exact ⟨j, h.place, h.entry⟩

theorem exists_leadsTo {j : Nat} (h : t.place? word = some j) : ∃ e, t.LeadsTo word j e := by
  obtain ⟨hj, -⟩ := List.findIdx?_eq_some_iff_getElem.mp h
  exact ⟨t.commands[j], h, List.getElem?_eq_getElem hj⟩

/-! ## Longer words -/

theorem ne_empty_of_isPrefix (hword : word ≠ "") (hle : word.toList <+: longer.toList) :
    longer ≠ "" := by
  rintro rfl
  exact hword (String.toList_inj.mp (List.prefix_nil.mp hle))

theorem abbreviates_of_isPrefix (hword : word ≠ "") (hle : word.toList <+: longer.toList)
    {name : String} (h : abbreviates longer name = true) : abbreviates word name = true := by
  rw [abbreviates_iff] at h ⊢
  exact ⟨hword, hle.trans h.2⟩

/-- A longer word that begins the name a shorter one leads to leads there too. -/
theorem LeadsTo.of_begins {i : Nat} {d : Command H} (h : t.LeadsTo word i d) (hword : word ≠ "")
    (hle : word.toList <+: longer.toList) (hbegins : longer.toList <+: d.name.toList) :
    t.place? longer = some i := by
  rw [place?_eq_some_iff t (ne_empty_of_isPrefix hword hle) h.entry]
  refine ⟨hbegins, fun e he hbefore => ?_⟩
  exact ((place?_eq_some_iff t hword h.entry).mp h.place).2 e he (hle.trans hbefore)

/-- A shorter word leads to the same place or to one before it, and to the same one exactly if the
longer word begins the name there. -/
theorem LeadsTo.of_isPrefix {j : Nat} {e : Command H} (h : t.LeadsTo longer j e) (hword : word ≠ "")
    (hle : word.toList <+: longer.toList) :
    ∃ i d, i ≤ j ∧ t.LeadsTo word i d ∧ (i = j ↔ longer.toList <+: d.name.toList) := by
  obtain ⟨i, hij, hplace⟩ := List.findIdx?_eq_some_le_of_findIdx?_eq_some
    (fun _ _ hlonger => abbreviates_of_isPrefix hword hle hlonger) h.place
  obtain ⟨d, hd⟩ := exists_leadsTo hplace
  have hlonger := ne_empty_of_isPrefix hword hle
  refine ⟨i, d, hij, hd, ?_, ?_⟩
  · rintro rfl
    exact ((place?_eq_some_iff t hlonger hd.entry).mp h.place).1
  · intro hbegins
    have hsame := (hd.of_begins hword hle hbegins).symm.trans h.place
    exact Option.some_inj.mp hsame

/-! ## Larger tables -/

/-- A larger table leads words where the smaller one did, and others to what was added. -/
theorem place?_of_append {added : List (Command H)} (h : u.commands = t.commands ++ added)
    (word : String) :
    u.place? word = (t.place? word).or
      ((added.findIdx? fun e => abbreviates word e.name).map (· + t.size)) := by
  rw [place?, h, List.findIdx?_append]
  rfl

theorem LeadsTo.of_append {added : List (Command H)} {j : Nat} {e : Command H}
    (hword : t.LeadsTo word j e) (h : u.commands = t.commands ++ added) : u.LeadsTo word j e := by
  obtain ⟨hj, hentry⟩ := List.getElem?_eq_some_iff.mp hword.entry
  refine ⟨?_, ?_⟩
  · rw [place?_of_append h, hword.place, Option.some_or]
  · rw [h, List.getElem?_append_left hj, hword.entry]

end CommandTable

namespace Console

variable {H : Type}

/-- Whatever happens to a console, its words go on leading where they lead. -/
theorem leadsTo_afterAll {c : Console H} {word : String} {j : Nat} {e : Command H}
    (h : c.table.LeadsTo word j e) (acts : List (Act H)) :
    (c.afterAll acts).table.LeadsTo word j e :=
  h.of_append (commands_afterAll c acts)

/-- A registration gives the new command the words that begin its name and led nowhere. -/
theorem place?_register (c : Console H) (e : Command H) (word : String) :
    (c.register e).table.place? word = (c.table.place? word).or
      (if c.table.size < maxCommands ∧ abbreviates word e.name = true then some c.table.size
        else none) := by
  rw [CommandTable.place?_of_append (commands_register c e)]
  congr 1
  by_cases hroom : c.table.size < maxCommands
  · have htake : [e].take c.room = [e] := List.take_of_length_le (Nat.sub_pos_of_lt hroom)
    rw [htake, List.findIdx?_singleton]
    by_cases hbegins : abbreviates word e.name = true
    · rw [if_pos hbegins, if_pos ⟨hroom, hbegins⟩, Option.map_some, Nat.zero_add]
    · rw [if_neg hbegins, if_neg (fun h => hbegins h.2), Option.map_none]
  · have htake : [e].take c.room = [] := by
      rw [room, Nat.sub_eq_zero_of_le (Nat.not_lt.mp hroom), List.take_zero]
    rw [htake, if_neg (fun h => hroom h.1)]
    rfl

/-- **The law of abbreviations.**  Typing more characters never leads to an earlier command, and leads
to another one exactly if they do not begin the name of the first.  Nothing that happens to a console
takes a word away from the command that it leads to; all that a registration changes is that words which
begin the new name, and led nowhere, lead to the new command if there is room for it. -/
theorem abbreviation_law (c : Console H) :
    (∀ word e, c.table.find? word = some e ↔ ∃ j, c.table.LeadsTo word j e) ∧
    (∀ word longer : String, word ≠ "" → word.toList <+: longer.toList →
      ∀ j e, c.table.LeadsTo longer j e → ∃ i d, i ≤ j ∧ c.table.LeadsTo word i d ∧
        (i = j ↔ longer.toList <+: d.name.toList)) ∧
    (∀ word j e, c.table.LeadsTo word j e →
      ∀ acts, (c.afterAll acts).table.LeadsTo word j e) ∧
    ∀ e word, (c.register e).table.place? word = (c.table.place? word).or
      (if c.table.size < maxCommands ∧ abbreviates word e.name = true then some c.table.size
        else none) := by
  refine ⟨fun _ _ => CommandTable.find?_eq_some_iff_leadsTo, ?_, ?_, place?_register c⟩
  · intro word longer hword hle j e h
    exact h.of_isPrefix hword hle
  · intro word j e h acts
    exact leadsTo_afterAll h acts

/-- A word goes on to a later command when it leaves the name of the first one, and stays there when a
command of just that name is registered. -/
theorem abbreviation_law_stay :
    let c := (fresh .fresh).afterAll [.register "stop" 0 "", .register "status" 1 "",
      .register "stat" 2 ""]
    c.table.LeadsTo "sta" 2 ⟨"status", "", .contributed 1⟩ ∧
      (∃ i d, i ≤ 2 ∧ c.table.LeadsTo "st" i d ∧ (i = 2 ↔ "sta".toList <+: d.name.toList)) ∧
      (c.afterAll [.register "sta" 3 "", .attach ⟨0⟩]).table.LeadsTo "sta" 2
        ⟨"status", "", .contributed 1⟩ := by
  intro c
  have hsta : c.table.LeadsTo "sta" 2 ⟨"status", "", .contributed 1⟩ := by
    constructor <;> decide +kernel
  obtain ⟨-, hshorter, hkept, -⟩ := abbreviation_law c
  exact ⟨hsta, hshorter "st" "sta" (by decide) (by decide) 2 _ hsta, hkept "sta" 2 _ hsta _⟩

end Console

end SerialConsole
