import SerialConsole.Proofs.Console.Rounds

/-!
# Which commands can be reached

A command is run by the words that its name begins with, unless a word means something else: a comment,
a reset, or a command before it in the table.  What claims a word claims all its beginnings.  So only
one word has to be tried, the longest one that the name begins with and that fits into a line:

    LongestWord e.name p →
      ((∃ c' raw, RunsAt service c' raw j e) ↔ c.table.Unclaimed j p)

A command that is not reached by that word is not reached by any line, on no history.  Nothing says so
when it is registered.
-/

namespace SerialConsole

open Settings Text

/-! ## The longest word of a name -/

namespace Text

/-- A beginning of a name that has no blank and fits into a line. -/
structure OpeningWord (name word : String) : Prop where
  isPrefix : word.toList <+: name.toList
  noBlank : ∀ c ∈ word.toList, isBlank c = false
  fits : (encode word).length ≤ maxChars

/-- The longest such beginning: all the others are beginnings of it. -/
structure LongestWord (name word : String) : Prop extends OpeningWord name word where
  longest : ∀ u, OpeningWord name u → u.toList <+: word.toList

/-- What fits into a line of the first word is the longest word. -/
theorem longestWord_ofText (name : String) :
    LongestWord name (Line.ofText (splitWord name).1).text := by
  have hword := firstWord_splitWord name
  have hcut := longestFit_ofText (splitWord name).1
  refine ⟨⟨hcut.isPrefix.trans hword.isPrefix, ?_, hcut.fits⟩, ?_⟩
  · intro c hc
    exact hword.noBlank c (hcut.isPrefix.mem hc)
  · intro u hu
    exact hcut.longest u (hword.isPrefix_of_noBlank hu.isPrefix hu.noBlank) hu.fits

theorem head?_eq_of_isPrefix {cs ds : List Char} (h : cs <+: ds) (hne : cs ≠ []) :
    ds.head? = cs.head? := by
  obtain ⟨rest, rfl⟩ := h
  cases cs with
  | nil => exact absurd rfl hne
  | cons c cs => rfl

end Text

/-! ## Places in the table -/

namespace CommandTable

variable {H : Type} (t : CommandTable H) {word : String}

/-- The place of the first command that a typed word leads to. -/
def place? (word : String) : Option Nat := t.commands.findIdx? fun e => abbreviates word e.name

/-- Neither a comment nor the reset nor a command before the place claims the word. -/
structure Unclaimed (j : Nat) (word : String) : Prop where
  ne_empty : word ≠ ""
  noComment : word.toList.head? ≠ some '#'
  noReset : ¬ word.toList <+: "reset".toList
  first : ∀ e ∈ t.commands.take j, ¬ word.toList <+: e.name.toList

theorem find?_eq_place? (word : String) :
    t.find? word = (t.place? word).bind fun j => t.commands[j]? :=
  List.find?_eq_bind_findIdx?_getElem?

theorem place?_eq_some_iff (hword : word ≠ "") {j : Nat} {e : Command H}
    (he : t.commands[j]? = some e) :
    t.place? word = some j ↔ word.toList <+: e.name.toList ∧
      ∀ e' ∈ t.commands.take j, ¬ word.toList <+: e'.name.toList := by
  obtain ⟨hj, rfl⟩ := List.getElem?_eq_some_iff.mp he
  rw [place?, List.findIdx?_eq_some_iff_getElem]
  constructor
  · rintro ⟨_, hbegins, hfirst⟩
    refine ⟨(abbreviates_iff_of_ne hword _).mp hbegins, ?_⟩
    intro e' he' hbefore
    obtain ⟨i, hi, rfl⟩ := List.mem_take_iff_getElem.mp he'
    exact hfirst i (by omega) ((abbreviates_iff_of_ne hword _).mpr hbefore)
  · rintro ⟨hbegins, hfirst⟩
    refine ⟨hj, (abbreviates_iff_of_ne hword _).mpr hbegins, ?_⟩
    intro i hi hbefore
    have hmem : t.commands[i] ∈ t.commands.take j :=
      List.mem_take_iff_getElem.mpr ⟨i, by omega, rfl⟩
    exact hfirst _ hmem ((abbreviates_iff_of_ne hword _).mp hbefore)

variable {t} in
/-- What claims a word claims all its beginnings. -/
theorem Unclaimed.of_isPrefix {j : Nat} {longer : String} (h : t.Unclaimed j word)
    (hle : word.toList <+: longer.toList) : t.Unclaimed j longer := by
  have hne : word.toList ≠ [] := fun hnil => h.ne_empty (String.toList_inj.mp hnil)
  refine ⟨?_, ?_, ?_, ?_⟩
  · rintro rfl
    exact hle.ne_nil hne rfl
  · rw [head?_eq_of_isPrefix hle hne]
    exact h.noComment
  · intro hreset
    exact h.noReset (hle.trans hreset)
  · intro e he hbefore
    exact h.first e he (hle.trans hbefore)

end CommandTable

namespace Console

variable {H : Type}

/-! ## The place that a line leads to -/

/-- The place in the table that a raw line leads to, if it leads to a command. -/
def place? (c : Console H) (raw : String) : Option Nat :=
  if isComment raw = true ∨ asksForReset (splitWord (c.lineFor raw)).1 = true then none
  else c.table.place? (splitWord (c.lineFor raw)).1

/-- The line leads to the command at that place, which runs once, on the whole line. -/
structure RunsAt (service : Service H) (c : Console H) (raw : String) (j : Nat) (e : Command H) :
    Prop where
  place : c.place? raw = some j
  entry : c.table.commands[j]? = some e
  ran : Ran service c e (c.lineFor raw) (c.answer service raw)

/-- The words that reset the board are the beginnings of `reset`, with the empty one. -/
theorem asksForReset_iff_isPrefix (word : String) :
    asksForReset word = true ↔ word.toList <+: "reset".toList := by
  rw [asksForReset, Bool.or_eq_true, beq_iff_eq, abbreviates_iff]
  constructor
  · rintro (rfl | ⟨-, hopens⟩)
    · exact List.nil_prefix
    · exact hopens
  · intro hopens
    by_cases hword : word = ""
    · exact .inl hword
    · exact .inr ⟨hword, hopens⟩

/-- A line that is no comment does not stand for one. -/
theorem StandsFor.isNoComment {c : Console H} (hc : c.Reachable) {raw line : String}
    (h : c.StandsFor raw line) (hraw : raw.toList.head? ≠ some '#') :
    line.toList.head? ≠ some '#' := by
  have hline := h.ne_empty hc
  cases h with
  | typed _ hcut =>
    have hne : line.toList ≠ [] := fun hnil => hline (String.toList_inj.mp hnil)
    rwa [← head?_eq_of_isPrefix hcut.isPrefix hne]
  | replayed hlast =>
    obtain ⟨raw, hshows⟩ := hc.shows_last hlast
    exact hshows.isNoComment
  | help _ => decide

theorem place?_eq_some_iff {c : Console H} {raw : String} {j : Nat} {e : Command H}
    (he : c.table.commands[j]? = some e) :
    c.place? raw = some j ↔ isComment raw = false ∧
      ¬ (splitWord (c.lineFor raw)).1.toList <+: "reset".toList ∧
      (splitWord (c.lineFor raw)).1.toList <+: e.name.toList ∧
      ∀ e' ∈ c.table.commands.take j,
        ¬ (splitWord (c.lineFor raw)).1.toList <+: e'.name.toList := by
  simp only [place?, asksForReset_iff_isPrefix]
  by_cases hreset : (splitWord (c.lineFor raw)).1.toList <+: "reset".toList
  · simp only [hreset, or_true, if_true, not_true_eq_false, false_and, and_false, reduceCtorEq]
  · have hword : (splitWord (c.lineFor raw)).1 ≠ "" := by
      intro hempty
      rw [hempty] at hreset
      exact hreset List.nil_prefix
    have htable := c.table.place?_eq_some_iff hword he
    cases isComment raw with
    | true => simp
    | false => simp only [hreset, htable, or_self, if_false, Bool.false_eq_true, not_false_eq_true,
        true_and]

theorem dispatched?_eq_place? (c : Console H) (raw : String) :
    c.dispatched? raw = (c.place? raw).bind fun j => c.table.commands[j]? := by
  unfold dispatched? place?
  split
  · rfl
  · exact c.table.find?_eq_place? _

theorem runsAt_of_place? (service : Service H) {c : Console H} {raw : String} {j : Nat}
    {e : Command H} (he : c.table.commands[j]? = some e) (h : c.place? raw = some j) :
    RunsAt service c raw j e := by
  have hdispatched : c.dispatched? raw = some e := by
    rw [dispatched?_eq_place?, h, Option.bind_some, he]
  exact ⟨h, he, ran_of_dispatched service hdispatched⟩

/-! ## The words that reach a command -/

/-- A line that leads to a place does so by a word that nothing else claims. -/
theorem Reachable.unclaimed_of_place? {c : Console H} (hc : c.Reachable) {raw : String} {j : Nat}
    {e : Command H} (he : c.table.commands[j]? = some e) (h : c.place? raw = some j) :
    ∃ word, OpeningWord e.name word ∧ c.table.Unclaimed j word := by
  obtain ⟨hcomment, hreset, hbegins, hfirst⟩ := (place?_eq_some_iff he).mp h
  have hword := firstWord_splitWord (c.lineFor raw)
  have hne : (splitWord (c.lineFor raw)).1.toList ≠ [] := by
    intro hnil
    rw [hnil] at hreset
    exact hreset List.nil_prefix
  refine ⟨(splitWord (c.lineFor raw)).1, ⟨hbegins, hword.noBlank, ?_⟩, ?_, ?_, hreset, hfirst⟩
  · have hlength := (encode_isPrefix_encode hword.isPrefix).length_le
    have hfits := fits_lineFor c raw
    omega
  · rintro hempty
    rw [hempty] at hne
    exact hne rfl
  · rw [← head?_eq_of_isPrefix hword.isPrefix hne]
    apply (hc.standsFor_lineFor raw).isNoComment hc
    rw [ne_eq, ← LastCommand.isComment_iff, hcomment]
    exact Bool.false_ne_true

/-- A word that a name begins with leads to the command, if nothing else claims it. -/
theorem place?_of_unclaimed {c : Console H} {word : String} {j : Nat} {e : Command H}
    (he : c.table.commands[j]? = some e) (hword : OpeningWord e.name word)
    (h : c.table.Unclaimed j word) : c.place? word = some j := by
  have hline : c.lineFor word = word := lineFor_of_fits c h.ne_empty hword.fits
  have hsplit : (splitWord word).1 = word :=
    firstWord_iff.mp ⟨hword.noBlank, [], (List.append_nil _).symm, by simp⟩
  rw [place?_eq_some_iff he, hline, hsplit]
  refine ⟨?_, h.noReset, hword.isPrefix, h.first⟩
  rw [← Bool.not_eq_true, LastCommand.isComment_iff]
  exact h.noComment

/-- **The reach law.**  Take the longest word that the name of a command begins with and that fits into
a line.  Some line runs the command, on some console with this table, exactly if neither a comment nor
the reset nor an earlier command claims that word; and then typing the word runs it on every such
console. -/
theorem reach_law (service : Service H) {c : Console H} (hc : c.Reachable) {j : Nat}
    {e : Command H} (he : c.table.commands[j]? = some e) :
    (∃ p, LongestWord e.name p) ∧ ∀ p, LongestWord e.name p →
      ((∃ c' raw, c'.Reachable ∧ c'.table = c.table ∧ RunsAt service c' raw j e) ↔
        c.table.Unclaimed j p) ∧
      (c.table.Unclaimed j p → ∀ c' : Console H, c'.Reachable → c'.table = c.table →
        RunsAt service c' p j e) := by
  refine ⟨⟨_, longestWord_ofText e.name⟩, ?_⟩
  intro p hp
  have htyping : c.table.Unclaimed j p → ∀ c' : Console H, c'.Reachable → c'.table = c.table →
      RunsAt service c' p j e := by
    intro hfree c' _ htable
    rw [← htable] at he hfree
    exact runsAt_of_place? service he (place?_of_unclaimed he hp.toOpeningWord hfree)
  refine ⟨⟨?_, ?_⟩, htyping⟩
  · rintro ⟨c', raw, hc', htable, hruns⟩
    obtain ⟨word, hword, hfree⟩ := hc'.unclaimed_of_place? hruns.entry hruns.place
    rw [htable] at hfree
    exact hfree.of_isPrefix (hp.longest word hword)
  · intro hfree
    exact ⟨c, p, hc, rfl, htyping hfree c hc rfl⟩

/-- A command with a blank in its name is reached by what stands before the blank.  One whose name
opens an earlier name is never reached. -/
theorem reach_law_shadowed :
    let service : Service Nat := fun _ _ line => .ok line
    let c := (fresh .fresh).afterAll [.register "temperature" 0 "", .register "temp" 1 "",
      .register "set point" 2 ""]
    RunsAt service c "set" 3 ⟨"set point", "", .contributed 2⟩ ∧
      ¬ ∃ c' raw, c'.Reachable ∧ c'.table = c.table ∧
        RunsAt service c' raw 2 ⟨"temp", "", .contributed 1⟩ := by
  intro service c
  have hc : c.Reachable := ⟨_, rfl⟩
  have hset : LongestWord "set point" "set" := by
    have h := longestWord_ofText "set point"
    rwa [show (Line.ofText (splitWord "set point").1).text = "set" by decide +kernel] at h
  have htemp : LongestWord "temp" "temp" := by
    have h := longestWord_ofText "temp"
    rwa [show (Line.ofText (splitWord "temp").1).text = "temp" by decide +kernel] at h
  obtain ⟨-, hreached⟩ := reach_law service hc (j := 3) (e := ⟨"set point", "", .contributed 2⟩)
    (by decide +kernel)
  obtain ⟨-, hnever⟩ := reach_law service hc (j := 2) (e := ⟨"temp", "", .contributed 1⟩)
    (by decide +kernel)
  constructor
  · refine (hreached "set" hset).2 ⟨by decide, by decide, by decide, ?_⟩ c hc rfl
    decide +kernel
  · rw [(hnever "temp" htemp).1]
    intro hfree
    exact hfree.first ⟨"temperature", "", .contributed 0⟩ (by decide +kernel) (by decide)

end Console

end SerialConsole
