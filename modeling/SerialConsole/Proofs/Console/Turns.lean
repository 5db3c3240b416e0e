import SerialConsole.Proofs.Console.ListingRows
import SerialConsole.Proofs.Console.Memory
import SerialConsole.Proofs.Console.Payloads
import SerialConsole.Proofs.Text.Words

/-!
# What the console does about a line

A raw line stands for a line: a typed one for as much of it as fits, a blank one for the last command,
or for `help` if there is none.  The first word of that line decides what is done.

    raw is a comment                             the prompt alone
    the line starts with a blank, or its first   the notice alone, and the reset
    word opens `reset`
    the first word opens the name of a command   the first such command runs once, on the whole line
    it opens no name                             the report and the help listing

These are all turns that there are (`answer_cases`).  On a reachable console the line is never empty,
so it starts with a blank or has a first word.  The help listing is told by its rows (`Help.RowsOf`),
and what is forwarded by the text behind the first space of the line (`Sends`).
-/

namespace SerialConsole

open Settings Text

/-! ## The first command that a word leads to -/

/-- The name of the command begins with the word, and no name before it does. -/
structure CommandTable.FirstMatch {H : Type} (t : CommandTable H) (word : String) (e : Command H) :
    Prop where
  begins : word.toList <+: e.name.toList
  first : ∃ before after, t.commands = before ++ e :: after ∧
    ∀ e' ∈ before, ¬ word.toList <+: e'.name.toList

namespace CommandTable

variable {H : Type} (t : CommandTable H) {word : String}

theorem abbreviates_iff_of_ne (hword : word ≠ "") (e : Command H) :
    abbreviates word e.name = true ↔ word.toList <+: e.name.toList :=
  abbreviates_iff.trans (and_iff_right hword)

theorem find?_eq_some_iff (hword : word ≠ "") {e : Command H} :
    t.find? word = some e ↔ t.FirstMatch word e := by
  rw [find?, List.find?_eq_some_iff_append, abbreviates_iff_of_ne hword]
  simp only [Bool.not_eq_true', ← Bool.not_eq_true, abbreviates_iff_of_ne hword]
  constructor
  · rintro ⟨hbegins, before, after, hsplit, hfirst⟩
    exact ⟨hbegins, before, after, hsplit, hfirst⟩
  · rintro ⟨hbegins, before, after, hsplit, hfirst⟩
    exact ⟨hbegins, before, after, hsplit, hfirst⟩

variable {t} in
theorem FirstMatch.mem {e : Command H} (h : t.FirstMatch word e) : e ∈ t.commands := by
  obtain ⟨before, after, hsplit, -⟩ := h.first
  rw [hsplit]
  exact List.mem_append_right _ List.mem_cons_self

theorem find?_eq_none_iff (hword : word ≠ "") :
    t.find? word = none ↔ ¬ ∃ e ∈ t.commands, word.toList <+: e.name.toList := by
  rw [find?, List.find?_eq_none]
  simp only [abbreviates_iff_of_ne hword, not_exists, not_and]

end CommandTable

namespace Console

variable {H : Type}

/-! ## The line that is meant -/

/-- What a raw line stands for. -/
inductive StandsFor (c : Console H) : String → String → Prop where
  /-- A typed line stands for the whole characters of it that fit. -/
  | typed {raw line : String} (hraw : raw ≠ "") (hcut : LongestFit maxChars raw line) :
    c.StandsFor raw line
  /-- A blank line stands for the last command. -/
  | replayed {line : String} (hlast : c.last? = some line) : c.StandsFor "" line
  /-- A blank line stands for `help` if there was no command yet. -/
  | help (hnone : c.last? = none) : c.StandsFor "" "help"

/-- What a console remembers is one of the lines that it was given, cut to what fits. -/
theorem shows_last_afterAll {b : Board} {acts : List (Act H)} {line : String}
    (hlast : ((fresh b).afterAll acts).last? = some line) :
    ∃ raw ∈ (fresh b).lines acts, ((fresh b).afterAll acts).lastCommand.Shows raw line := by
  have hshows := LastCommand.empty.shows_foldl_hear ((fresh b).lines acts)
  have hmemory : ((fresh b).afterAll acts).lastCommand =
      ((fresh b).lines acts).foldl LastCommand.hear .empty := lastCommand_afterAll (fresh b) acts
  rw [← hmemory] at hshows
  rw [last?] at hlast
  cases hraw : lastMemorable ((fresh b).lines acts) with
  | none =>
    rw [hraw] at hshows
    rw [hshows] at hlast
    cases hlast
  | some raw =>
    rw [hraw] at hshows
    obtain ⟨l, hl⟩ := hshows
    have hsame : l = line := Option.some_inj.mp (hl.get?.symm.trans hlast)
    have hmem := List.mem_of_getLast? hraw
    exact ⟨raw, (List.mem_filter.mp hmem).1, hsame ▸ hl⟩

theorem Reachable.shows_last {c : Console H} (hc : c.Reachable) {line : String}
    (hlast : c.last? = some line) : ∃ raw, c.lastCommand.Shows raw line := by
  obtain ⟨acts, rfl⟩ := hc
  obtain ⟨raw, -, hshows⟩ := shows_last_afterAll hlast
  exact ⟨raw, hshows⟩

/-- A line that fits is put into a line as it is. -/
theorem text_ofText_of_fits {line : String} (hfits : (encode line).length ≤ maxChars) :
    (Line.ofText line).text = line :=
  (longestFit_ofText line).eq_of_length_le hfits

/-- A typed line that fits stands for itself. -/
theorem standsFor_of_fits (c : Console H) {raw : String} (hraw : raw ≠ "")
    (hfits : (encode raw).length ≤ maxChars) : c.StandsFor raw raw := by
  have hcut := longestFit_ofText raw
  rw [text_ofText_of_fits hfits] at hcut
  exact .typed hraw hcut

theorem lineFor_of_fits (c : Console H) {raw : String} (hraw : raw ≠ "")
    (hfits : (encode raw).length ≤ maxChars) : c.lineFor raw = raw := by
  rw [lineFor, if_neg hraw, text_ofText_of_fits hfits]

/-- Every raw line stands for a line. -/
theorem Reachable.standsFor_lineFor {c : Console H} (hc : c.Reachable) (raw : String) :
    c.StandsFor raw (c.lineFor raw) := by
  unfold lineFor
  by_cases hraw : raw = ""
  · subst hraw
    rw [if_pos rfl]
    cases hlast : c.last? with
    | none =>
      rw [Option.getD_none, text_ofText_of_fits (by decide)]
      exact .help hlast
    | some line =>
      obtain ⟨raw, hshows⟩ := hc.shows_last hlast
      rw [Option.getD_some, text_ofText_of_fits hshows.cut.fits]
      exact .replayed hlast
  · rw [if_neg hraw]
    exact .typed hraw (longestFit_ofText raw)

theorem StandsFor.unique {c : Console H} {raw line line' : String} (h : c.StandsFor raw line)
    (h' : c.StandsFor raw line') : line = line' := by
  cases h with
  | typed hraw hcut =>
    cases h' with
    | typed _ hcut' => exact hcut.unique hcut'
    | replayed _ => exact absurd rfl hraw
    | help _ => exact absurd rfl hraw
  | replayed hlast =>
    cases h' with
    | typed hraw _ => exact absurd rfl hraw
    | replayed hlast' => exact Option.some_inj.mp (hlast.symm.trans hlast')
    | help hnone => exact nomatch hlast.symm.trans hnone
  | help hnone =>
    cases h' with
    | typed hraw _ => exact absurd rfl hraw
    | replayed hlast => exact nomatch hlast.symm.trans hnone
    | help _ => rfl

theorem StandsFor.lineFor_eq {c : Console H} (hc : c.Reachable) {raw line : String}
    (h : c.StandsFor raw line) : c.lineFor raw = line :=
  (hc.standsFor_lineFor raw).unique h

/-- What a raw line stands for fits into a line. -/
theorem fits_lineFor (c : Console H) (raw : String) : (encode (c.lineFor raw)).length ≤ maxChars :=
  (longestFit_ofText _).fits

theorem StandsFor.fits {c : Console H} (hc : c.Reachable) {raw line : String}
    (h : c.StandsFor raw line) : (encode line).length ≤ maxChars := by
  rw [← h.lineFor_eq hc]
  exact fits_lineFor c raw

/-- No raw line stands for an empty one. -/
theorem StandsFor.ne_empty {c : Console H} (hc : c.Reachable) {raw line : String}
    (h : c.StandsFor raw line) : line ≠ "" := by
  cases h with
  | typed hraw hcut =>
    -- a cut leaves less than one character of room, so some of a longer line stays
    rintro rfl
    by_cases hfits : (encode raw).length ≤ maxChars
    · exact hraw (hcut.eq_of_length_le hfits).symm
    · have hlong : maxChars < 0 + 4 := hcut.le_length_add (Nat.lt_of_not_le hfits)
      exact absurd hlong (by decide)
  | replayed hlast =>
    rintro rfl
    obtain ⟨raw, hshows⟩ := hc.shows_last hlast
    exact absurd hshows.two_le (by decide)
  | help _ => decide

/-! ## The turns that there are -/

/-- The line starts with a blank, or its first word opens `reset`. -/
def AsksForReset (line : String) : Prop :=
  (line.toList.head? = some ' ' ∨ line.toList.head? = some '\t') ∨
    ∃ word, FirstWord line word ∧ word ≠ "" ∧ word.toList <+: "reset".toList

theorem asksForReset_iff {line word : String} (hline : line ≠ "") (hword : FirstWord line word) :
    asksForReset word = true ↔ AsksForReset line := by
  rw [asksForReset, Bool.or_eq_true, beq_iff_eq, hword.eq_empty_iff hline, abbreviates_iff,
    AsksForReset]
  refine or_congr_right ⟨fun h => ⟨word, hword, h⟩, ?_⟩
  rintro ⟨word', hword', h⟩
  rwa [← hword.splitWord_eq, hword'.splitWord_eq]

/-- The turns that there are: the prompt, the reset, or what the first word leads to. -/
theorem answer_cases (service : Service H) (c : Console H) (raw : String) :
    (isComment raw = true ∧ c.answer service raw = ⟨c, promptText, [], [], .proceed⟩) ∨
    (¬ isComment raw = true ∧ asksForReset (splitWord (c.lineFor raw)).1 = true ∧
      ∃ after, c.answer service raw =
        ⟨after, "Board reset requested !" ++ newline, [], [], .reset⟩) ∨
    (¬ isComment raw = true ∧ ¬ asksForReset (splitWord (c.lineFor raw)).1 = true ∧
      ∃ memory, c.answer service raw = { c with lastCommand := memory }.dispatch service
        (splitWord (c.lineFor raw)).1 (c.lineFor raw)) := by
  by_cases hcomment : isComment raw = true
  · exact .inl ⟨hcomment, if_pos hcomment⟩
  · by_cases hreset : asksForReset (splitWord (c.lineFor raw)).1 = true
    · exact .inr (.inl ⟨hcomment, hreset, _, (if_neg hcomment).trans (if_pos hreset)⟩)
    · obtain ⟨memory, hmemory⟩ := remember_eq c raw (c.lineFor raw)
      refine .inr (.inr ⟨hcomment, hreset, memory, ?_⟩)
      rw [← hmemory]
      exact (if_neg hcomment).trans (if_neg hreset)

theorem step_dispatch (service : Service H) (c : Console H) (word line : String) :
    (c.dispatch service word line).step = .proceed := by
  unfold dispatch
  cases c.table.find? word <;> rfl

theorem output_dispatch (service : Service H) (c : Console H) (word line : String) :
    ∃ text, (c.dispatch service word line).output = text ++ promptText := by
  unfold dispatch
  cases c.table.find? word <;> exact ⟨_, rfl⟩

/-! ## The reset -/

theorem step_answer_iff (service : Service H) (c : Console H) (raw : String) :
    (c.answer service raw).step = .reset ↔
      ¬ isComment raw = true ∧ asksForReset (splitWord (c.lineFor raw)).1 = true := by
  rcases answer_cases service c raw with
    ⟨hcomment, h⟩ | ⟨hcomment, hreset, after, h⟩ | ⟨hcomment, hreset, memory, h⟩
  · rw [h]
    exact ⟨fun hstep => (nomatch hstep), fun hboth => absurd hcomment hboth.1⟩
  · rw [h]
    exact ⟨fun _ => ⟨hcomment, hreset⟩, fun _ => rfl⟩
  · rw [h, step_dispatch]
    exact ⟨fun hstep => (nomatch hstep), fun hboth => absurd hboth.2 hreset⟩

/-- A reset prints the notice and does nothing else. -/
theorem answer_of_reset (service : Service H) (c : Console H) {raw : String}
    (hstep : (c.answer service raw).step = .reset) :
    (c.answer service raw).output = "Board reset requested !\r\n" ∧
      (c.answer service raw).calls = [] ∧ (c.answer service raw).frames = [] := by
  rcases answer_cases service c raw with ⟨-, h⟩ | ⟨-, -, after, h⟩ | ⟨-, -, memory, h⟩
  · rw [h] at hstep
    cases hstep
  · rw [h]
    exact ⟨rfl, rfl, rfl⟩
  · rw [h, step_dispatch] at hstep
    cases hstep

/-- Without a reset the console goes on, and the prompt is the last thing printed. -/
theorem answer_of_no_reset (service : Service H) (c : Console H) {raw : String}
    (hstep : (c.answer service raw).step ≠ .reset) :
    (c.answer service raw).step = .proceed ∧
      ∃ text, (c.answer service raw).output = text ++ "\r\n$>" := by
  rcases answer_cases service c raw with ⟨-, h⟩ | ⟨-, -, after, h⟩ | ⟨-, -, memory, h⟩
  · rw [h]
    exact ⟨rfl, "", rfl⟩
  · rw [h] at hstep
    exact absurd rfl hstep
  · rw [h]
    exact ⟨step_dispatch service _ _ _, output_dispatch service _ _ _⟩

/-- **The reset law.**  A line resets the board exactly if it is no comment and the line that it
stands for starts with a blank or has a first word that opens `reset`.  Then the notice is all that
is printed, no handler runs and no frame is sent, whatever the table holds; after any other line the
console goes on and ends with the prompt. -/
theorem reset_law (service : Service H) {c : Console H} (hc : c.Reachable) (raw : String) :
    (∃ line, c.StandsFor raw line) ∧
    (∀ line, c.StandsFor raw line →
      ((c.answer service raw).step = .reset ↔
        raw.toList.head? ≠ some '#' ∧ AsksForReset line)) ∧
    ((c.answer service raw).step = .reset →
      (c.answer service raw).output = "Board reset requested !\r\n" ∧
      (c.answer service raw).calls = [] ∧ (c.answer service raw).frames = []) ∧
    ((c.answer service raw).step ≠ .reset →
      (c.answer service raw).step = .proceed ∧
      ∃ text, (c.answer service raw).output = text ++ "\r\n$>") := by
  refine ⟨⟨_, hc.standsFor_lineFor raw⟩, ?_, answer_of_reset service c, answer_of_no_reset service c⟩
  intro line hline
  rw [step_answer_iff, LastCommand.isComment_iff, hline.lineFor_eq hc,
    asksForReset_iff (hline.ne_empty hc) (firstWord_splitWord line)]

/-- A line that resets the board does so again when a blank line repeats it, even if a command of the
same name was registered meanwhile. -/
theorem reset_law_repeated :
    let service : Service Unit := fun _ _ _ => .ok "here"
    let c := (fresh .fresh).afterAll [.answer service "res\tnow", .register "reset" () ""]
    c.StandsFor "" "res\tnow" ∧ AsksForReset "res\tnow" ∧
      (c.answer service "").output = "Board reset requested !\r\n" ∧
      (c.answer service "").calls = [] := by
  intro service c
  have hc : c.Reachable := ⟨_, rfl⟩
  have hline : c.StandsFor "" "res\tnow" := .replayed (by decide +kernel)
  have hasks : AsksForReset "res\tnow" :=
    .inr ⟨"res", firstWord_iff.mpr (by decide), by decide, by decide⟩
  obtain ⟨-, hiff, hreset, -⟩ := reset_law service hc ""
  have hstep := (hiff _ hline).mpr ⟨by decide, hasks⟩
  exact ⟨hline, hasks, (hreset hstep).1, (hreset hstep).2.1⟩

/-! ## The dispatch -/

/-- The turn shows that the command ran once, on the whole line, and that nothing else did. -/
def Ran (service : Service H) (c : Console H) (e : Command H) (line : String) (t : Turn H) : Prop :=
  match e.action with
  | .help =>
    t.calls = [] ∧ t.frames = [] ∧ ∃ rows, Help.RowsOf c.table.commands rows ∧
      t.output = newline ++ Help.framed rows ++ promptText
  | .forward =>
    t.calls = [] ∧ Sends line c.link t.frames ∧
      t.output = newline ++ ("uartcmd: " ++ line ++ newline) ++ promptText
  | .contributed handler =>
    t.calls = [(handler, line)] ∧ t.frames = [] ∧
      t.output = newline
        ++ (service handler (c.note .debug ["dispatch '", e.name, "'"]).board line).output
        ++ promptText

/-- The turn shows that nothing ran: the line is reported, and what could be typed is listed. -/
structure Reported (c : Console H) (line : String) (t : Turn H) : Prop where
  calls : t.calls = []
  frames : t.frames = []
  output : ∃ rows, Help.RowsOf c.table.commands rows ∧
    t.output = newline ++ "CMD : unknown command : " ++ line ++ newline
      ++ Help.framed rows ++ promptText

theorem calls_forward (c : Console H) (line : String) : (c.forward line).calls = [] := by
  unfold forward
  cases c.link with
  | none => rfl
  | some link =>
    dsimp only
    split <;> rfl

theorem output_forward (c : Console H) (line : String) :
    (c.forward line).output = "uartcmd: " ++ line ++ newline := by
  unfold forward
  cases c.link with
  | none => rfl
  | some link =>
    dsimp only
    split <;> rfl

theorem ran_dispatch (service : Service H) (c : Console H) (memory : LastCommand)
    {word line : String} {e : Command H} (hfind : c.table.find? word = some e)
    (hfits : (encode line).length ≤ maxChars) :
    Ran service c e line ({ c with lastCommand := memory }.dispatch service word line) := by
  obtain ⟨name, description, action⟩ := e
  simp only [dispatch, hfind]
  cases action with
  | help =>
    obtain ⟨rows, hrows⟩ := Help.exists_rowsOf c.table.commands
    refine ⟨rfl, rfl, rows, hrows, ?_⟩
    rw [← Help.listing_eq_framed hrows]
    rfl
  | forward =>
    refine ⟨calls_forward _ line, sends_forward _ hfits, ?_⟩
    show newline ++ (forward _ line).output ++ promptText = _
    rw [output_forward]
  | contributed handler => exact ⟨rfl, rfl, rfl⟩

theorem reported_dispatch (service : Service H) (c : Console H) (memory : LastCommand)
    {word line : String} (hfind : c.table.find? word = none) :
    Reported c line ({ c with lastCommand := memory }.dispatch service word line) := by
  simp only [dispatch, hfind]
  obtain ⟨rows, hrows⟩ := Help.exists_rowsOf c.table.commands
  refine ⟨rfl, rfl, rows, hrows, ?_⟩
  rw [← Help.listing_eq_framed hrows]

/-- **The dispatch law.**  Let a line be no comment and no reset.  If its first word opens the name of
a command, the first such command of the table runs once, on the whole line; otherwise nothing runs,
and the line is reported together with the help listing.  Neither changes the table or the faults,
whatever came of the command. -/
theorem dispatch_law (service : Service H) {c : Console H} (hc : c.Reachable)
    {raw line word : String} (hline : c.StandsFor raw line) (hword : FirstWord line word)
    (hcomment : raw.toList.head? ≠ some '#') (hreset : ¬ AsksForReset line) :
    ((∃ e ∈ c.table.commands, word.toList <+: e.name.toList) →
      ∃ e, c.table.FirstMatch word e ∧ Ran service c e line (c.answer service raw)) ∧
    ((¬ ∃ e ∈ c.table.commands, word.toList <+: e.name.toList) →
      Reported c line (c.answer service raw)) ∧
    (c.answer service raw).console.table = c.table ∧
    (c.answer service raw).console.board.faults = c.board.faults := by
  rw [← asksForReset_iff (hline.ne_empty hc) hword] at hreset
  have hne : word ≠ "" := by
    rintro rfl
    exact hreset rfl
  obtain ⟨_, _, hkeeps⟩ := answer_keeps service c raw
  obtain ⟨memory, hanswer⟩ : ∃ memory, c.answer service raw =
      { c with lastCommand := memory }.dispatch service word line := by
    rcases answer_cases service c raw with ⟨h, -⟩ | ⟨-, h, -⟩ | ⟨-, -, memory, h⟩
    · exact absurd ((LastCommand.isComment_iff raw).mp h) hcomment
    · rw [hline.lineFor_eq hc, hword.splitWord_eq] at h
      exact absurd h hreset
    · rw [hline.lineFor_eq hc, hword.splitWord_eq] at h
      exact ⟨memory, h⟩
  refine ⟨?_, ?_, ?_, ?_⟩
  · intro hsome
    cases hfind : c.table.find? word with
    | none => exact absurd hsome ((c.table.find?_eq_none_iff hne).mp hfind)
    | some e =>
      refine ⟨e, (c.table.find?_eq_some_iff hne).mp hfind, ?_⟩
      rw [hanswer]
      exact ran_dispatch service c memory hfind (hline.fits hc)
  · intro hnone
    rw [hanswer]
    exact reported_dispatch service c memory ((c.table.find?_eq_none_iff hne).mpr hnone)
  · rw [hkeeps]
  · rw [hkeeps]

/-- Of two commands that a word leads to the first one gets the line, and only that one.  A word that
leads to none gets the listing of all. -/
theorem dispatch_law_first :
    let service : Service Bool := fun _ _ line => .error line .invalidValue
    let c := (fresh .fresh).afterAll [.register "temp" true "°C", .register "temperature" false ""]
    (c.StandsFor "te 5" "te 5" ∧ FirstWord "te 5" "te" ∧ ¬ AsksForReset "te 5" ∧
      (c.answer service "te 5").calls = [(true, "te 5")]) ∧
    (c.StandsFor "tea 5" "tea 5" ∧ FirstWord "tea 5" "tea" ∧ ¬ AsksForReset "tea 5" ∧
      (¬ ∃ e ∈ c.table.commands, "tea".toList <+: e.name.toList) ∧
      (c.answer service "tea 5").calls = [] ∧
      (c.answer service "tea 5").output =
        "\r\nCMD : unknown command : tea 5\r\n" ++
        "***** help *****\r\n\r\nList of commands\r\n----------------\r\n" ++
        "help             help command\r\ntemp             °C\r\ntemperature      \r\n" ++
        "\r\nHelp syntax\r\n-----------\r\nwarning: case sensitive commands\r\n" ++
        "[optional parameter]\r\n<parameter value>\r\n" ++
        "<val_1>|<val_2>|...|<val_n>: parameter value list\r\n(command description)\r\n" ++
        "return key: last command re-execution\r\n#: comment line\r\n" ++
        "\r\nAdvice\r\n-----------\r\n" ++
        "to use commands it is adviced to use one of the following command to disable traces\r\n" ++
        "trace off (allows disable all traces)\r\n" ++
        "cst polling off  (allows to disable modem polling and avoid to display uncomfortable " ++
        "modem traces\r\n\r\n\r\n$>") := by
  intro service c
  have hc : c.Reachable := ⟨_, rfl⟩
  constructor
  · have hline : c.StandsFor "te 5" "te 5" := standsFor_of_fits c (by decide) (by decide)
    have hword : FirstWord "te 5" "te" := firstWord_iff.mpr (by decide)
    have hreset : ¬ AsksForReset "te 5" := by
      rw [← asksForReset_iff (by decide) hword]
      decide
    have hfind : c.table.find? "te" = some ⟨"temp", "°C", .contributed true⟩ := by decide +kernel
    have hfirst := (c.table.find?_eq_some_iff (by decide)).mp hfind
    obtain ⟨hsome, -⟩ := dispatch_law service hc hline hword (by decide) hreset
    obtain ⟨e, he, hran⟩ := hsome ⟨_, hfirst.mem, hfirst.begins⟩
    rw [← c.table.find?_eq_some_iff (by decide), hfind] at he
    cases he
    exact ⟨hline, hword, hreset, hran.1⟩
  · have hline : c.StandsFor "tea 5" "tea 5" := standsFor_of_fits c (by decide) (by decide)
    have hword : FirstWord "tea 5" "tea" := firstWord_iff.mpr (by decide)
    have hreset : ¬ AsksForReset "tea 5" := by
      rw [← asksForReset_iff (by decide) hword]
      decide
    have hnone : ¬ ∃ e ∈ c.table.commands, "tea".toList <+: e.name.toList := by
      rw [← c.table.find?_eq_none_iff (by decide)]
      decide +kernel
    obtain ⟨-, hreports, -⟩ := dispatch_law service hc hline hword (by decide) hreset
    obtain ⟨hcalls, -, rows, hrows, houtput⟩ := hreports hnone
    refine ⟨hline, hword, hreset, hnone, hcalls, ?_⟩
    rw [houtput, Help.rowsOf_iff.mp hrows]
    decide +kernel

end Console

end SerialConsole
