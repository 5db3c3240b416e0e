import SerialConsole.Proofs.Console.Notes
import SerialConsole.Proofs.Console.Registrations

/-!
# Blank lines

A blank line does what the last command does when it is typed again.  That is so to the last cell: what
is remembered fits into a line and is no comment, so it stands for itself, and a memory that takes in
what it holds already is the same memory.

    c.last? = some l  →  c.answer service "" = c.answer service l

Before the first command a blank line does what `help` does, which is always the listing, since no
registration comes before that of `help`.  But nothing is remembered of it.
-/

namespace SerialConsole

open Settings Text

/-! ## Writing over the same bytes -/

namespace Row

variable {limit spare : Nat}

/-- Writing the bytes of a row over themselves only moves the cursor behind them. -/
theorem write_rewind_bytes (r : Row limit spare) : r.rewind.write r.bytes = r := by
  have hbytes : (r.rewind.write r.bytes).bytes = r.bytes := by
    rw [bytes_write, bytes_rewind, List.nil_append, List.take_of_length_le]
    rw [length_bytes]
    exact r.used_le
  have hused : (r.rewind.write r.bytes).used = r.used := by rw [← length_bytes, hbytes, length_bytes]
  apply eq_of_bytes_eq hbytes
  rw [hused]
  exact r.rewind.drop_cells_write r.bytes (Nat.le_of_eq hused)

theorem terminate_terminate (r : Row limit spare) : r.terminate.terminate = r.terminate := by
  unfold terminate
  by_cases h : r.used < limit + spare
  · simp [h]
  · simp [h]

end Row

namespace Line

@[simp] theorem terminate_empty : empty.terminate = empty := by
  have hlt : (empty : Line).used < maxChars + 1 := Nat.zero_lt_succ _
  rw [Row.terminate, dif_pos hlt]
  simp [empty, Row.blank, Row.ofCells]

@[simp] theorem terminate_assign (l : Line) (bs : Bytes) :
    (l.assign bs).terminate = l.assign bs :=
  Row.terminate_terminate _

/-- A terminated line does not change when its own bytes are put into it. -/
theorem assign_bytes {l : Line} (h : l.terminate = l) : l.assign l.bytes = l := by
  rw [assign, Row.write_rewind_bytes, h]

end Line

/-! ## Remembering what is remembered -/

namespace LastCommand

theorem terminate_hear {m : LastCommand} (hm : m.line.terminate = m.line) (raw : String) :
    (m.hear raw).line.terminate = (m.hear raw).line := by
  unfold hear remember
  by_cases hskip : Console.isComment raw = true ∨ raw = ""
  · rwa [if_pos hskip]
  · rw [if_neg hskip]
    by_cases hlong : 1 < (encode (Line.ofText raw).text).length
    · rw [if_pos hlong]
      exact Line.terminate_assign _ _
    · rwa [if_neg hlong]

theorem terminate_foldl_hear {m : LastCommand} (hm : m.line.terminate = m.line)
    (raws : List String) :
    (raws.foldl hear m).line.terminate = (raws.foldl hear m).line := by
  induction raws generalizing m with
  | nil => exact hm
  | cons raw raws ih => exact ih (terminate_hear hm raw)

/-- A memory that takes in what it shows stays as it is. -/
theorem Shows.remember_eq {m : LastCommand} {raw l : String} (h : m.Shows raw l)
    (hm : m.line.terminate = m.line) : (m.remember l).1 = m := by
  have hlong : 1 < (encode l).length := h.two_le
  rw [remember, if_pos hlong]
  show (⟨m.line.assign (encode l)⟩ : LastCommand) = m
  rw [← h.bytes, Line.assign_bytes hm]

end LastCommand

namespace Console

variable {H : Type}

theorem Reachable.terminate_lastCommand {c : Console H} (hc : c.Reachable) :
    c.lastCommand.line.terminate = c.lastCommand.line := by
  obtain ⟨acts, rfl⟩ := hc
  rw [lastCommand_afterAll]
  exact LastCommand.terminate_foldl_hear Line.terminate_empty _

/-! ## After a command -/

/-- Lines that stand for the same line, and are remembered alike, are answered alike. -/
theorem answer_congr {c : Console H} {raw raw' : String} (hcomment : isComment raw = isComment raw')
    (hline : c.lineFor raw = c.lineFor raw')
    (hmemory : c.remember raw (c.lineFor raw) = c.remember raw' (c.lineFor raw'))
    (service : Service H) :
    c.answer service raw = c.answer service raw' ∧
      (Act.answer service raw).minute c = (Act.answer service raw').minute c := by
  have hdispatched : c.dispatched? raw = c.dispatched? raw' := by
    rw [dispatched?, dispatched?, hcomment, hline]
  have hremark : c.remark? raw = c.remark? raw' := by
    rw [remark?, remark?, hcomment, hline]
  have hwork : c.workOn service raw = c.workOn service raw' := by
    funext e
    rw [workOn, workOn, calling, calling, hmemory, hline]
  constructor
  · unfold answer
    dsimp only
    rw [hcomment, hmemory, hline]
  · simp only [Act.minute, Act.remarks, Act.question?, Option.bind_some, Question.failure?,
      Question.ended?, hremark, hdispatched, hwork]

/-- What is remembered is a line that stands for itself, and remembering it changes nothing. -/
theorem Reachable.replays {c : Console H} (hc : c.Reachable) {l : String}
    (hlast : c.last? = some l) :
    isComment l = false ∧ c.lineFor "" = l ∧ c.lineFor l = l ∧ c.remember l l = c := by
  obtain ⟨raw, hshows⟩ := hc.shows_last hlast
  have hne : l ≠ "" := StandsFor.ne_empty hc (.replayed hlast)
  refine ⟨?_, StandsFor.lineFor_eq hc (.replayed hlast), ?_, ?_⟩
  · rw [← Bool.not_eq_true, LastCommand.isComment_iff]
    exact hshows.isNoComment
  · exact lineFor_of_fits c hne hshows.cut.fits
  · rw [remember, if_neg hne, hshows.remember_eq hc.terminate_lastCommand]

theorem Reachable.answer_blank_of_some {c : Console H} (hc : c.Reachable) (service : Service H)
    {l : String} (hlast : c.last? = some l) :
    c.answer service "" = c.answer service l ∧
      (Act.answer service "").minute c = (Act.answer service l).minute c := by
  obtain ⟨hcomment, hblank, hline, hmemory⟩ := hc.replays hlast
  apply answer_congr
  · exact hcomment.symm
  · rw [hblank, hline]
  · rw [hblank, hline, hmemory]
    rfl

/-! ## Before the first command -/

/-- The first command of every table is the one that prints the listing. -/
theorem Reachable.find?_help {c : Console H} (hc : c.Reachable) :
    c.table.find? "help" = some .help := by
  obtain ⟨acts, rfl⟩ := hc
  rw [CommandTable.find?, commands_afterAll]
  exact List.find?_cons_of_pos (show abbreviates "help" "help" = true by decide)

theorem Reachable.dispatched?_of_lineFor_help {c : Console H} (hc : c.Reachable) {raw : String}
    (hcomment : isComment raw = false) (hline : c.lineFor raw = "help") :
    c.dispatched? raw = some .help := by
  have hword : (splitWord "help").1 = "help" := by decide
  rw [dispatched?, hcomment, hline, hword, hc.find?_help]
  exact if_neg (by decide)

theorem answer_of_help (service : Service H) {c : Console H} {raw : String}
    (h : c.dispatched? raw = some .help) :
    c.answer service raw =
      ⟨c.calling raw .help, newline ++ Help.listing c.table ++ promptText, [], [], .proceed⟩ := by
  obtain ⟨memory, hmemory⟩ := remember_eq c raw (c.lineFor raw)
  rw [answer_of_dispatched service h, workOn, calling, hmemory]
  rfl

theorem minute_of_help (service : Service H) {c : Console H} {raw : String}
    (h : c.dispatched? raw = some .help) :
    (Act.answer service raw).minute c = ⟨c.board.now, [.dispatched "help"], none⟩ := by
  obtain ⟨-, hremark⟩ := remark?_of_dispatched h
  simp only [Act.minute, Act.remarks, Act.question?, Option.bind_some, Question.failure?,
    Question.ended?, h, hremark]
  rfl

/-- **The replay law.**  After a command a blank line is answered as the last command is when it is
typed: with the same turn, the console that it leaves included, and the same minutes.  Before the first
command it prints the help listing, whatever is registered.  That is how `help` is answered, but for
the memory, in which `help` is then the last command and after the blank line still nothing is. -/
theorem replay_law (service : Service H) {c : Console H} (hc : c.Reachable) :
    (∀ l, c.last? = some l →
      c.answer service "" = c.answer service l ∧
      (Act.answer service "").minute c = (Act.answer service l).minute c) ∧
    (c.last? = none →
      Ran service c .help "help" (c.answer service "") ∧
      c.answer service "help" = { c.answer service "" with
        console := (c.answer service "").console.remember "help" "help" } ∧
      (Act.answer service "").minute c = (Act.answer service "help").minute c ∧
      (c.answer service "").console.last? = none) := by
  refine ⟨fun l => hc.answer_blank_of_some service, fun hnone => ?_⟩
  have hblank := hc.dispatched?_of_lineFor_help rfl (StandsFor.lineFor_eq hc (.help hnone))
  have hran := ran_of_dispatched service hblank
  rw [StandsFor.lineFor_eq hc (.help hnone)] at hran
  have htyped : c.lineFor "help" = "help" :=
    lineFor_of_fits c (by decide) (by decide)
  have hhelp := hc.dispatched?_of_lineFor_help (by decide) htyped
  refine ⟨hran, ?_⟩
  rw [answer_of_help service hblank, answer_of_help service hhelp, minute_of_help service hblank,
    minute_of_help service hhelp]
  refine ⟨?_, rfl, hnone⟩
  rw [calling, htyped]
  rfl

/-- A command that fails is called again by a blank line, on the same line, and fails again.  Before
it a blank line prints the listing and is not remembered. -/
theorem replay_law_failing :
    let service : Service Unit := fun _ _ line => .error line .invalidValue
    let c := (fresh .fresh).afterAll [.register "temp" () ""]
    let later := (fresh .fresh).afterAll [.register "temp" () "", .answer service "temp 5"]
    (c.last? = none ∧ (c.answer service "").console.last? = none) ∧
      later.last? = some "temp 5" ∧ later.answer service "" = later.answer service "temp 5" ∧
      (later.answer service "").calls = [((), "temp 5")] ∧
      ((Act.answer service "").minute later).failure = some ("temp", .invalidValue) := by
  intro service c later
  have hc : c.Reachable := ⟨_, rfl⟩
  have hlater : later.Reachable := ⟨_, rfl⟩
  have hnone : c.last? = none := by decide +kernel
  have hlast : later.last? = some "temp 5" := by decide +kernel
  obtain ⟨-, hfirst⟩ := replay_law service hc
  obtain ⟨hafter, -⟩ := replay_law service hlater
  obtain ⟨hsame, hminute⟩ := hafter _ hlast
  refine ⟨⟨hnone, (hfirst hnone).2.2.2⟩, hlast, hsame, ?_, ?_⟩
  · rw [hsame]
    decide +kernel
  · rw [hminute]
    decide +kernel

end Console

end SerialConsole
