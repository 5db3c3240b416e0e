import SerialConsole.Proofs.Console.Entered
import SerialConsole.Proofs.Console.Frames
import SerialConsole.Proofs.Text.Breaks

/-!
# The line breaks of the hosted console

Whatever the console prints by itself is well broken: the banner, the echo of a line, the help listing,
reports, notices and prompts.  Only a contributed handler can break a line otherwise, and the handler of
the statistics does so each time:

    line                                  line breaks of the answer
    a comment, a reset, an unknown word   well broken
    help, uartcmd                         well broken
    stats, whatever its parameter         a line feed stands bare

So everything that the hosted console printed is well broken exactly if no line led to the statistics.
-/

namespace SerialConsole

open Settings Text

/-! ## Help texts -/

theorem Text.Unbroken.line {s : String} (hs : Unbroken s) : WellBroken (s ++ newline) :=
  hs.wellBroken.append wellBroken_newline

namespace Help

variable {H : Type}

theorem wellBroken_title : WellBroken title := by
  have hheading : WellBroken ("***** help *****" ++ newline ++ newline) :=
    (Unbroken.line (by decide)).append wellBroken_newline
  have hlist : Unbroken "List of commands" := by decide
  have hrule : Unbroken "----------------" := by decide
  exact (((hheading.append hlist.wellBroken).append wellBroken_newline).append
    hrule.wellBroken).append wellBroken_newline

theorem wellBroken_row {e : Command H} (hname : Unbroken e.name)
    (hdescription : Unbroken e.description) : WellBroken (row e) := by
  have hspace : Unbroken " " := by decide
  exact (((hname.alignLeft helpColumn).append hspace).append hdescription).line

/-- The help listing is well broken, whatever the commands are, if their texts are. -/
theorem wellBroken_listing {t : CommandTable H}
    (ht : ∀ e ∈ t.commands, Unbroken e.name ∧ Unbroken e.description) : WellBroken (listing t) := by
  have hreminder : ∀ s ∈ syntaxReminder, Unbroken s := by decide +kernel
  refine (wellBroken_title.append (wellBroken_join ?_)).append (wellBroken_join ?_)
  · intro s hs
    obtain ⟨e, he, rfl⟩ := List.mem_map.mp hs
    exact wellBroken_row (ht e he).1 (ht e he).2
  · intro s hs
    obtain ⟨l, hl, rfl⟩ := List.mem_map.mp hs
    exact (hreminder l hl).line

end Help

/-! ## What the console prints by itself -/

namespace Console

variable {H : Type}

theorem wellBroken_promptText : WellBroken promptText := by
  have hprompt : Unbroken prompt := by decide
  exact wellBroken_newline.append hprompt.wellBroken

theorem wellBroken_banner {version : String} (hversion : Unbroken version) :
    WellBroken (banner version) := by
  have hhint : Unbroken "Type 'help' for commands." := by decide
  exact ((((wellBroken_newline.append hversion.wellBroken).append wellBroken_newline).append
    hhint.wellBroken).append wellBroken_newline).append wellBroken_promptText

/-- The notice of a console that does not start is well broken. -/
theorem wellBroken_haltNotice {c : Console H} {notice : String}
    (h : c.haltNotice? = some notice) : WellBroken notice := by
  unfold haltNotice? at h
  split at h
  · obtain rfl := Option.some_inj.mp h
    have hopening : Unbroken "fatal fault " := by decide
    have hcause : Unbroken c.board.faults.cause.name := by
      cases c.board.faults.cause <;> decide
    have hdata : Unbroken (toString c.board.faults.data) := unbroken_toString _
    exact (((((hopening.append hcause).append (by decide)).append hdata).append (by decide))).line
  · cases h

/-- A line that leads to no command is answered by the prompt, the reset notice or a report. -/
theorem wellBroken_answer_of_not_dispatched (service : Service H) {c : Console H} {raw : String}
    (ht : ∀ e ∈ c.table.commands, Unbroken e.name ∧ Unbroken e.description)
    (hline : Unbroken (c.lineFor raw)) (hd : c.dispatched? raw = none) :
    WellBroken (c.answer service raw).output := by
  rcases answer_cases_of_not_dispatched service hd with ha | ⟨after, ha⟩ | hreported
  · rw [ha]
    exact wellBroken_promptText
  · have hnotice : Unbroken "Board reset requested !" := by decide
    rw [ha]
    exact hnotice.line
  · obtain ⟨rows, hrows, houtput⟩ := hreported.output
    have hreport : Unbroken "CMD : unknown command : " := by decide
    rw [houtput, ← Help.listing_eq_framed hrows]
    exact ((((wellBroken_newline.append hreport.wellBroken).append hline.wellBroken).append
      wellBroken_newline).append (Help.wellBroken_listing ht)).append wellBroken_promptText

/-- The answer to a line that no contributed handler gets is well broken, if the line is unbroken and
the texts of the commands are. -/
theorem wellBroken_answer (service : Service H) {c : Console H} {raw : String}
    (ht : ∀ e ∈ c.table.commands, Unbroken e.name ∧ Unbroken e.description)
    (hline : Unbroken (c.lineFor raw))
    (hd : ∀ e, c.dispatched? raw = some e → ∀ handler, e.action ≠ .contributed handler) :
    WellBroken (c.answer service raw).output := by
  cases he : c.dispatched? raw with
  | none => exact wellBroken_answer_of_not_dispatched service ht hline he
  | some e =>
    rw [answer_of_dispatched service he]
    refine (wellBroken_newline.append ?_).append wellBroken_promptText
    unfold workOn
    cases ha : e.action with
    | help =>
      obtain ⟨memory, hcalling⟩ := remember_eq c raw (c.lineFor raw)
      show WellBroken (Help.listing (c.calling raw e).table)
      rw [calling, hcalling]
      exact Help.wellBroken_listing ht
    | forward =>
      have hecho : Unbroken "uartcmd: " := by decide
      show WellBroken ((c.calling raw e).forward (c.lineFor raw)).output
      rw [output_forward]
      exact (hecho.append hline).line
    | contributed handler => exact absurd ha (hd e he handler)

end Console

/-! ## The statistics -/

namespace Statistics

theorem bare_ended_append {t : String} (ht : Bare (ended t)) (s : String) :
    Bare (ended (s ++ t)) := by
  rw [ended, String.append_assoc]
  exact ht.prepend s

theorem bare_usage : Bare usage := by
  have hhelp : Bare (ended " help") := bare_lineFeed (b := 0x70) rfl (by decide)
  exact (bare_ended_append hhelp label).prepend _

theorem bare_receivers (b : Board) : Bare (receivers b) := by
  have hpending : Bare (ended " pending") := bare_lineFeed (b := 0x67) rfl (by decide)
  exact ((bare_ended_append hpending _).append _).append _

/-- A numeral ends with a digit, and a line feed alone does not end that well. -/
theorem bare_ended_toString (n : Nat) : Bare (ended (toString n)) := by
  have hne : encode (toString n) ≠ [] := by
    rw [Ne, encode_eq_nil_iff, Nat.toString_eq_ofList_toDigits, String.ofList_eq_empty_iff]
    exact Nat.toDigits_ne_nil
  obtain ⟨b, hb⟩ := Option.isSome_iff_exists.mp (List.getLast?_isSome.mpr hne)
  have hdigit := le_of_mem_encode_toString (List.mem_of_getLast? hb)
  exact bare_lineFeed hb fun he => absurd (he ▸ hdigit) (by decide)

theorem bare_faults (b : Board) : Bare (faults b) :=
  (bare_ended_append (bare_ended_toString b.faults.count.toNat) "faults since boot: ").prepend _

theorem bare_memory : Bare memory := bare_lineFeed (b := 0x74) rfl (by decide)

/-- Whatever the statistics command is asked for, a line feed of its answer stands bare. -/
theorem bare_reply (b : Board) (line : String) : Bare (reply b line).output := by
  have huse : Bare (ended "\". Usage:") := bare_lineFeed (b := 0x3a) rfl (by decide)
  unfold reply
  split
  · exact bare_memory.prepend _
  · next parameter _ =>
    split
    · exact bare_receivers b
    split
    · exact bare_faults b
    split
    · exact bare_memory
    split
    · exact bare_usage
    · exact (bare_ended_append huse _).append _

end Statistics

namespace Host

open Console

/-- What happens to the hosted console once it has started. -/
inductive Input where
  | line (raw : String)
  /-- A line is waited for while batches arrive. -/
  | wait (arrivals : List Batch)
  | meanwhile (event : Board.Event)
  deriving Repr, DecidableEq

/-- The handlers of the hosted console answer every line. -/
def Input.act : Input → Act Builtin
  | .line raw => .answer service raw
  | .wait arrivals => .next service arrivals
  | .meanwhile event => .meanwhile event

/-- The lines that the hosted console answers. -/
def asked (inputs : List Input) : List (Question Builtin) := start.questions (inputs.map Input.act)

/-- Everything that the hosted console prints: the banner, which shows a version, and then an answer to
each line. -/
def printed (version : String) (inputs : List Input) : String :=
  banner version ++ String.join ((start.turns (inputs.map Input.act)).map Turn.output)

/-- The line leads to the command that prints statistics. -/
def AsksForStatistics (q : Question Builtin) : Prop :=
  q.console.dispatched? q.raw = some (Statistics.command .statistics)

instance (q : Question Builtin) : Decidable (AsksForStatistics q) :=
  inferInstanceAs (Decidable (_ = _))

/-! ## The console that answers a line -/

/-- Nothing that happens to the hosted console registers a command. -/
theorem commands_afterAll_act (inputs : List Input) :
    (start.afterAll (inputs.map Input.act)).table.commands = start.table.commands := by
  have hentries : entries (inputs.map Input.act) = [] := by
    rw [entries, List.filterMap_eq_nil_iff]
    intro a ha
    obtain ⟨i, -, rfl⟩ := List.mem_map.mp ha
    cases i <;> rfl
  rw [commands_afterAll, hentries, List.take_nil, List.append_nil]

theorem service_of_act {c : Console Builtin} {i : Input} {q : Question Builtin}
    (h : i.act.question? c = some q) : q.service = service := by
  cases i with
  | line raw =>
    cases h
    rfl
  | wait arrivals =>
    obtain ⟨p, -, rfl⟩ := Option.map_eq_some_iff.mp h
    rfl
  | meanwhile event => cases h

/-- What a line stands for is as unbroken as the lines so far. -/
theorem unbroken_lineFor (inputs : List Input) {raw : String}
    (hlines : ∀ raw ∈ start.lines (inputs.map Input.act), Unbroken raw) (hraw : Unbroken raw) :
    Unbroken ((start.afterAll (inputs.map Input.act)).lineFor raw) := by
  obtain ⟨acts, hacts⟩ : ∃ acts : List (Act Builtin), acts =
      .register Statistics.label .statistics Statistics.description :: .attach link ::
        inputs.map Input.act := ⟨_, rfl⟩
  have hreached : start.afterAll (inputs.map Input.act) = (fresh .fresh).afterAll acts := by
    rw [hacts]
    rfl
  have hsame : start.lines (inputs.map Input.act) = (fresh .fresh).lines acts := by
    rw [hacts]
    rfl
  rw [hsame] at hlines
  rw [hreached]
  exact not_mem_encode_of_lines (by decide) hlines hraw (Reachable.standsFor_lineFor ⟨acts, rfl⟩ raw)

/-- A line is answered by a console that knows the three commands, and what it stands for there is as
unbroken as the lines so far. -/
theorem of_mem_asked {inputs : List Input} (hlines : ∀ q ∈ asked inputs, Unbroken q.raw)
    {q : Question Builtin} (hq : q ∈ asked inputs) :
    q.console.table.commands = start.table.commands ∧ q.service = service ∧
      Unbroken (q.console.lineFor q.raw) := by
  obtain ⟨before, a, after, hacts, ha⟩ := exists_of_mem_questions hq
  obtain ⟨earlier, rest, rfl, rfl, hrest⟩ := List.map_eq_append_iff.mp hacts
  obtain ⟨i, later, rfl, rfl, -⟩ := List.map_eq_cons_iff.mp hrest
  have hearlier : ∀ raw ∈ start.lines (earlier.map Input.act), Unbroken raw := by
    intro raw hraw
    rw [lines_eq] at hraw
    obtain ⟨q', hq', rfl⟩ := List.mem_map.mp hraw
    refine hlines q' ?_
    rw [asked, List.map_append, questions_append]
    exact List.mem_append_left _ hq'
  refine ⟨?_, service_of_act ha, ?_⟩
  · rw [Act.table_question ha]
    exact commands_afterAll_act earlier
  · rw [Act.lineFor_question ha]
    exact unbroken_lineFor earlier hearlier (hlines q hq)

theorem unbroken_of_mem :
    ∀ e ∈ start.table.commands, Unbroken e.name ∧ Unbroken e.description := by
  decide +kernel

/-- The statistics are the only contributed command. -/
theorem eq_statistics_of_mem :
    ∀ e ∈ start.table.commands, (∃ handler, e.action = .contributed handler) →
      e = Statistics.command .statistics := by
  have hcommands : start.table.commands =
      [.help, Statistics.command .statistics, .forward] := by
    decide +kernel
  rw [hcommands]
  rintro e he ⟨handler, ha⟩
  simp only [List.mem_cons, List.not_mem_nil, or_false] at he
  rcases he with rfl | rfl | rfl
  · cases ha
  · rfl
  · cases ha

/-- The answer to a line is well broken exactly if the line does not lead to the statistics. -/
theorem wellBroken_turn_iff {inputs : List Input} (hlines : ∀ q ∈ asked inputs, Unbroken q.raw)
    {q : Question Builtin} (hq : q ∈ asked inputs) :
    (AsksForStatistics q → Bare q.turn.output) ∧
      (¬ AsksForStatistics q → WellBroken q.turn.output) := by
  obtain ⟨hcommands, hservice, hline⟩ := of_mem_asked hlines hq
  constructor
  · intro hstatistics
    rw [Question.turn, answer_of_dispatched q.service hstatistics, hservice]
    exact ((Statistics.bare_reply _ _).prepend _).append _
  · intro hnot
    refine wellBroken_answer q.service ?_ hline ?_
    · rw [hcommands]
      exact unbroken_of_mem
    · intro e he handler ha
      have hmem := mem_of_dispatched he
      rw [hcommands] at hmem
      exact hnot (he.trans (congrArg some (eq_statistics_of_mem e hmem ⟨handler, ha⟩)))

/-- **The line break law.**  As long as no line that is answered holds a line feed, the answer to a line
is well broken exactly if the line does not lead to the statistics.  So everything that the hosted
console prints, from the banner on, is well broken exactly if no line led there, whatever version the
banner shows on its line. -/
theorem line_break_law {version : String} (hversion : Unbroken version) {inputs : List Input}
    (hlines : ∀ raw ∈ start.lines (inputs.map Input.act), Unbroken raw) :
    (∀ q ∈ asked inputs, WellBroken q.turn.output ↔ ¬ AsksForStatistics q) ∧
    (WellBroken (printed version inputs) ↔ ∀ q ∈ asked inputs, ¬ AsksForStatistics q) := by
  have hasked : ∀ q ∈ asked inputs, Unbroken q.raw := by
    intro q hq
    refine hlines q.raw ?_
    rw [lines_eq]
    exact List.mem_map_of_mem hq
  refine ⟨?_, ?_, ?_⟩
  · intro q hq
    obtain ⟨hbare, hwell⟩ := wellBroken_turn_iff hasked hq
    exact ⟨fun hturn hstatistics => (hbare hstatistics).not_wellBroken hturn, hwell⟩
  · intro hprinted q hq hstatistics
    have hbare := (wellBroken_turn_iff hasked hq).1 hstatistics
    have hmem : q.turn.output ∈ (start.turns (inputs.map Input.act)).map Turn.output := by
      rw [turns_eq]
      exact List.mem_map_of_mem (List.mem_map_of_mem hq)
    exact ((bare_join hmem hbare).prepend (banner version)).not_wellBroken hprinted
  · intro hnot
    refine (wellBroken_banner hversion).append (wellBroken_join ?_)
    intro s hs
    rw [turns_eq, List.map_map] at hs
    obtain ⟨q, hq, rfl⟩ := List.mem_map.mp hs
    exact (wellBroken_turn_iff hasked hq).2 (hnot q hq)

/-- Lines that are entered one after the other are the lines that are answered. -/
theorem lines_map_line (raws : List String) :
    start.lines ((raws.map Input.line).map Input.act) = raws := by
  rw [List.map_map]
  exact lines_map_answer start service raws

/-- Help, forwarding, a blank line, a comment and an unknown word break their lines well. -/
theorem line_break_law_help :
    let inputs : List Input := ["help", "uartcmd AT", "", "#note", "nosuch"].map .line
    Unbroken version ∧ (∀ raw ∈ start.lines (inputs.map Input.act), Unbroken raw) ∧
      WellBroken (printed version inputs) := by
  intro inputs
  have hversion : Unbroken version := by decide
  have hlines : ∀ raw ∈ start.lines (inputs.map Input.act), Unbroken raw := by
    rw [lines_map_line]
    decide
  obtain ⟨-, hiff⟩ := line_break_law hversion hlines
  exact ⟨hversion, hlines, hiff.mpr (by decide +kernel)⟩

/-- The statistics break a line with a line feed alone. -/
theorem statistics_break_line :
    let inputs : List Input := ["stats heap"].map .line
    Unbroken version ∧ (∀ raw ∈ start.lines (inputs.map Input.act), Unbroken raw) ∧
      printed version inputs = banner version ++ "\r\nstats heap: running on host\n\r\n$>" ∧
      ¬ WellBroken (printed version inputs) := by
  intro inputs
  have hprinted : printed version inputs =
      banner version ++ "\r\nstats heap: running on host\n\r\n$>" := by
    decide +kernel
  refine ⟨by decide, ?_, hprinted, ?_⟩
  · rw [lines_map_line]
    decide
  · have hbare : Bare "\r\nstats heap: running on host\n\r\n$>" :=
      ⟨encode "\r\nstats heap: running on hos", 0x74, encode "\r\n$>", by decide, by decide⟩
    rw [hprinted]
    exact (hbare.prepend (banner version)).not_wellBroken

end Host

end SerialConsole
