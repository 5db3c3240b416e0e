import SerialConsole.Proofs.Console.Rounds

/-!
# What the console notes

Whatever the console does leaves its entries in the journal of the console, in this order:

    a registration was refused            error    E04: command table full: 'name' dropped
    a line was handed out                 debug    Console line, 4 chars
      and is no text                      warn     Console line has non-text bytes
    a line resets the board               warn     board reset requested
    a line leads to no command            info     E01: unknown command 'word'
    a line leads to a command             debug    dispatch 'name'
      and the command ends with an error  debug    'name' returned E02: invalid value

Only the last of them depends on how a command ended.  So the minutes of an act keep it apart from
the others, and the journal is known from the minutes, as long as it is not printed:

    (c.afterAll acts).board.consoleLog = (c.minutes acts).foldl Minute.enter c.board.consoleLog
-/

namespace SerialConsole

open Settings Text

/-! ## Remarks and minutes -/

/-- An entry of the journal of the console, before it is stamped. -/
structure Remark where
  level : Level
  parts : List String
  deriving Repr, DecidableEq

namespace Remark

def refused (name : String) : Remark :=
  ⟨.error, [CommandError.tableFull.describe, ": '", name, "' dropped"]⟩

def handedOut (p : Parcel) : Remark :=
  ⟨.debug, [p.origin.name, " line, ", toString p.bytes.length, " chars"]⟩

def noText (o : Origin) : Remark := ⟨.warn, [o.name, " line has non-text bytes"]⟩

def reset : Remark := ⟨.warn, ["board reset requested"]⟩

def unknown (word : String) : Remark :=
  ⟨.info, [CommandError.unknownCommand.describe, " '", word, "'"]⟩

def dispatched (name : String) : Remark := ⟨.debug, ["dispatch '", name, "'"]⟩

/-- A command of that name ended with that error. -/
def failed (failure : String × CommandError) : Remark :=
  ⟨.debug, ["'", failure.1, "' returned ", failure.2.describe]⟩

/-- Adds a remark to a journal. -/
def enter (stamp : Int) (log : Journal journalSize) (r : Remark) : Journal journalSize :=
  (log.push stamp r.level "CMD" (Scratch.message maxMessage r.parts)).1

end Remark

/-- What an act gives to note. -/
structure Minute where
  stamp : Int
  /-- What is noted however a command ends. -/
  remarks : List Remark
  /-- The command that ended with an error, and the error. -/
  failure : Option (String × CommandError)
  deriving Repr, DecidableEq

/-- The entries of a minute; a failure comes last. -/
def Minute.entries (m : Minute) : List Remark := m.remarks ++ m.failure.toList.map .failed

def Minute.enter (log : Journal journalSize) (m : Minute) : Journal journalSize :=
  m.entries.foldl (Remark.enter m.stamp) log

/-- What is noted when a line is handed out. -/
def Parcel.remarks (p : Parcel) : List Remark :=
  match ofBytes? p.bytes with
  | some _ => [.handedOut p]
  | none => [.handedOut p, .noText p.origin]

namespace Console

variable {H : Type}

/-- What is noted when a command is registered. -/
def refusal? (c : Console H) (name : String) : Option Remark :=
  if c.table.size < maxCommands then none else some (.refused name)

/-- What is noted about a line, however a command ends. -/
def remark? (c : Console H) (raw : String) : Option Remark :=
  if isComment raw then none
  else if asksForReset (splitWord (c.lineFor raw)).1 then some .reset
  else match c.table.find? (splitWord (c.lineFor raw)).1 with
    | some e => some (.dispatched e.name)
    | none => some (.unknown (splitWord (c.lineFor raw)).1)

/-- The name of a command that ended with an error, and the error. -/
def failure? (name : String) : Except CommandError Unit → Option (String × CommandError)
  | .ok () => none
  | .error e => some (name, e)

/-- The command that a line led to and the error that it ended with. -/
def Question.failure? (q : Question H) : Option (String × CommandError) :=
  q.ended?.bind fun p => Console.failure? p.1.name p.2

def Act.remarks (c : Console H) : Act H → List Remark
  | .register name _ _ => (c.refusal? name).toList
  | .attach _ => (c.refusal? (Command.forward (H := H)).name).toList
  | .answer _ raw => (c.remark? raw).toList
  | .next _ arrivals =>
    match (c.board.await arrivals).parcel with
    | some p => p.remarks ++ (c.remark? (legible p.bytes)).toList
    | none => []
  | .meanwhile _ => []

/-- The minutes of an act. -/
def Act.minute (c : Console H) (a : Act H) : Minute :=
  ⟨c.board.now, a.remarks c, (a.question? c).bind Question.failure?⟩

/-- The minutes of acts, in their order. -/
def minutes (c : Console H) : List (Act H) → List Minute
  | [] => []
  | a :: acts => a.minute c :: (c.after a).minutes acts

/-- The act prints and empties the journals. -/
def Act.reports : Act H → Bool
  | .meanwhile .report => true
  | _ => false

/-! ## Entries of one act -/

/-- Adds remarks to the journal of the console. -/
def noteAll (c : Console H) (remarks : List Remark) : Console H :=
  c.withLog (remarks.foldl (Remark.enter c.board.now) c.board.consoleLog)

theorem noteAll_append (c : Console H) (rs rs' : List Remark) :
    c.noteAll (rs ++ rs') = (c.noteAll rs).noteAll rs' := by
  rw [noteAll, List.foldl_append]
  rfl

theorem noteResult_eq (c : Console H) (name : String) (r : Except CommandError Unit) :
    c.noteResult name r = c.noteAll ((failure? name r).toList.map .failed) := by
  cases r <;> rfl

theorem received_eq_noteAll (c : Console H) (p : Parcel) : c.received p = c.noteAll p.remarks := by
  unfold received Parcel.remarks
  dsimp only
  cases ofBytes? p.bytes <;> rfl

/-- A refused registration is noted. -/
theorem consoleLog_register (c : Console H) (e : Command H) :
    (c.register e).board.consoleLog = (c.noteAll (c.refusal? e.name).toList).board.consoleLog := by
  unfold refusal?
  by_cases hroom : c.table.size < maxCommands
  · have hadd : c.table.add e = .ok ⟨c.table.commands ++ [e], _⟩ := dif_pos hroom
    rw [register, Board.register, hadd, if_pos hroom]
    rfl
  · have hadd : c.table.add e = .error .tableFull := dif_neg hroom
    rw [register, Board.register, hadd, if_neg hroom]
    rfl

theorem remark?_of_dispatched {c : Console H} {raw : String} {e : Command H}
    (h : c.dispatched? raw = some e) :
    ¬ isComment raw = true ∧ c.remark? raw = some (.dispatched e.name) := by
  unfold dispatched? at h
  split at h
  · cases h
  · next hnone =>
    obtain ⟨hcomment, hreset⟩ := not_or.mp hnone
    rw [remark?, if_neg hcomment, if_neg hreset, h]
    exact ⟨hcomment, rfl⟩

/-- Answering a line remembers it, and notes what it leads to and what came of it. -/
theorem Question.console_turn (q : Question H) :
    q.turn.console = (q.console.recalling q.raw).noteAll
      ((q.console.remark? q.raw).toList ++ q.failure?.toList.map .failed) := by
  obtain ⟨c, service, raw⟩ := q
  show (c.answer service raw).console = _
  unfold failure? ended?
  cases hd : c.dispatched? raw with
  | some e =>
    obtain ⟨hcomment, hremark⟩ := remark?_of_dispatched hd
    rw [answer_of_dispatched service hd, hremark, noteAll_append, recalling, if_neg hcomment,
      noteResult_eq]
    rfl
  | none =>
    unfold answer recalling remark?
    by_cases hcomment : isComment raw = true
    · simp only [if_pos hcomment]
      rfl
    · by_cases hreset : asksForReset (splitWord (c.lineFor raw)).1 = true
      · simp only [if_neg hcomment, if_pos hreset]
        rfl
      · rw [dispatched?, if_neg (not_or.mpr ⟨hcomment, hreset⟩)] at hd
        obtain ⟨memory, hmemory⟩ := remember_eq c raw (c.lineFor raw)
        simp only [if_neg hcomment, if_neg hreset, hmemory, dispatch, hd]
        rfl

/-! ## The journal over whole runs -/

/-- What happens meanwhile leaves the journal of the console alone, unless it is printed. -/
theorem consoleLog_after_event (b : Board) {event : Board.Event} (h : event ≠ .report) :
    (b.after event).consoleLog = b.consoleLog := by
  cases event with
  | feed o byte =>
    obtain ⟨inbox, log, hb⟩ := b.onReceiveSide_feed o byte
    rw [Board.after, hb]
  | take arrivals =>
    obtain ⟨inbox, log, hb⟩ := b.onReceiveSide_await arrivals
    rw [Board.after, hb]
  | report => exact absurd rfl h
  | _ => rfl

/-- A line that is answered leaves the entries of its minutes. -/
theorem Question.consoleLog_turn (q : Question H) :
    q.turn.console.board.consoleLog =
      (⟨q.console.board.now, (q.console.remark? q.raw).toList, q.failure?⟩ : Minute).enter
        q.console.board.consoleLog := by
  obtain ⟨memory, hmemory⟩ := recalling_eq q.console q.raw
  rw [q.console_turn, hmemory]
  rfl

theorem enter_without_failure (log : Journal journalSize) (stamp : Int) (rs : List Remark) :
    (⟨stamp, rs, none⟩ : Minute).enter log = rs.foldl (Remark.enter stamp) log :=
  congrArg (List.foldl _ log) (List.append_nil rs)

/-- The minutes of a round that hands out a line. -/
theorem minute_next {c : Console H} {arrivals : List Batch} {p : Parcel}
    (hp : (c.board.await arrivals).parcel = some p) (service : Service H) :
    (Act.next service arrivals).minute c =
      ⟨c.board.now, p.remarks ++ (c.remark? (legible p.bytes)).toList,
        Question.failure? ⟨c.handing arrivals p, service, legible p.bytes⟩⟩ := by
  simp only [Act.minute, Act.remarks, Act.question?, hp, Option.map_some, Option.bind_some]

/-- The minutes of a round that waits in vain. -/
theorem minute_next_of_none {c : Console H} {arrivals : List Batch}
    (hp : (c.board.await arrivals).parcel = none) (service : Service H) :
    (Act.next service arrivals).minute c = ⟨c.board.now, [], none⟩ := by
  simp only [Act.minute, Act.remarks, Act.question?, hp, Option.map_none, Option.bind_none]

/-- What is noted about a line does not depend on the board. -/
theorem remark?_handing (c : Console H) (arrivals : List Batch) (p : Parcel) (raw : String) :
    (c.handing arrivals p).remark? raw = c.remark? raw := by
  obtain ⟨board, h⟩ := c.handing_eq arrivals p
  rw [h]
  rfl

/-- A round of the loop notes the line that is handed out, and then what comes of it. -/
theorem consoleLog_next (service : Service H) (c : Console H) (arrivals : List Batch) :
    (c.next service arrivals).console.board.consoleLog =
      ((Act.next service arrivals).minute c).enter c.board.consoleLog := by
  obtain ⟨inbox, log, hboard⟩ := c.board.onReceiveSide_await arrivals
  cases hp : (c.board.await arrivals).parcel with
  | none =>
    rw [minute_next_of_none hp]
    simp only [next, hp, Round.console, hboard]
    rfl
  | some p =>
    have hreceived : c.handing arrivals p =
        { c with board := (c.board.await arrivals).board }.noteAll p.remarks :=
      received_eq_noteAll _ p
    have hlog : (c.handing arrivals p).board.consoleLog =
        p.remarks.foldl (Remark.enter c.board.now) c.board.consoleLog := by
      rw [hreceived, hboard]
      rfl
    have hnow : (c.handing arrivals p).board.now = c.board.now := by
      rw [hreceived, hboard]
      rfl
    have hturn := Question.consoleLog_turn ⟨c.handing arrivals p, service, legible p.bytes⟩
    simp only [Question.turn, hlog, hnow, remark?_handing] at hturn
    rw [next_of_parcel service c hp, minute_next hp, Round.console, hturn]
    simp only [Minute.enter, Minute.entries, List.foldl_append]

/-- An act leaves the entries of its minutes. -/
theorem consoleLog_after (c : Console H) {a : Act H} (ha : a.reports = false) :
    (c.after a).board.consoleLog = (a.minute c).enter c.board.consoleLog := by
  cases a with
  | register name handler description =>
    exact (consoleLog_register c _).trans (enter_without_failure _ _ _).symm
  | attach link =>
    exact (consoleLog_register { c with link := some link } _).trans
      (enter_without_failure _ _ _).symm
  | answer service raw => exact Question.consoleLog_turn ⟨c, service, raw⟩
  | next service arrivals => exact consoleLog_next service c arrivals
  | meanwhile event =>
    refine consoleLog_after_event c.board ?_
    rintro rfl
    cases ha

theorem consoleLog_afterAll (c : Console H) {acts : List (Act H)}
    (hacts : ∀ a ∈ acts, a.reports = false) :
    (c.afterAll acts).board.consoleLog = (c.minutes acts).foldl Minute.enter c.board.consoleLog := by
  induction acts generalizing c with
  | nil => rfl
  | cons a acts ih =>
    obtain ⟨ha, hacts⟩ := List.forall_mem_cons.mp hacts
    show ((c.after a).afterAll acts).board.consoleLog = _
    rw [ih (c.after a) hacts, consoleLog_after c ha]
    rfl

end Console

end SerialConsole
