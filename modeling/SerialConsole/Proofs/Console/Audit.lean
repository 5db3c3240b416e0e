import SerialConsole.Proofs.Console.Notes
import SerialConsole.Proofs.Console.Registrations
import SerialConsole.Proofs.Handoff.ForcedLines

/-!
# The audit trail

The board keeps two journals, and everything that has to be known later leaves its entries there.  The
receive side notes each line that was completed by force.  The console notes

    a registration that was refused                            one entry
    a line that resets the board                               one entry
    a line that leads to no command                            one entry
    a line that leads to a command                             one entry, and one more if it fails
    a line that was handed out to the loop                     one entry, and one more if it is no text

and of a comment nothing but that it was handed out.  So from the time when the journals were emptied,
and as long as they are not printed, entries and drops together are what there was to note.
-/

namespace SerialConsole

open Settings Text
open Journal (Record)
open Handoff (arrived bytesOn)

/-! ## What arrives -/

namespace Board

/-- The batches that arrive during a wait. -/
def arriving (b : Board) (arrivals : List Batch) : List Batch :=
  arrivals.take (arrivals.length - (b.await arrivals).arrivals.length)

theorem arriving_eq {b : Board} {arrivals batches : List Batch}
    (h : arrivals = batches ++ (b.await arrivals).arrivals) : b.arriving arrivals = batches := by
  have htake : ∀ {l rest : List Batch}, l = batches ++ rest →
      l.take (l.length - rest.length) = batches := by
    rintro _ rest rfl
    rw [List.length_append, Nat.add_sub_cancel, List.take_left]
  exact htake h

/-- The bytes of an origin that come with an event. -/
def typed (b : Board) (o : Origin) : Event → Bytes
  | .feed o' byte => bytesOn o' [byte] o
  | .take arrivals => arrived (b.arriving arrivals) o
  | _ => []

theorem Noted.await_arriving {b : Board} {bytes : Origin → Bytes} (h : b.Noted bytes)
    (arrivals : List Batch) :
    (b.await arrivals).board.Noted fun o => bytes o ++ arrived (b.arriving arrivals) o := by
  obtain ⟨batches, hbatches, hnoted⟩ := h.await arrivals
  rw [arriving_eq hbatches]
  exact hnoted

theorem Noted.after {b : Board} {bytes : Origin → Bytes} (h : b.Noted bytes) {event : Event}
    (hevent : event ≠ .report) : (b.after event).Noted fun o => bytes o ++ b.typed o event := by
  have hstill : ∀ {b' : Board}, (∀ o, b'.inbox.receiver o = b.inbox.receiver o) →
      b'.receiveLog = b.receiveLog → b'.Noted fun o => bytes o ++ [] := by
    intro b' hreceiver hlog
    simp only [List.append_nil]
    exact h.congr hreceiver hlog
  cases event with
  | feed o byte => exact h.feed o byte
  | take arrivals => exact h.await_arriving arrivals
  | release => exact hstill (Inbox.receiver_release b.inbox) rfl
  | acquire => exact hstill (Inbox.receiver_acquire?_getD b.inbox) rfl
  | report => exact absurd rfl hevent
  | _ => exact hstill (fun _ => rfl) rfl

end Board

/-! ## Records of the console -/

/-- The record of a remark. -/
def Remark.record (stamp : Int) (r : Remark) : Record :=
  .made stamp r.level "CMD" (Scratch.message maxMessage r.parts)

/-- The records of a minute. -/
def Minute.records (m : Minute) : List Record := m.entries.map (Remark.record m.stamp)

theorem given_enter {log : Journal journalSize} {rs : List Record} (h : log.Given rs) (stamp : Int)
    (remarks : List Remark) : (remarks.foldl (Remark.enter stamp) log).Given
      (rs ++ remarks.map (Remark.record stamp)) := by
  induction remarks generalizing log rs with
  | nil =>
    rw [List.map_nil, List.append_nil]
    exact h
  | cons r remarks ih =>
    have hpush := h.push Journal.ringSize_journalSize stamp r.level "CMD"
      (Scratch.message maxMessage r.parts)
    have hrest := ih hpush
    rw [List.append_assoc] at hrest
    exact hrest

/-- A journal is given the records of the minutes that are entered. -/
theorem given_minutes {log : Journal journalSize} {rs : List Record} (h : log.Given rs)
    (ms : List Minute) : (ms.foldl Minute.enter log).Given (rs ++ ms.flatMap Minute.records) := by
  induction ms generalizing log rs with
  | nil =>
    rw [List.flatMap_nil, List.append_nil]
    exact h
  | cons m ms ih =>
    have hrest := ih (given_enter h m.stamp m.entries)
    rw [List.append_assoc] at hrest
    exact hrest

namespace Console

variable {H : Type}

/-- The bytes of an origin that come with an act. -/
def Act.typed (c : Console H) (o : Origin) : Act H → Bytes
  | .next _ arrivals => arrived (c.board.arriving arrivals) o
  | .meanwhile event => c.board.typed o event
  | _ => []

/-- The bytes of an origin that come with acts. -/
def typed (c : Console H) (o : Origin) : List (Act H) → Bytes
  | [] => []
  | a :: acts => a.typed c o ++ (c.after a).typed o acts

/-- The lines that are completed by force during some acts, if the receivers are new before them. -/
def forcedLines (c : Console H) (acts : List (Act H)) : Nat :=
  Board.forcedLines fun o => c.typed o acts

/-! ## The journal of the receive side over whole runs -/

theorem receiveLog_register (c : Console H) (e : Command H) :
    (c.register e).board.receiveLog = c.board.receiveLog := by
  rcases register_cases c e with ⟨-, table, -, h⟩ | ⟨-, log, h⟩
  · rw [h]
  · rw [h]

theorem receiveLog_next (service : Service H) (c : Console H) (arrivals : List Batch) :
    (c.next service arrivals).console.board.receiveLog =
      (c.board.await arrivals).board.receiveLog := by
  unfold next
  dsimp only
  split
  · rfl
  · next p _ =>
    obtain ⟨memory, log, h⟩ :=
      answerParcel_keeps service { c with board := (c.board.await arrivals).board } p
    rw [Round.console, h]

theorem noted_after {c : Console H} {bytes : Origin → Bytes} (h : c.board.Noted bytes) {a : Act H}
    (ha : a.reports = false) : (c.after a).board.Noted fun o => bytes o ++ a.typed c o := by
  have hstill : ∀ {d : Console H}, d.board.inbox = c.board.inbox →
      d.board.receiveLog = c.board.receiveLog → d.board.Noted fun o => bytes o ++ [] := by
    intro d hinbox hlog
    simp only [List.append_nil]
    exact h.congr (fun o => congrArg (Inbox.receiver · o) hinbox) hlog
  cases a with
  | register name handler description =>
    exact hstill (inbox_register c _) (receiveLog_register c _)
  | attach link =>
    exact hstill (inbox_register { c with link := some link } _)
      (receiveLog_register { c with link := some link } _)
  | answer service raw =>
    obtain ⟨memory, log, hkeeps⟩ := answer_keeps service c raw
    refine hstill (inbox_answer service c raw) ?_
    rw [after, hkeeps]
  | next service arrivals =>
    exact (h.await_arriving arrivals).congr
      (fun o => congrArg (Inbox.receiver · o) (inbox_next service c arrivals))
      (receiveLog_next service c arrivals)
  | meanwhile event =>
    refine h.after ?_
    rintro rfl
    cases ha

theorem noted_afterAll {c : Console H} {bytes : Origin → Bytes} (h : c.board.Noted bytes)
    {acts : List (Act H)} (hacts : ∀ a ∈ acts, a.reports = false) :
    (c.afterAll acts).board.Noted fun o => bytes o ++ c.typed o acts := by
  induction acts generalizing c bytes with
  | nil =>
    simp only [typed, List.append_nil]
    exact h
  | cons a acts ih =>
    obtain ⟨ha, hacts⟩ := List.forall_mem_cons.mp hacts
    have hrest := ih (noted_after h ha) hacts
    simp only [List.append_assoc] at hrest
    exact hrest

/-! ## What the console has to note -/

/-- The line that an act hands out to the loop. -/
def Act.parcel? (c : Console H) : Act H → Option Parcel
  | .next _ arrivals => (c.board.await arrivals).parcel
  | _ => none

/-- The lines that acts hand out to the loop, in their order. -/
def parcels (c : Console H) : List (Act H) → List Parcel
  | [] => []
  | a :: acts => (a.parcel? c).toList ++ (c.after a).parcels acts

/-- The line resets the board. -/
def Question.resets (q : Question H) : Bool := q.turn.step == .reset

/-- The line leads to a command. -/
def Question.isDispatched (q : Question H) : Bool := (q.console.dispatched? q.raw).isSome

/-- The line is no comment, does not reset the board and leads to no command. -/
def Question.isUnknown (q : Question H) : Bool :=
  !isComment q.raw && !q.resets && !q.isDispatched

/-- The line leads to a command that ends with an error. -/
def Question.fails (q : Question H) : Bool := q.failure?.isSome

/-- How often there was something to note. -/
structure Tally where
  refused : Nat
  resets : Nat
  unknown : Nat
  dispatched : Nat
  failed : Nat
  handedOut : Nat
  noText : Nat
  deriving Repr, DecidableEq

def Tally.total (t : Tally) : Nat :=
  t.refused + t.resets + t.unknown + t.dispatched + t.failed + t.handedOut + t.noText

/-- What acts give the console to note: registrations beyond the room of the table, the lines that are
answered, by what comes of them, and the lines that are handed out. -/
def tally (c : Console H) (acts : List (Act H)) : Tally where
  refused := (entries acts).length - c.room
  resets := (c.questions acts).countP Question.resets
  unknown := (c.questions acts).countP Question.isUnknown
  dispatched := (c.questions acts).countP Question.isDispatched
  failed := (c.questions acts).countP Question.fails
  handedOut := (c.parcels acts).length
  noText := (c.parcels acts).countP fun p => (ofBytes? p.bytes).isNone

theorem total_tally_nil (c : Console H) : (c.tally []).total = 0 :=
  Nat.zero_sub c.room

/-- The first act, and then the others. -/
theorem total_tally_cons (c : Console H) (a : Act H) (acts : List (Act H)) :
    (c.tally (a :: acts)).total = (c.tally [a]).total + ((c.after a).tally acts).total := by
  have hentries : (entries [a]).length = a.entry.toList.length := by
    rw [entries_cons]
    exact congrArg List.length (List.append_nil _)
  simp only [tally, Tally.total, hentries, entries_cons a acts, questions, parcels,
    List.length_append, List.countP_append, List.append_nil, room_after]
  omega

/-- What is noted about a line, however its command ends: one entry at most. -/
theorem length_remark? (q : Question H) : (q.console.remark? q.raw).toList.length =
    [q].countP Question.resets + [q].countP Question.isUnknown +
      [q].countP Question.isDispatched := by
  obtain ⟨c, service, raw⟩ := q
  -- each of the four ways of a line makes one of the three true, but for a comment
  have hcount : ∀ {comment resets dispatched : Bool}, isComment raw = comment →
      Question.resets ⟨c, service, raw⟩ = resets →
      Question.isDispatched ⟨c, service, raw⟩ = dispatched →
      [(⟨c, service, raw⟩ : Question H)].countP Question.resets +
          [(⟨c, service, raw⟩ : Question H)].countP Question.isUnknown +
          [(⟨c, service, raw⟩ : Question H)].countP Question.isDispatched =
        resets.toNat + (!comment && !resets && !dispatched).toNat + dispatched.toNat := by
    intro comment resets dispatched hcomment hresets hdispatched
    simp only [List.countP_singleton, Question.isUnknown, hcomment, hresets, hdispatched]
    cases comment <;> cases resets <;> cases dispatched <;> rfl
  have hresets : Question.resets ⟨c, service, raw⟩ = true ↔
      ¬ isComment raw = true ∧ asksForReset (splitWord (c.lineFor raw)).1 = true := by
    rw [← step_answer_iff service c raw]
    exact beq_iff_eq
  by_cases hcomment : isComment raw = true
  · have hnot : Question.resets ⟨c, service, raw⟩ = false :=
      Bool.eq_false_iff.mpr fun h => (hresets.mp h).1 hcomment
    have hnone : c.dispatched? raw = none := if_pos (.inl hcomment)
    rw [hcount hcomment hnot (congrArg Option.isSome hnone)]
    simp only [remark?, if_pos hcomment]
    rfl
  · have hfalse : isComment raw = false := Bool.eq_false_iff.mpr hcomment
    by_cases hreset : asksForReset (splitWord (c.lineFor raw)).1 = true
    · have hnone : c.dispatched? raw = none := if_pos (.inr hreset)
      rw [hcount hfalse (hresets.mpr ⟨hcomment, hreset⟩) (congrArg Option.isSome hnone)]
      simp only [remark?, if_neg hcomment, if_pos hreset]
      rfl
    · have hnot : Question.resets ⟨c, service, raw⟩ = false :=
        Bool.eq_false_iff.mpr fun h => hreset (hresets.mp h).2
      have hfind : c.dispatched? raw = c.table.find? (splitWord (c.lineFor raw)).1 :=
        if_neg (not_or.mpr ⟨hcomment, hreset⟩)
      rw [hcount hfalse hnot (congrArg Option.isSome hfind)]
      simp only [remark?, if_neg hcomment, if_neg hreset]
      cases c.table.find? (splitWord (c.lineFor raw)).1 <;> rfl

theorem length_refusal? (c : Console H) (name : String) :
    (c.refusal? name).toList.length = 1 - c.room := by
  unfold refusal? room
  split
  · next hroom => exact (Nat.sub_eq_zero_of_le (Nat.sub_pos_of_lt hroom)).symm
  · next hfull => rw [Nat.sub_eq_zero_of_le (Nat.le_of_not_lt hfull)]; rfl

theorem length_remarks (p : Parcel) :
    p.remarks.length = 1 + [p].countP fun p => (ofBytes? p.bytes).isNone := by
  rw [List.countP_singleton, Parcel.remarks]
  cases ofBytes? p.bytes <;> rfl

theorem length_failure? (q : Question H) :
    (q.failure?.toList.map Remark.failed).length = [q].countP Question.fails := by
  rw [List.countP_singleton, Question.fails]
  cases q.failure? <;> rfl

/-- What one act gives to note, by the command that it registers, the line that it answers and the line
that it hands out. -/
theorem total_tally_singleton (c : Console H) (a : Act H) : (c.tally [a]).total =
    a.entry.toList.length - c.room + (a.question? c).toList.countP Question.resets +
      (a.question? c).toList.countP Question.isUnknown +
      (a.question? c).toList.countP Question.isDispatched +
      (a.question? c).toList.countP Question.fails + (a.parcel? c).toList.length +
      (a.parcel? c).toList.countP fun p => (ofBytes? p.bytes).isNone := by
  have hentries : entries [a] = a.entry.toList := (entries_cons a []).trans (List.append_nil _)
  simp only [tally, Tally.total, hentries, questions, parcels, List.append_nil]

/-- The minutes of an act have as many entries as the act gives to note. -/
theorem length_entries_minute (c : Console H) (a : Act H) :
    (a.minute c).entries.length = (c.tally [a]).total := by
  rw [total_tally_singleton, Minute.entries, List.length_append]
  cases a with
  | register name handler description => exact length_refusal? c name
  | attach link => exact length_refusal? c _
  | answer service raw =>
    have hremark : (c.remark? raw).toList.length = _ := length_remark? ⟨c, service, raw⟩
    have hfailure := length_failure? ⟨c, service, raw⟩
    simp only [Act.minute, Act.remarks, Act.question?, Act.parcel?, Act.entry, Option.bind_some,
      Option.toList_some, Option.toList_none, List.length_nil, List.countP_nil, hremark, hfailure]
    omega
  | next service arrivals =>
    cases hp : (c.board.await arrivals).parcel with
    | none =>
      simp only [minute_next_of_none hp, Act.question?, Act.parcel?, Act.entry, hp, Option.map_none,
        Option.toList_none, List.map_nil, List.length_nil, List.countP_nil, Nat.zero_sub]
    | some p =>
      have hremark : ((c.handing arrivals p).remark? (legible p.bytes)).toList.length = _ :=
        length_remark? ⟨c.handing arrivals p, service, legible p.bytes⟩
      have hfailure := length_failure? ⟨c.handing arrivals p, service, legible p.bytes⟩
      rw [remark?_handing] at hremark
      simp only [minute_next hp, Act.question?, Act.parcel?, Act.entry, hp, Option.map_some,
        Option.toList_some, Option.toList_none, List.length_append, List.length_nil,
        List.length_singleton, length_remarks, hremark, hfailure]
      omega
  | meanwhile event => exact (Nat.zero_sub c.room).symm

/-! ## The audit -/

/-- The minutes of acts have as many records as the acts give to note. -/
theorem length_records_minutes (c : Console H) (acts : List (Act H)) :
    ((c.minutes acts).flatMap Minute.records).length = (c.tally acts).total := by
  induction acts generalizing c with
  | nil => exact (total_tally_nil c).symm
  | cons a acts ih =>
    rw [minutes, List.flatMap_cons, List.length_append, ih, total_tally_cons, Minute.records,
      List.length_map, length_entries_minute]

/-- The receivers are new, and both journals are emptied. -/
structure Unwritten (c : Console H) : Prop where
  receiver : ∀ o, c.board.inbox.receiver o = .ofOrigin o
  receiveLog : c.board.receiveLog.queue = .empty
  consoleLog : c.board.consoleLog.queue = .empty

theorem Unwritten.noted {c : Console H} (hc : c.Unwritten) : c.board.Noted fun _ => [] where
  receiver := hc.receiver
  log := ⟨[], .nil hc.receiveLog, fun _ hr => absurd hr List.not_mem_nil, rfl⟩

/-- The forced lines of two receivers, by their own counts. -/
theorem forced_of_noted {b : Board} {bytes : Origin → Bytes} (h : b.Noted bytes) :
    b.inbox.console.forced + b.inbox.link.forced = UInt32.ofNat (Board.forcedLines bytes) ∧
      (Board.forcedLines bytes < UInt32.size →
        b.inbox.console.forced.toNat + b.inbox.link.forced.toNat = Board.forcedLines bytes) := by
  have hforced : ∀ o, (b.inbox.receiver o).forced =
      UInt32.ofNat (Receiver.forcedLines o (bytes o)) := by
    intro o
    have hzero : (Receiver.ofOrigin o).forced = 0 := by cases o <;> rfl
    rw [h.receiver, Receiver.forced_feedAll, hzero, UInt32.zero_add]
    rfl
  have hconsole := hforced .console
  have hlink := hforced .link
  refine ⟨?_, ?_⟩
  · show (b.inbox.receiver .console).forced + (b.inbox.receiver .link).forced = _
    rw [hconsole, hlink, ← UInt32.ofNat_add]
    rfl
  · intro hlt
    unfold Board.forcedLines at hlt ⊢
    show (b.inbox.receiver .console).forced.toNat + (b.inbox.receiver .link).forced.toNat = _
    rw [hconsole, hlink, UInt32.toNat_ofNat_of_lt' (by omega), UInt32.toNat_ofNat_of_lt' (by omega)]

/-- A comment is answered without a trace. -/
theorem console_answer_of_comment (service : Service H) (c : Console H) {raw : String}
    (h : raw.toList.head? = some '#') : (c.answer service raw).console = c := by
  rw [answer, if_pos ((LastCommand.isComment_iff raw).mpr h)]

/-- Of a comment nothing is noted but that it was handed out. -/
theorem console_next_of_comment (service : Service H) {c : Console H} {arrivals : List Batch}
    {p : Parcel} (hp : (c.board.await arrivals).parcel = some p)
    (h : (legible p.bytes).toList.head? = some '#') :
    (c.next service arrivals).console =
      { c with board := (c.board.await arrivals).board }.noteAll p.remarks := by
  rw [next_of_parcel service c hp, Round.console, console_answer_of_comment service _ h, handing,
    received_eq_noteAll]

end Console

end SerialConsole
