import SerialConsole.Proofs.Console.Changes
import SerialConsole.Proofs.Handoff.Calls

/-!
# Acts

Whatever happens to a console is a list of acts: commands are registered and links attached, lines
are answered, and meanwhile bytes arrive, tokens come and go, faults are raised and cleared, journals
are printed and time goes by.  An act that answers a line brings along how the contributed handlers
behave this time, so a handler may do something else every time it is called.

A console is reachable if acts lead to it from the one that is there when a board was just switched
on.  Acts do to a receiver what some bytes do to it, and nothing else:

    (c.after a).board.inbox.receiver o = ((c.board.inbox.receiver o).feedAll bs).1    for some bs
-/

namespace SerialConsole

namespace Board

/-- What can happen to a board besides what its console does. -/
inductive Event where
  | feed (o : Origin) (byte : UInt8)
  /-- Another reader waits for a line while batches arrive. -/
  | take (arrivals : List Batch)
  /-- The token is made available, though no line was completed. -/
  | release
  /-- The token is taken, if it is there, and nothing is collected. -/
  | acquire
  | raise (cause : Fault.Cause) (severity : Fault.Severity) (data : UInt32)
  | clear
  /-- The journals are printed and emptied. -/
  | report
  | tick (now : Int)
  deriving Repr, DecidableEq

def after (b : Board) : Event → Board
  | .feed o byte => (b.feed o byte).1
  | .take arrivals => (b.await arrivals).board
  | .release => { b with inbox := b.inbox.release }
  | .acquire => { b with inbox := b.inbox.acquire?.getD b.inbox }
  | .raise cause severity data => b.raise cause severity data
  | .clear => { b with faults := b.faults.clear }
  | .report => b.report.1
  | .tick now => { b with now := now }

/-- A wait does to a receiver what the bytes that arrive meanwhile do. -/
theorem receiver_await (b : Board) (arrivals : List Batch) (o : Origin) :
    ∃ bs, (b.await arrivals).board.inbox.receiver o = ((b.inbox.receiver o).feedAll bs).1 := by
  obtain ⟨batches, ms, -, hms⟩ := Handoff.calls_await b arrivals
  exact ⟨_, hms.receiver o⟩

theorem receiver_after (b : Board) (event : Event) (o : Origin) :
    ∃ bs, (b.after event).inbox.receiver o = ((b.inbox.receiver o).feedAll bs).1 := by
  cases event with
  | feed o' byte =>
    obtain ⟨ms, hms⟩ := Handoff.calls_feed b.inbox o' byte
    rw [after, Handoff.inbox_feed]
    exact ⟨_, hms.receiver o⟩
  | take arrivals => exact b.receiver_await arrivals o
  | release => exact ⟨[], Inbox.receiver_release b.inbox o⟩
  | acquire => exact ⟨[], Inbox.receiver_acquire?_getD b.inbox o⟩
  | report =>
    obtain ⟨log, log', h⟩ := b.report_keeps
    rw [after, h]
    exact ⟨[], rfl⟩
  | _ => exact ⟨[], rfl⟩

/-- A line that is handed out is one that a receiver completed, so it fits into a line. -/
theorem length_await_le {b : Board} {arrivals : List Batch} {p : Parcel}
    (h : (b.await arrivals).parcel = some p) : p.bytes.length ≤ Settings.maxChars := by
  fun_induction await b arrivals with
  | case1 => cases h
  | case2 b arrivals next rest hnext parcel hparcel =>
    cases h
    rw [collect, Inbox.collect_fst] at hparcel
    obtain ⟨o, -, rfl⟩ := Option.map_eq_some_iff.mp hparcel
    exact Receiver.length_latest_le _
  | case3 b arrivals next rest hnext hnone _ ih => exact ih h

end Board

namespace Console

variable {H : Type}

/-- What can happen to a console. -/
inductive Act (H : Type) where
  | register (name : String) (handler : H) (description : String)
  | attach (link : LinkId)
  /-- A line is answered. -/
  | answer (service : Service H) (raw : String)
  /-- A line is waited for while batches arrive, and is answered if one comes. -/
  | next (service : Service H) (arrivals : List Batch)
  | meanwhile (event : Board.Event)

def after (c : Console H) : Act H → Console H
  | .register name handler description => c.register ⟨name, description, .contributed handler⟩
  | .attach link => c.attach link
  | .answer service raw => (c.answer service raw).console
  | .next service arrivals => (c.next service arrivals).console
  | .meanwhile event => { c with board := c.board.after event }

def afterAll (c : Console H) (acts : List (Act H)) : Console H := acts.foldl after c

/-- Acts lead to the console from the one of a board that was just switched on. -/
def Reachable (c : Console H) : Prop := ∃ acts, c = (fresh .fresh).afterAll acts

theorem afterAll_append (c : Console H) (acts acts' : List (Act H)) :
    c.afterAll (acts ++ acts') = (c.afterAll acts).afterAll acts' :=
  List.foldl_append

/-! ## Receivers -/

theorem inbox_register (c : Console H) (command : Command H) :
    (c.register command).board.inbox = c.board.inbox := by
  rcases register_cases c command with ⟨-, table, -, h⟩ | ⟨-, log, h⟩
  · rw [h]
  · rw [h]

theorem inbox_next (service : Service H) (c : Console H) (arrivals : List Batch) :
    (c.next service arrivals).console.board.inbox = (c.board.await arrivals).board.inbox := by
  unfold next
  dsimp only
  split
  · rfl
  · exact inbox_answerParcel service _ _

/-- Acts do to a receiver what some bytes do. -/
theorem receiver_after (c : Console H) (a : Act H) (o : Origin) :
    ∃ bs, (c.after a).board.inbox.receiver o = ((c.board.inbox.receiver o).feedAll bs).1 := by
  have hsame : ∀ inbox, inbox = c.board.inbox →
      ∃ bs, inbox.receiver o = ((c.board.inbox.receiver o).feedAll bs).1 := by
    rintro _ rfl
    exact ⟨[], rfl⟩
  cases a with
  | register name handler description => exact hsame _ (inbox_register c _)
  | attach link => exact hsame _ (inbox_register { c with link := some link } _)
  | answer service raw => exact hsame _ (inbox_answer service c raw)
  | next service arrivals =>
    show ∃ bs, (c.next service arrivals).console.board.inbox.receiver o = _
    rw [inbox_next]
    exact c.board.receiver_await arrivals o
  | meanwhile event => exact c.board.receiver_after event o

theorem receiver_afterAll (c : Console H) (acts : List (Act H)) (o : Origin) :
    ∃ bs, (c.afterAll acts).board.inbox.receiver o = ((c.board.inbox.receiver o).feedAll bs).1 := by
  induction acts generalizing c with
  | nil => exact ⟨[], rfl⟩
  | cons a acts ih =>
    obtain ⟨bs, hfirst⟩ := receiver_after c a o
    obtain ⟨bs', hrest⟩ := ih (c.after a)
    refine ⟨bs ++ bs', ?_⟩
    show ((c.after a).afterAll acts).board.inbox.receiver o = _
    rw [hrest, hfirst, ← Receiver.feedAll_append]

/-- A reachable receiver is a fresh one that took in some bytes. -/
theorem Reachable.receiver {c : Console H} (hc : c.Reachable) (o : Origin) :
    ∃ bs, c.board.inbox.receiver o = ((Receiver.ofOrigin o).feedAll bs).1 := by
  obtain ⟨acts, rfl⟩ := hc
  obtain ⟨bs, h⟩ := receiver_afterAll (fresh (H := H) .fresh) acts o
  refine ⟨bs, ?_⟩
  rw [h]
  cases o <;> rfl

theorem Reachable.keepsLineFeed {c : Console H} (hc : c.Reachable) (o : Origin) :
    (c.board.inbox.receiver o).keepsLineFeed = o.keepsLineFeed := by
  obtain ⟨bs, h⟩ := hc.receiver o
  rw [h, Receiver.keepsLineFeed_feedAll, Receiver.ofOrigin_eq_fresh]
  rfl

end Console

end SerialConsole
