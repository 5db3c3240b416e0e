import SerialConsole.Proofs.Handoff.Calls

/-!
# Isolation of the two serial lines

The receivers share a mailbox, a token and whoever reads, and their bytes come mixed in any order.
None of that reaches back into a receiver: what the feeds of one origin are told, and what its
receiver is afterwards, are what a receiver that stands alone makes of the bytes of that origin:

    start.heard o ms               = ((Receiver.ofOrigin o).feedAll (typed o ms)).2
    (start.run ms).inbox.receiver o = ((Receiver.ofOrigin o).feedAll (typed o ms)).1
-/

namespace SerialConsole

theorem Inbox.event_feed (i : Inbox) (o : Origin) (b : UInt8) :
    (i.feed o b).2 = ((i.receiver o).feed b).2 := by
  rw [feed_eq_deposit]
  exact event_deposit i o b

namespace Board

theorem event_feed (b : Board) (o : Origin) (byte : UInt8) :
    (b.feed o byte).2 = ((b.inbox.receiver o).feed byte).2 := by
  have hevent := b.inbox.event_feed o byte
  unfold feed
  split
  · next h =>
    rw [h] at hevent
    exact hevent
  · next h =>
    rw [h] at hevent
    exact hevent

theorem receiver_feed (b : Board) (o : Origin) (byte : UInt8) :
    (b.feed o byte).1.inbox.receiver o = ((b.inbox.receiver o).feed byte).1 := by
  rw [Handoff.inbox_feed, Inbox.feed_eq_deposit, ← Inbox.receiver_deposit]
  show (if _ then _ else _ : Inbox).receiver o = _
  split
  · exact Inbox.receiver_release _ _
  · rfl

/-- A board that takes in bytes tells of them what the receiver alone would tell. -/
theorem events_feedAll (b : Board) (o : Origin) (bs : Bytes) :
    (b.feedAll o bs).2 = ((b.inbox.receiver o).feedAll bs).2 := by
  induction bs generalizing b with
  | nil => rfl
  | cons byte bs ih =>
    have htail := ih (b.feed o byte).1
    rw [receiver_feed] at htail
    show (b.feed o byte).2 :: ((b.feed o byte).1.feedAll o bs).2 = _
    rw [htail, event_feed]
    rfl

end Board

namespace Handoff

/-- What a move tells the feeds of an origin: a deposit of that origin tells what became of its
byte. -/
def hears (h : Handoff) (o : Origin) : Move → List Receiver.Event
  | .deposit o' b => if o' = o then [(h.inbox.deposit o' b).2] else []
  | _ => []

/-- What some moves tell the feeds of an origin, in their order. -/
def heard (h : Handoff) (o : Origin) : List Move → List Receiver.Event
  | [] => []
  | m :: ms => h.hears o m ++ (h.after m).heard o ms

theorem hears_eq (h : Handoff) (o : Origin) (m : Move) :
    h.hears o m = ((h.inbox.receiver o).feedAll (m.typed o)).2 := by
  cases m with
  | deposit o' b =>
    simp only [hears, Move.typed]
    by_cases ho : o' = o
    · subst ho
      rw [if_pos rfl, if_pos rfl, Inbox.event_deposit]
      rfl
    · rw [if_neg ho, if_neg ho]
      rfl
  | _ => rfl

/-- Whatever else happens, the feeds of an origin are told of its own bytes only. -/
theorem heard_eq (h : Handoff) (o : Origin) (ms : List Move) :
    h.heard o ms = ((h.inbox.receiver o).feedAll (typed o ms)).2 := by
  induction ms generalizing h with
  | nil => rfl
  | cons m ms ih =>
    have htyped : typed o (m :: ms) = m.typed o ++ typed o ms := rfl
    rw [heard, ih, hears_eq, receiver_after, htyped, Receiver.events_feedAll_append]

/-- A feed of bytes is some moves, and what it returns is what they tell its own origin; the other
origin is told nothing. -/
theorem heard_feedAll (b : Board) (o o' : Origin) (bs : Bytes) : ∃ ns,
    Calls b.inbox (b.feedAll o' bs).1.inbox (bytesOn o' bs) [] ns ∧
      ∀ owed holding, heard ⟨b.inbox, owed, holding⟩ o ns =
        if o' = o then (b.feedAll o' bs).2 else [] := by
  obtain ⟨ns, hns⟩ := calls_feedAll b o' bs
  refine ⟨ns, hns, fun owed holding => ?_⟩
  rw [heard_eq, hns.typed, bytesOn]
  by_cases ho : o' = o
  · subst ho
    rw [if_pos rfl, if_pos rfl, Board.events_feedAll]
  · rw [if_neg ho, if_neg ho]
    rfl

/-- **Isolation.**  In every order of the moves, the events of one origin are those of a receiver
of its kind that got the bytes of that origin alone, and so is the receiver itself, with all that
it shows: its pending bytes, its counts and its ready line.  Feeds and waits are lists of such
moves, and a feed returns the events that its moves tell its origin and no other. -/
theorem source_isolation (o : Origin) (ms : List Move) :
    start.heard o ms = ((Receiver.ofOrigin o).feedAll (typed o ms)).2 ∧
    (start.run ms).inbox.receiver o = ((Receiver.ofOrigin o).feedAll (typed o ms)).1 ∧
    (∀ (b : Board) (o' : Origin) (bs : Bytes), ∃ ns,
      Calls b.inbox (b.feedAll o' bs).1.inbox (bytesOn o' bs) [] ns ∧
        ∀ owed holding, heard ⟨b.inbox, owed, holding⟩ o ns =
          if o' = o then (b.feedAll o' bs).2 else []) ∧
    (∀ (b : Board) (arrivals : List Batch), ∃ batches ns,
      arrivals = batches ++ (b.await arrivals).arrivals ∧
        Calls b.inbox (b.await arrivals).board.inbox (arrived batches)
          (b.await arrivals).parcel.toList ns) := by
  refine ⟨?_, ?_, fun b o' bs => heard_feedAll b o o' bs, calls_await⟩
  · rw [heard_eq, receiver_start]
  · rw [receiver_run, receiver_start]

/-- A line of the link in the middle of an operator's line, and a reader between the two, leave the
operator's line as it would be without them. -/
example : start.heard .console [.deposit .console 0x61, .deposit .link 0x0d, .release, .acquire,
    .collect, .deposit .console 0x62, .deposit .console 0x0d] =
      [.stored, .stored, .completed 2 false] := by decide +kernel

end Handoff

end SerialConsole
