import SerialConsole.Proofs.Handoff.Isolation
import SerialConsole.Proofs.Journal.Filling
import SerialConsole.Proofs.Receiver.Typing

/-!
# The journal of the receive side

The receive side notes one thing only: that a line was completed by force, and it notes each.  A line
that is completed by force is full, so all notes of one origin read the same.

    b.receiveLog was given as many records as lines were forced on either origin
    Link line forced at 99 chars

How many there were is known from the bytes of the two origins, each by itself (`Noted`).
-/

namespace SerialConsole

open Settings

/-! ## Forced lines of one receiver -/

namespace Receiver

/-- The lines that bytes complete by force on a new receiver of the origin. -/
def forcedLines (o : Origin) (bs : Bytes) : Nat :=
  ((ofOrigin o).feedAll bs).2.countP Event.isForced

/-- A line that is completed by force is full. -/
theorem eq_completed_of_isForced {r : Receiver} {b : UInt8} (h : (r.feed b).2.isForced = true) :
    (r.feed b).2 = .completed maxChars true := by
  rcases r.feed_cases b with ⟨-, -, hf⟩ | ⟨-, hend, hf⟩ | ⟨-, -, -, hf⟩ | ⟨-, -, -, hf⟩
  · rw [hf] at h
    cases h
  · rw [hf] at h ⊢
    have hne : b ≠ carriageReturn := of_decide_eq_true h
    rw [hend.resolve_left hne, decide_eq_true hne]
  · rw [hf] at h
    cases h
  · rw [hf] at h
    cases h

theorem forced_feed (r : Receiver) (b : UInt8) :
    (r.feed b).1.forced = r.forced + UInt32.ofNat (r.feed b).2.isForced.toNat := by
  have hzero : r.forced = r.forced + UInt32.ofNat 0 := (UInt32.add_zero _).symm
  rcases r.feed_cases b with ⟨-, -, hf⟩ | ⟨-, -, hf⟩ | ⟨-, -, -, hf⟩ | ⟨-, -, -, hf⟩
  · rw [hf]
    exact hzero
  · rw [hf]
    show (if _ then _ else _ : UInt32) = r.forced + UInt32.ofNat (Bool.toNat (decide _))
    split
    · next h =>
      rw [h]
      rfl
    · next h =>
      rw [Bool.eq_false_iff.mpr h]
      exact hzero
  · rw [hf]
    exact hzero
  · rw [hf]
    exact hzero

/-- A receiver counts the lines that are completed by force. -/
theorem forced_feedAll (r : Receiver) (bs : Bytes) :
    (r.feedAll bs).1.forced = r.forced + UInt32.ofNat ((r.feedAll bs).2.countP Event.isForced) := by
  induction bs generalizing r with
  | nil => exact (UInt32.add_zero _).symm
  | cons b bs ih =>
    have hcount : (r.feedAll (b :: bs)).2.countP Event.isForced =
        (r.feed b).2.isForced.toNat + ((r.feed b).1.feedAll bs).2.countP Event.isForced := by
      rw [feedAll, List.countP_cons, Nat.add_comm]
      cases (r.feed b).2.isForced <;> rfl
    rw [hcount, UInt32.ofNat_add, ← UInt32.add_assoc, ← forced_feed]
    exact ih (r.feed b).1

theorem forcedLines_append (o : Origin) (bs : Bytes) (b : UInt8) :
    forcedLines o (bs ++ [b]) =
      forcedLines o bs + (((ofOrigin o).feedAll bs).1.feed b).2.isForced.toNat := by
  have hone : ∀ e : Event, [e].countP Event.isForced = e.isForced.toNat := by
    intro e
    rw [List.countP_singleton]
    cases e.isForced <;> rfl
  rw [forcedLines, events_feedAll_append, List.countP_append]
  exact congrArg (_ + ·) (hone _)

end Receiver

/-! ## The note of a forced line -/

namespace Journal

/-- The record says that a line of some origin was completed by force at 99 bytes. -/
structure Record.TellsForced (r : Record) : Prop where
  level : r.level = .warn
  tag : r.tag = "RX"
  text : ∃ o : Origin, r.text = o.name ++ " line forced at 99 chars"

/-- The record of a line of the origin that was completed by force. -/
def forcedRecord (stamp : Int) (o : Origin) : Record :=
  .made stamp .warn "RX"
    (Scratch.message maxMessage [o.name, " line forced at ", toString maxChars, " chars"])

theorem tellsForced_forcedRecord (stamp : Int) (o : Origin) :
    (forcedRecord stamp o).TellsForced := by
  refine ⟨rfl, rfl, o, ?_⟩
  show (Text.ofBytes? ((Scratch.message maxMessage
    [o.name, " line forced at ", toString maxChars, " chars"]).take maxMessage)).getD _ = _
  cases o with
  | console => decide +kernel
  | link => decide +kernel

end Journal

namespace Board

open Journal Handoff Receiver

/-- The journal of the receive side is given a record for a line that is completed by force, and
nothing else. -/
theorem receiveLog_feed (b : Board) (o : Origin) (byte : UInt8) :
    (b.feed o byte).1.receiveLog =
      if ((b.inbox.receiver o).feed byte).2.isForced then
        (b.receiveLog.push b.now .warn "RX" (Scratch.message maxMessage
          [o.name, " line forced at ", toString maxChars, " chars"])).1
      else b.receiveLog := by
  have hevent := b.inbox.event_feed o byte
  unfold feed
  split
  · next inbox len h =>
    rw [h] at hevent
    have hforced : ((b.inbox.receiver o).feed byte).2.isForced = true := by
      rw [← hevent]
      rfl
    have hfull := eq_completed_of_isForced hforced
    rw [← hevent] at hfull
    cases hfull
    rw [if_pos hforced]
    rfl
  · next inbox event hne h =>
    rw [h] at hevent
    rw [← hevent]
    cases event with
    | completed len forced =>
      cases forced with
      | true => exact absurd rfl (hne len)
      | false => rfl
    | _ => rfl

/-- The lines that the bytes of the two origins complete by force. -/
def forcedLines (bytes : Origin → Bytes) : Nat :=
  Receiver.forcedLines .console (bytes .console) + Receiver.forcedLines .link (bytes .link)

/-- Another byte forces a line if it does so on its own receiver. -/
theorem forcedLines_feed (bytes : Origin → Bytes) (o : Origin) (byte : UInt8) :
    forcedLines (fun o' => bytes o' ++ bytesOn o [byte] o') = forcedLines bytes +
      (((ofOrigin o).feedAll (bytes o)).1.feed byte).2.isForced.toNat := by
  cases o with
  | console =>
    show Receiver.forcedLines _ (_ ++ [byte]) + Receiver.forcedLines _ (_ ++ []) = _
    rw [forcedLines_append, List.append_nil, Nat.add_right_comm]
    rfl
  | link =>
    show Receiver.forcedLines _ (_ ++ []) + Receiver.forcedLines _ (_ ++ [byte]) = _
    rw [forcedLines_append, List.append_nil, ← Nat.add_assoc]
    rfl

/-- The bytes of each origin since the receive side was new and its journal empty.  They made the
receivers what they are, and every line that they forced was noted. -/
structure Noted (b : Board) (bytes : Origin → Bytes) : Prop where
  receiver : ∀ o, b.inbox.receiver o = ((ofOrigin o).feedAll (bytes o)).1
  log : ∃ rs, b.receiveLog.Given rs ∧ (∀ r ∈ rs, r.TellsForced) ∧ rs.length = forcedLines bytes

/-- What changes neither a receiver nor the journal of the receive side is no matter. -/
theorem Noted.congr {b b' : Board} {bytes : Origin → Bytes} (h : b.Noted bytes)
    (hreceiver : ∀ o, b'.inbox.receiver o = b.inbox.receiver o)
    (hlog : b'.receiveLog = b.receiveLog) : b'.Noted bytes where
  receiver := fun o => (hreceiver o).trans (h.receiver o)
  log := by
    rw [hlog]
    exact h.log

theorem Noted.feed {b : Board} {bytes : Origin → Bytes} (h : b.Noted bytes) (o : Origin)
    (byte : UInt8) : (b.feed o byte).1.Noted fun o' => bytes o' ++ bytesOn o [byte] o' := by
  obtain ⟨rs, hgiven, htells, hlength⟩ := h.log
  refine ⟨?_, ?_⟩
  · obtain ⟨ms, hms⟩ := calls_feed b.inbox o byte
    intro o'
    rw [inbox_feed, hms.receiver, h.receiver, ← feedAll_append]
  · rw [receiveLog_feed, h.receiver, forcedLines_feed, ← hlength]
    by_cases hforced : (((ofOrigin o).feedAll (bytes o)).1.feed byte).2.isForced = true
    · rw [if_pos hforced, hforced]
      refine ⟨rs ++ [forcedRecord b.now o], hgiven.push ringSize_journalSize _ _ _ _, ?_, ?_⟩
      · intro r hr
        rcases List.mem_append.mp hr with hr | hr
        · exact htells r hr
        · rw [List.mem_singleton.mp hr]
          exact tellsForced_forcedRecord b.now o
      · rw [List.length_append]
        rfl
    · rw [if_neg hforced, Bool.eq_false_iff.mpr hforced]
      exact ⟨rs, hgiven, htells, rfl⟩

theorem Noted.receive {b : Board} {bytes : Origin → Bytes} (h : b.Noted bytes) (batch : Batch) :
    (b.receive batch).Noted fun o => bytes o ++ bytesIn batch o := by
  induction batch generalizing b bytes with
  | nil =>
    simp only [bytesIn, List.flatMap_nil, List.append_nil]
    exact h
  | cons fed batch ih =>
    have hrest := ih (h.feed fed.1 fed.2)
    simp only [List.append_assoc] at hrest
    exact hrest

/-- A token that is taken lets one batch arrive, if there is one. -/
theorem Noted.takeToken? {b next : Board} {bytes : Origin → Bytes} (h : b.Noted bytes)
    {arrivals rest : List Batch} (htake : b.takeToken? arrivals = some (next, rest)) :
    ∃ batches, arrivals = batches ++ rest ∧ next.Noted fun o => bytes o ++ arrived batches o := by
  unfold Board.takeToken? at htake
  split at htake
  · cases htake
  · next inbox htoken =>
    cases htake
    refine ⟨[], rfl, ?_⟩
    simp only [arrived, List.flatMap_nil, List.append_nil]
    exact h.congr (Inbox.receiver_acquire? htoken) rfl
  · next inbox batch rest' htoken =>
    cases htake
    have htaken : Noted { b with inbox := inbox } bytes := h.congr (Inbox.receiver_acquire? htoken) rfl
    have hbatch := htaken.receive batch
    refine ⟨[batch], rfl, ?_⟩
    simp only [arrived, List.flatMap_cons, List.flatMap_nil, List.append_nil]
    exact hbatch

/-- A wait notes what the batches that arrive meanwhile force. -/
theorem Noted.await {b : Board} {bytes : Origin → Bytes} (h : b.Noted bytes)
    (arrivals : List Batch) : ∃ batches, arrivals = batches ++ (b.await arrivals).arrivals ∧
      (b.await arrivals).board.Noted fun o => bytes o ++ arrived batches o := by
  have hcollect : ∀ {next : Board} {bytes : Origin → Bytes}, next.Noted bytes →
      next.collect.2.Noted bytes :=
    fun hnext => hnext.congr (fun o => Inbox.receiver_collect _ o) rfl
  fun_induction Board.await b arrivals generalizing bytes with
  | case1 b arrivals =>
    refine ⟨[], rfl, ?_⟩
    simp only [arrived, List.flatMap_nil, List.append_nil]
    exact h
  | case2 b arrivals next rest hnext parcel hparcel =>
    obtain ⟨batches, hbatches, hnoted⟩ := h.takeToken? hnext
    exact ⟨batches, hbatches, hcollect hnoted⟩
  | case3 b arrivals next rest hnext hnone _ ih =>
    obtain ⟨batches, hbatches, hnoted⟩ := h.takeToken? hnext
    obtain ⟨batches', hbatches', hlater⟩ := ih (hcollect hnoted)
    refine ⟨batches ++ batches', ?_, ?_⟩
    · rw [List.append_assoc, ← hbatches', hbatches]
    · simp only [List.append_assoc, ← arrived_append] at hlater
      exact hlater

end Board

end SerialConsole
