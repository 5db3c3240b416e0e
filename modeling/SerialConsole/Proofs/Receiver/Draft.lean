import SerialConsole.Receiver

/-!
# Drafts

A draft is what the bytes of one serial line come to when nothing is known of cells, cursors or
places that change: the bytes of the line in progress, the bytes of the line that was completed
last, and the two counts.  A receiver shows its draft after every byte, whatever older bytes its
cells still hold:

    (r.feed b).1.draft = (r.draft.feed r.keepsLineFeed b).1      (draft_feed)
    (r.feed b).2       = (r.draft.feed r.keepsLineFeed b).2      (event_feed)

Over any run of bytes a fresh receiver reports the events of its draft, and the cell right after
its ready line holds the terminator (`Ready`).
-/

namespace SerialConsole

open Settings

/-- A line feed is kept on the link only. -/
def Origin.keepsLineFeed : Origin → Bool
  | console => false
  | link => true

/-- What the bytes of a serial line come to. -/
structure Draft where
  pending : Bytes
  last : Bytes
  completed : UInt32
  forced : UInt32
  deriving Repr, DecidableEq

namespace Draft

def blank : Draft := ⟨[], [], 0, 0⟩

/-- The line in progress becomes the last one. -/
def finish (d : Draft) (forced : Bool) : Draft :=
  ⟨[], d.pending, d.completed + 1, if forced then d.forced + 1 else d.forced⟩

/-- One byte.  A byte that meets a full line completes it and is lost. -/
def feed (keepsLineFeed : Bool) (d : Draft) (b : UInt8) : Draft × Receiver.Event :=
  if keepsLineFeed = false ∧ b = Receiver.lineFeed then (d, .ignored)
  else if b = Receiver.carriageReturn ∨ d.pending.length = maxChars then
    let forced : Bool := b ≠ Receiver.carriageReturn
    (d.finish forced, .completed d.pending.length forced)
  else if b = Receiver.backspace then ({ d with pending := d.pending.dropLast }, .erased)
  else ({ d with pending := d.pending ++ [b] }, .stored)

def feedAll (keepsLineFeed : Bool) (d : Draft) : Bytes → Draft × List Receiver.Event
  | [] => (d, [])
  | b :: bs =>
    let rest := (d.feed keepsLineFeed b).1.feedAll keepsLineFeed bs
    (rest.1, (d.feed keepsLineFeed b).2 :: rest.2)

end Draft

/-- The byte completes the line in progress. -/
def Draft.Ends (keepsLineFeed : Bool) (d : Draft) (b : UInt8) : Prop :=
  ¬ (keepsLineFeed = false ∧ b = Receiver.lineFeed) ∧
    (b = Receiver.carriageReturn ∨ d.pending.length = maxChars)

instance (keepsLineFeed : Bool) (d : Draft) (b : UInt8) : Decidable (d.Ends keepsLineFeed b) :=
  inferInstanceAs (Decidable (_ ∧ _))

theorem Draft.isCompleted_feed (keepsLineFeed : Bool) (d : Draft) (b : UInt8) :
    (d.feed keepsLineFeed b).2.isCompleted = true ↔ d.Ends keepsLineFeed b := by
  unfold Draft.feed Draft.Ends
  split
  · next h => simp [h, Receiver.Event.isCompleted]
  · next h =>
    split
    · next hend => exact ⟨fun _ => ⟨h, hend⟩, fun _ => rfl⟩
    · next hend =>
      refine ⟨fun he => ?_, fun he => absurd he.2 hend⟩
      split at he <;> cases he

namespace Receiver

def feedAll (r : Receiver) : Bytes → Receiver × List Event
  | [] => (r, [])
  | b :: bs =>
    let rest := (r.feed b).1.feedAll bs
    (rest.1, (r.feed b).2 :: rest.2)

/-- What a receiver shows, its cells left aside. -/
def draft (r : Receiver) : Draft := ⟨r.pending, r.latest, r.completed, r.forced⟩

/-- The ready line is terminated. -/
def Ready (r : Receiver) : Prop := r.ready.bytesThroughCursor = r.latest ++ [0]

instance (r : Receiver) : Decidable r.Ready := inferInstanceAs (Decidable (_ = _))

theorem ofOrigin_eq_fresh (o : Origin) : ofOrigin o = fresh o.keepsLineFeed := by
  cases o <;> rfl

theorem length_pending (r : Receiver) : r.pending.length = r.filling.used :=
  Row.length_bytes r.filling

theorem length_pending_le (r : Receiver) : r.pending.length ≤ maxChars := by
  rw [length_pending]
  exact r.filling.used_le

theorem length_latest_le (r : Receiver) : r.latest.length ≤ maxChars := by
  rw [latest, Row.length_bytes]
  exact r.ready.used_le

theorem isFull_filling_iff (r : Receiver) :
    r.filling.isFull = true ↔ r.pending.length = maxChars := by
  have hle := r.length_pending_le
  rw [Row.isFull_iff, ← length_pending]
  omega

@[simp] theorem draft_fresh (keepsLineFeed : Bool) : (fresh keepsLineFeed).draft = .blank := by
  simp [draft, fresh, pending, latest, Line.empty, Draft.blank]

theorem draft_complete (r : Receiver) (forced : Bool) :
    (r.complete forced).draft = r.draft.finish forced := by
  simp [draft, complete, pending, latest, Draft.finish]

theorem pending_push (r : Receiver) (b : UInt8) (hroom : r.filling.isFull = false) :
    (r.filling.push b).bytes = r.pending ++ [b] := by
  have hlt : r.filling.used < maxChars := by
    refine Nat.lt_of_not_le fun hle => ?_
    rw [Row.isFull_iff.mpr hle] at hroom
    cases hroom
  rw [Row.bytes_push, List.take_of_length_le]
  · rfl
  · simp only [List.length_singleton]
    omega

/-! ## One byte -/

/-- What a byte can do to a receiver; the four cases are told apart by the draft alone. -/
theorem feed_cases (r : Receiver) (b : UInt8) :
    (r.keepsLineFeed = false ∧ b = lineFeed ∧ r.feed b = (r, .ignored)) ∨
    (¬ (r.keepsLineFeed = false ∧ b = lineFeed) ∧
      (b = carriageReturn ∨ r.pending.length = maxChars) ∧
      r.feed b = (r.complete (b ≠ carriageReturn),
        .completed r.pending.length (b ≠ carriageReturn))) ∨
    (¬ (r.keepsLineFeed = false ∧ b = lineFeed) ∧
      ¬ (b = carriageReturn ∨ r.pending.length = maxChars) ∧ b = backspace ∧
      r.feed b = ({ r with filling := r.filling.erase }, .erased)) ∨
    (¬ (r.keepsLineFeed = false ∧ b = lineFeed) ∧
      ¬ (b = carriageReturn ∨ r.pending.length = maxChars) ∧ b ≠ backspace ∧
      r.feed b = ({ r with filling := r.filling.push b }, .stored)) := by
  have hlf : (!r.keepsLineFeed && b == lineFeed) = true ↔
      r.keepsLineFeed = false ∧ b = lineFeed := by
    simp
  have hend : (b == carriageReturn || r.filling.isFull) = true ↔
      b = carriageReturn ∨ r.pending.length = maxChars := by
    rw [Bool.or_eq_true, beq_iff_eq, isFull_filling_iff]
  unfold feed
  split
  · next h =>
    obtain ⟨hk, hb⟩ := hlf.mp h
    exact Or.inl ⟨hk, hb, rfl⟩
  · next h1 =>
    refine Or.inr ?_
    rw [hlf] at h1
    split
    · next h =>
      have hforced : (b != carriageReturn) = decide (b ≠ carriageReturn) := by
        rw [Bool.eq_iff_iff, bne_iff_ne, decide_eq_true_iff]
      refine Or.inl ⟨h1, hend.mp h, ?_⟩
      simp only [length_pending, hforced]
    · next h2 =>
      refine Or.inr ?_
      rw [hend] at h2
      split
      · next h => exact Or.inl ⟨h1, h2, beq_iff_eq.mp h, rfl⟩
      · next h => exact Or.inr ⟨h1, h2, fun hb => h (beq_iff_eq.mpr hb), rfl⟩

/-- A receiver does to its draft what the draft does by itself, and reports the same. -/
theorem feed_eq_draft (r : Receiver) (b : UInt8) :
    (r.feed b).1.draft = (r.draft.feed r.keepsLineFeed b).1 ∧
      (r.feed b).2 = (r.draft.feed r.keepsLineFeed b).2 := by
  have hpending : r.draft.pending = r.pending := rfl
  unfold Draft.feed
  rw [hpending]
  rcases r.feed_cases b with ⟨hk, hb, h⟩ | ⟨hlf, hend, h⟩ | ⟨hlf, hend, hb, h⟩ | ⟨hlf, hend, hb, h⟩
  · rw [h, if_pos ⟨hk, hb⟩]
    exact ⟨rfl, rfl⟩
  · rw [h, if_neg hlf, if_pos hend]
    exact ⟨draft_complete r _, rfl⟩
  · rw [h, if_neg hlf, if_neg hend, if_pos hb]
    refine ⟨?_, rfl⟩
    simp only [draft, pending, Row.bytes_erase, latest]
  · rw [h, if_neg hlf, if_neg hend, if_neg hb]
    refine ⟨?_, rfl⟩
    have hroom : r.filling.isFull = false := by
      rw [← Bool.not_eq_true, isFull_filling_iff]
      exact fun hlen => hend (Or.inr hlen)
    show Draft.mk _ _ _ _ = Draft.mk _ _ _ _
    congr 1
    exact r.pending_push b hroom

theorem draft_feed (r : Receiver) (b : UInt8) :
    (r.feed b).1.draft = (r.draft.feed r.keepsLineFeed b).1 := (r.feed_eq_draft b).1

theorem event_feed (r : Receiver) (b : UInt8) :
    (r.feed b).2 = (r.draft.feed r.keepsLineFeed b).2 := (r.feed_eq_draft b).2

theorem keepsLineFeed_feed (r : Receiver) (b : UInt8) :
    (r.feed b).1.keepsLineFeed = r.keepsLineFeed := by
  rcases r.feed_cases b with ⟨-, -, h⟩ | ⟨-, -, h⟩ | ⟨-, -, -, h⟩ | ⟨-, -, -, h⟩
  · rw [h]
  · rw [h]
    rfl
  · rw [h]
  · rw [h]

/-- Only a byte that completes a line changes the ready line, and that byte terminates it. -/
theorem ready_feed {r : Receiver} (hready : r.Ready) (b : UInt8) : (r.feed b).1.Ready := by
  rcases r.feed_cases b with ⟨-, -, h⟩ | ⟨-, -, h⟩ | ⟨-, -, -, h⟩ | ⟨-, -, -, h⟩
  · rw [h]
    exact hready
  · rw [h]
    show r.filling.terminate.bytesThroughCursor = r.filling.terminate.bytes ++ [0]
    rw [Row.bytesThroughCursor_terminate _ Nat.one_pos, Row.bytes_terminate]
  · rw [h]
    exact hready
  · rw [h]
    exact hready

/-- Only a byte that completes a line changes the latest line, to what was pending. -/
theorem latest_feed (r : Receiver) (b : UInt8) :
    (r.feed b).1.latest = if (r.feed b).2.isCompleted then r.pending else r.latest := by
  rcases r.feed_cases b with ⟨-, -, h⟩ | ⟨-, -, h⟩ | ⟨-, -, -, h⟩ | ⟨-, -, -, h⟩
  · rw [h]
    rfl
  · rw [h]
    exact Row.bytes_terminate r.filling
  · rw [h]
    rfl
  · rw [h]
    rfl

/-! ## Runs of bytes -/

theorem feedAll_append (r : Receiver) (bs cs : Bytes) :
    (r.feedAll (bs ++ cs)).1 = ((r.feedAll bs).1.feedAll cs).1 := by
  induction bs generalizing r with
  | nil => rfl
  | cons b bs ih => exact ih (r.feed b).1

theorem events_feedAll_append (r : Receiver) (bs cs : Bytes) :
    (r.feedAll (bs ++ cs)).2 = (r.feedAll bs).2 ++ ((r.feedAll bs).1.feedAll cs).2 := by
  induction bs generalizing r with
  | nil => rfl
  | cons b bs ih =>
    rw [List.cons_append, feedAll, feedAll, ih]
    rfl

theorem feedAll_eq_draft (r : Receiver) (bs : Bytes) :
    (r.feedAll bs).1.draft = (r.draft.feedAll r.keepsLineFeed bs).1 ∧
      (r.feedAll bs).2 = (r.draft.feedAll r.keepsLineFeed bs).2 := by
  induction bs generalizing r with
  | nil => exact ⟨rfl, rfl⟩
  | cons b bs ih =>
    obtain ⟨hdraft, hevents⟩ := ih (r.feed b).1
    rw [draft_feed, keepsLineFeed_feed] at hdraft hevents
    refine ⟨hdraft, ?_⟩
    simp only [feedAll, Draft.feedAll, hevents, event_feed]

theorem keepsLineFeed_feedAll (r : Receiver) (bs : Bytes) :
    (r.feedAll bs).1.keepsLineFeed = r.keepsLineFeed := by
  induction bs generalizing r with
  | nil => rfl
  | cons b bs ih => exact (ih (r.feed b).1).trans (keepsLineFeed_feed r b)

theorem ready_feedAll {r : Receiver} (hready : r.Ready) (bs : Bytes) : (r.feedAll bs).1.Ready := by
  induction bs generalizing r with
  | nil => exact hready
  | cons b bs ih => exact ih (ready_feed hready b)

theorem ready_fresh (keepsLineFeed : Bool) : (fresh keepsLineFeed).Ready := by
  cases keepsLineFeed <;> decide

/-- Everything that can be asked of a receiver is as a draft says. -/
structure Shows (r : Receiver) (d : Draft) : Prop where
  pending : r.pending = d.pending
  used : r.filling.used = d.pending.length
  used_le : r.filling.used ≤ maxChars
  /-- Copying the ready line into any line gives the last line, the whole of it. -/
  copied : ∀ l : Line, (l.assign r.latest).bytes = d.last
  terminated : r.ready.bytesThroughCursor = d.last ++ [0]
  completed : r.completed = d.completed
  forced : r.forced = d.forced

theorem shows_draft {r : Receiver} (hready : r.Ready) : r.Shows r.draft where
  pending := rfl
  used := r.length_pending.symm
  used_le := r.filling.used_le
  copied := by
    intro l
    rw [Line.bytes_assign, List.take_of_length_le r.length_latest_le]
    rfl
  terminated := hready
  completed := rfl
  forced := rfl

/-- **A receiver is its draft.**  Whatever bytes arrive on either serial line, a fresh receiver
reports for each of them what the draft reports, and shows afterwards what the draft shows. -/
theorem feedAll_ofOrigin_shows (o : Origin) (bs : Bytes) :
    ((ofOrigin o).feedAll bs).2 = (Draft.blank.feedAll o.keepsLineFeed bs).2 ∧
      ((ofOrigin o).feedAll bs).1.Shows (Draft.blank.feedAll o.keepsLineFeed bs).1 := by
  rw [ofOrigin_eq_fresh]
  obtain ⟨hdraft, hevents⟩ := (fresh o.keepsLineFeed).feedAll_eq_draft bs
  rw [draft_fresh] at hdraft hevents
  refine ⟨hevents, ?_⟩
  have hshows := shows_draft (ready_feedAll (ready_fresh o.keepsLineFeed) bs)
  rw [hdraft] at hshows
  exact hshows

end Receiver

end SerialConsole
