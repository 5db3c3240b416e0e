import SerialConsole.Receiver
import SerialConsole.Semaphore

/-!
# The inbox

The inbox is what the two receivers and the one reader of lines share.  A byte that completes a line
publishes the origin of that line in the same step, and then the semaphore is released.  The reader
takes the token first and then collects what is published, the origin and its ready line at once.
A line that nobody collected is superseded by the next one, and its token then finds nothing.

    (i.deposit o b).1.published = some o     if b completes a line
    i.collect = (some ⟨o, (i.receiver o).latest⟩, { i with published := none })
                                             if i.published = some o
-/

namespace SerialConsole

/-- A line handed out to the reader. -/
structure Parcel where
  /-- Where the line came from. -/
  origin : Origin
  /-- Its bytes. -/
  bytes : Bytes
  deriving Repr, DecidableEq

/-- Two receivers, a semaphore and the origin of the line that is to be collected. -/
structure Inbox where
  semaphore : Semaphore
  /-- The origin of the last completed line, until it is collected. -/
  published : Option Origin
  console : Receiver
  link : Receiver

namespace Inbox

/-- An inbox that got no byte yet. -/
def empty : Inbox := ⟨.drained, none, .ofOrigin .console, .ofOrigin .link⟩

/-- The receiver of an origin. -/
def receiver (i : Inbox) : Origin → Receiver
  | .console => i.console
  | .link => i.link

/-- Replaces the receiver of an origin. -/
def withReceiver (i : Inbox) (r : Receiver) : Origin → Inbox
  | .console => { i with console := r }
  | .link => { i with link := r }

/-- Takes in one byte; if it completes a line, the line is published in the same step. -/
def deposit (i : Inbox) (o : Origin) (b : UInt8) : Inbox × Receiver.Event :=
  match (i.receiver o).feed b with
  | (r, .completed len forced) =>
    ({ i.withReceiver r o with published := some o }, .completed len forced)
  | (r, event) => (i.withReceiver r o, event)

/-- Makes the token available. -/
def release (i : Inbox) : Inbox := { i with semaphore := i.semaphore.release }

/-- Takes in one byte and makes the token available if it completed a line. -/
def feed (i : Inbox) (o : Origin) (b : UInt8) : Inbox × Receiver.Event :=
  match i.deposit o b with
  | (i, .completed len forced) => (i.release, .completed len forced)
  | (i, event) => (i, event)

/-- Takes the token, if it is there. -/
def acquire? (i : Inbox) : Option Inbox :=
  i.semaphore.acquire?.map fun s => { i with semaphore := s }

/-- Collects the published line, if there is one; it is published no longer. -/
def collect (i : Inbox) : Option Parcel × Inbox :=
  match i.published with
  | some o => (some ⟨o, (i.receiver o).latest⟩, { i with published := none })
  | none => (none, i)

/-! ## What each step changes -/

@[simp] theorem receiver_withReceiver (i : Inbox) (r : Receiver) (o : Origin) :
    (i.withReceiver r o).receiver o = r := by
  cases o <;> rfl

theorem receiver_withReceiver_of_ne (i : Inbox) (r : Receiver) {o o' : Origin} (hne : o' ≠ o) :
    (i.withReceiver r o).receiver o' = i.receiver o' := by
  cases o <;> cases o' <;> first | rfl | exact absurd rfl hne

@[simp] theorem published_withReceiver (i : Inbox) (r : Receiver) (o : Origin) :
    (i.withReceiver r o).published = i.published := by
  cases o <;> rfl

@[simp] theorem semaphore_withReceiver (i : Inbox) (r : Receiver) (o : Origin) :
    (i.withReceiver r o).semaphore = i.semaphore := by
  cases o <;> rfl

@[simp] theorem withReceiver_receiver (i : Inbox) (o : Origin) :
    i.withReceiver (i.receiver o) o = i := by
  cases o <;> rfl

@[simp] theorem withReceiver_withReceiver (i : Inbox) (r r' : Receiver) (o : Origin) :
    (i.withReceiver r o).withReceiver r' o = i.withReceiver r' o := by
  cases o <;> rfl

theorem event_deposit (i : Inbox) (o : Origin) (b : UInt8) :
    (i.deposit o b).2 = ((i.receiver o).feed b).2 := by
  unfold deposit
  split
  · next h => rw [h]
  · next h => rw [h]

/-- A byte that completes a line publishes its origin; any other leaves the mailbox alone. -/
theorem published_deposit (i : Inbox) (o : Origin) (b : UInt8) :
    (i.deposit o b).1.published =
      if ((i.receiver o).feed b).2.isCompleted then some o else i.published := by
  unfold deposit
  split
  · next h => simp [h, Receiver.Event.isCompleted]
  · next r event hne h =>
    have hno : event.isCompleted = false := by
      cases event with
      | completed len forced => exact absurd rfl (hne len forced)
      | _ => rfl
    simp [h, hno]

theorem receiver_deposit (i : Inbox) (o : Origin) (b : UInt8) :
    (i.deposit o b).1.receiver o = ((i.receiver o).feed b).1 := by
  unfold deposit
  split
  · next h =>
    rw [h]
    exact receiver_withReceiver i _ o
  · next h =>
    rw [h]
    exact receiver_withReceiver i _ o

/-- A byte of one origin leaves the receiver of the other alone. -/
theorem receiver_deposit_of_ne (i : Inbox) {o o' : Origin} (b : UInt8) (hne : o' ≠ o) :
    (i.deposit o b).1.receiver o' = i.receiver o' := by
  unfold deposit
  split <;> exact receiver_withReceiver_of_ne i _ hne

@[simp] theorem semaphore_deposit (i : Inbox) (o : Origin) (b : UInt8) :
    (i.deposit o b).1.semaphore = i.semaphore := by
  unfold deposit
  split <;> exact semaphore_withReceiver i _ o

/-- Feeding a byte deposits it, and then releases the token if the byte completed a line. -/
theorem feed_eq_deposit (i : Inbox) (o : Origin) (b : UInt8) :
    i.feed o b = (if (i.deposit o b).2.isCompleted then (i.deposit o b).1.release
      else (i.deposit o b).1, (i.deposit o b).2) := by
  unfold feed
  split
  · next h => simp [h, Receiver.Event.isCompleted]
  · next j event hne h =>
    have hno : event.isCompleted = false := by
      cases event with
      | completed len forced => exact absurd rfl (hne len forced)
      | _ => rfl
    simp [h, hno]

/-- A byte that completes no line changes nothing but the receiver. -/
theorem feed_of_not_completed (i : Inbox) (o : Origin) (b : UInt8)
    (h : ((i.receiver o).feed b).2.isCompleted = false) :
    i.feed o b = (i.withReceiver ((i.receiver o).feed b).1 o, ((i.receiver o).feed b).2) := by
  have hdeposit : i.deposit o b =
      (i.withReceiver ((i.receiver o).feed b).1 o, ((i.receiver o).feed b).2) := by
    unfold deposit
    split
    · next hfeed =>
      rw [hfeed] at h
      cases h
    · next hfeed => rw [hfeed]
  rw [feed_eq_deposit, hdeposit, if_neg (Bool.eq_false_iff.mp h)]

@[simp] theorem receiver_release (i : Inbox) (o : Origin) :
    i.release.receiver o = i.receiver o := by
  cases o <;> rfl

/-- Taking the token changes nothing but the token. -/
theorem acquire?_eq (i : Inbox) :
    i.acquire? = if i.semaphore.available then some { i with semaphore := .drained } else none := by
  unfold acquire? Semaphore.acquire?
  split <;> rfl

theorem receiver_acquire? {i j : Inbox} (h : i.acquire? = some j) (o : Origin) :
    j.receiver o = i.receiver o := by
  rw [acquire?_eq] at h
  split at h
  · cases h
    cases o <;> rfl
  · cases h

@[simp] theorem receiver_acquire?_getD (i : Inbox) (o : Origin) :
    (i.acquire?.getD i).receiver o = i.receiver o := by
  cases h : i.acquire? with
  | none => rfl
  | some j => exact receiver_acquire? h o

@[simp] theorem receiver_collect (i : Inbox) (o : Origin) :
    i.collect.2.receiver o = i.receiver o := by
  unfold collect
  split <;> cases o <;> rfl

@[simp] theorem published_collect (i : Inbox) : i.collect.2.published = none := by
  unfold collect
  split
  · rfl
  · assumption

theorem collect_fst (i : Inbox) :
    i.collect.1 = i.published.map fun o => ⟨o, (i.receiver o).latest⟩ := by
  unfold collect
  split
  · next hp => rw [hp]; rfl
  · next hp => rw [hp]; rfl

/-- What is collected depends on the mailbox and on the latest lines only. -/
theorem collect_congr {i j : Inbox} (hpublished : j.published = i.published)
    (hlatest : ∀ o, (j.receiver o).latest = (i.receiver o).latest) :
    j.collect.1 = i.collect.1 := by
  rw [collect_fst, collect_fst, hpublished]
  congr 1
  funext o
  rw [hlatest]

/-- Collecting leaves the token alone. -/
@[simp] theorem semaphore_collect (i : Inbox) : i.collect.2.semaphore = i.semaphore := by
  unfold collect
  split <;> rfl

end Inbox

end SerialConsole
