import SerialConsole.Board

/-!
# Handing lines to the reader

The reader waits for the token of the inbox and then collects a line.  A token may find nothing to
collect, for example when an earlier token already led to that line; then the reader waits again.

Bytes may arrive while the reader is at work, from both origins in any order.  They are given in
batches, and the oldest batch arrives right after a token was taken.  So each round of waiting uses up a token, and only a batch
can bring a new one; the wait comes to an end after at most one round more than there are batches.
-/

namespace SerialConsole

/-- Bytes that arrive one after the other, each from its own origin. -/
abbrev Batch := List (Origin × UInt8)

/-- Bytes of one origin. -/
def Batch.ofOrigin (o : Origin) (bytes : Bytes) : Batch := bytes.map fun byte => (o, byte)

/-- What a wait for a line comes to: a line, or none when there is no token left to take. -/
structure Delivery where
  parcel : Option Parcel
  board : Board
  /-- The batches that did not arrive yet. -/
  arrivals : List Batch

namespace Board

/-- Takes in a batch. -/
def receive (b : Board) : Batch → Board
  | [] => b
  | (o, byte) :: batch => (b.feed o byte).1.receive batch

theorem receive_ofOrigin (b : Board) (o : Origin) (bytes : Bytes) :
    b.receive (.ofOrigin o bytes) = (b.feedAll o bytes).1 := by
  induction bytes generalizing b with
  | nil => rfl
  | cons byte bytes ih => exact ih (b.feed o byte).1

/-- Takes the token, if it is there; the oldest batch arrives right after. -/
def takeToken? (b : Board) (arrivals : List Batch) : Option (Board × List Batch) :=
  match b.inbox.acquire?, arrivals with
  | none, _ => none
  | some inbox, [] => some ({ b with inbox := inbox }, [])
  | some inbox, batch :: rest => some ({ b with inbox := inbox }.receive batch, rest)

/-- Collects the published line, if there is one. -/
def collect (b : Board) : Option Parcel × Board :=
  (b.inbox.collect.1, { b with inbox := b.inbox.collect.2 })

/-- The rounds of waiting that are still possible. -/
def rounds (b : Board) (arrivals : List Batch) : Nat :=
  arrivals.length + b.inbox.semaphore.available.toNat

theorem available_of_takeToken? {b next : Board} {arrivals rest : List Batch}
    (h : b.takeToken? arrivals = some (next, rest)) : b.inbox.semaphore.available = true := by
  cases ht : b.inbox.semaphore.available with
  | true => rfl
  | false => simp [takeToken?, Inbox.acquire?, Semaphore.acquire?, ht] at h

theorem rounds_lt_of_takeToken? {b next : Board} {arrivals rest : List Batch}
    (h : b.takeToken? arrivals = some (next, rest)) : next.rounds rest < b.rounds arrivals := by
  have ht := available_of_takeToken? h
  cases arrivals with
  | nil =>
    simp only [takeToken?, Inbox.acquire?, Semaphore.acquire?, ht, if_true, Option.map_some,
      Option.some.injEq, Prod.mk.injEq] at h
    obtain ⟨rfl, rfl⟩ := h
    simp [rounds, ht, Semaphore.drained]
  | cons batch arrivals =>
    simp only [takeToken?, Inbox.acquire?, Semaphore.acquire?, ht, if_true, Option.map_some,
      Option.some.injEq, Prod.mk.injEq] at h
    obtain ⟨-, rfl⟩ := h
    have hle := Bool.toNat_le next.inbox.semaphore.available
    simp only [rounds, ht, Bool.toNat_true, List.length_cons]
    omega

theorem rounds_collect (b : Board) (arrivals : List Batch) :
    b.collect.2.rounds arrivals = b.rounds arrivals := by
  simp [rounds, collect]

/-- Waits until a line can be collected, or there is no token left to take. -/
def await (b : Board) (arrivals : List Batch) : Delivery :=
  match h : b.takeToken? arrivals with
  | none => ⟨none, b, arrivals⟩
  | some (next, rest) =>
    match next.collect.1 with
    | some parcel => ⟨some parcel, next.collect.2, rest⟩
    | none =>
      have := rounds_lt_of_takeToken? h
      next.collect.2.await rest
termination_by b.rounds arrivals
decreasing_by
  rw [rounds_collect]
  assumption

/-- A wait ends where there is no token. -/
theorem await_of_no_token {b : Board} {arrivals : List Batch} (h : b.takeToken? arrivals = none) :
    b.await arrivals = ⟨none, b, arrivals⟩ := by
  rw [await]
  split
  · rfl
  · next h' =>
    rw [h] at h'
    cases h'

/-- A wait that takes the token comes to what is collected then, or goes on. -/
theorem await_of_token {b next : Board} {arrivals rest : List Batch}
    (h : b.takeToken? arrivals = some (next, rest)) :
    b.await arrivals = next.collect.1.elim (next.collect.2.await rest)
      fun parcel => ⟨some parcel, next.collect.2, rest⟩ := by
  rw [await]
  split
  · next h' =>
    rw [h] at h'
    cases h'
  · next h' =>
    rw [h] at h'
    cases h'
    cases next.collect.1 <;> rfl

/-- A wait that comes to a line used up a round. -/
theorem rounds_await_lt {b : Board} {arrivals : List Batch} {p : Parcel}
    (h : (b.await arrivals).parcel = some p) :
    (b.await arrivals).board.rounds (b.await arrivals).arrivals < b.rounds arrivals := by
  fun_induction await b arrivals with
  | case1 => cases h
  | case2 b arrivals next rest hnext parcel hparcel =>
    simp only [rounds_collect]
    exact rounds_lt_of_takeToken? hnext
  | case3 b arrivals next rest hnext hparcel hlt ih =>
    have := ih h
    rw [rounds_collect] at this
    omega

end Board

end SerialConsole
