import SerialConsole.Proofs.Handoff.Moves

/-!
# Feeds and waits as moves

Each call on the inbox is a list of moves.  A feed is a deposit, and a release if it completed a
line; a batch is one feed after the other, whatever the origins of its bytes are; a wait takes the
token, takes in the oldest batch, collects, and starts over as long as it finds a token and no line.
Such a list ends where the call ends, hands out what the call returns, brings the bytes that arrived
during the call, and leaves no feed and no wait unfinished:

    Calls i j bytes parcels ms
-/

namespace SerialConsole

namespace Handoff

/-- The moves `ms` are a call that finds the inbox `i` and leaves it as `j`, takes in `bytes` and
hands out `parcels`, whatever other calls are under way. -/
structure Calls (i j : Inbox) (bytes : Origin → Bytes) (parcels : List Parcel) (ms : List Move) :
    Prop where
  typed : ∀ o, typed o ms = bytes o
  run : ∀ owed holding, run ⟨i, owed, holding⟩ ms = ⟨j, owed, holding⟩
  given : ∀ owed holding, given ⟨i, owed, holding⟩ ms = parcels

theorem Calls.none (i : Inbox) : Calls i i (fun _ => []) [] [] :=
  ⟨fun _ => rfl, fun _ _ => rfl, fun _ _ => rfl⟩

/-- One call after the other. -/
theorem Calls.trans {i j k : Inbox} {bytes bytes' : Origin → Bytes} {ps qs : List Parcel}
    {ms ns : List Move} (h : Calls i j bytes ps ms) (h' : Calls j k bytes' qs ns) :
    Calls i k (fun o => bytes o ++ bytes' o) (ps ++ qs) (ms ++ ns) where
  typed := by
    intro o
    rw [typed_append, h.typed, h'.typed]
  run := by
    intro owed holding
    rw [run_append, h.run, h'.run]
  given := by
    intro owed holding
    rw [given_append, h.given, h.run, h'.given]

/-- A call does to a receiver what the bytes that arrive meanwhile do. -/
theorem Calls.receiver {i j : Inbox} {bytes : Origin → Bytes} {ps : List Parcel} {ms : List Move}
    (h : Calls i j bytes ps ms) (o : Origin) :
    j.receiver o = ((i.receiver o).feedAll (bytes o)).1 := by
  have hrun := receiver_run ⟨i, 0, 0⟩ ms o
  rw [h.run, h.typed] at hrun
  exact hrun

/-- The bytes of an origin when `bs` arrive on `o`. -/
def bytesOn (o : Origin) (bs : Bytes) (o' : Origin) : Bytes := if o = o' then bs else []

theorem bytesOn_nil (o o' : Origin) : bytesOn o [] o' = [] := ite_self []

theorem bytesOn_cons (o : Origin) (b : UInt8) (bs : Bytes) (o' : Origin) :
    bytesOn o (b :: bs) o' = bytesOn o [b] o' ++ bytesOn o bs o' := by
  unfold bytesOn
  split <;> rfl

theorem calls_feed (i : Inbox) (o : Origin) (b : UInt8) :
    ∃ ms, Calls i (i.feed o b).1 (bytesOn o [b]) [] ms := by
  rw [Inbox.feed_eq_deposit]
  cases hc : (i.deposit o b).2.isCompleted with
  | true =>
    refine ⟨[.deposit o b, .release], ?_, ?_, fun _ _ => rfl⟩
    · intro o'
      simp [typed, Move.typed, bytesOn]
    · intro owed holding
      simp [run, after, hc]
  | false =>
    refine ⟨[.deposit o b], ?_, ?_, fun _ _ => rfl⟩
    · intro o'
      simp [typed, Move.typed, bytesOn]
    · intro owed holding
      simp [run, after, hc]

theorem inbox_feed (b : Board) (o : Origin) (byte : UInt8) :
    (b.feed o byte).1.inbox = (b.inbox.feed o byte).1 := by
  unfold Board.feed
  split
  · next h => rw [h]; rfl
  · next h => rw [h]

/-- The bytes of an origin in a batch. -/
def bytesIn (batch : Batch) (o : Origin) : Bytes :=
  batch.flatMap fun fed => bytesOn fed.1 [fed.2] o

theorem bytesIn_ofOrigin (o : Origin) (bs : Bytes) (o' : Origin) :
    bytesIn (.ofOrigin o bs) o' = bytesOn o bs o' := by
  induction bs with
  | nil => exact (bytesOn_nil o o').symm
  | cons byte bs ih =>
    rw [bytesOn_cons, ← ih]
    rfl

/-- A batch is taken in byte by byte, whatever the origins of the bytes are. -/
theorem calls_receive (b : Board) (batch : Batch) :
    ∃ ms, Calls b.inbox (b.receive batch).inbox (bytesIn batch) [] ms := by
  induction batch generalizing b with
  | nil => exact ⟨[], Calls.none _⟩
  | cons fed batch ih =>
    obtain ⟨ms, hms⟩ := calls_feed b.inbox fed.1 fed.2
    obtain ⟨ns, hns⟩ := ih (b.feed fed.1 fed.2).1
    rw [inbox_feed] at hns
    exact ⟨ms ++ ns, hms.trans hns⟩

theorem calls_feedAll (b : Board) (o : Origin) (bs : Bytes) :
    ∃ ms, Calls b.inbox (b.feedAll o bs).1.inbox (bytesOn o bs) [] ms := by
  have hbytes : bytesIn (.ofOrigin o bs) = bytesOn o bs := funext (bytesIn_ofOrigin o bs)
  rw [← Board.receive_ofOrigin, ← hbytes]
  exact calls_receive b (.ofOrigin o bs)

/-- The bytes of an origin among some batches. -/
def arrived (batches : List Batch) (o : Origin) : Bytes :=
  batches.flatMap fun batch => bytesIn batch o

theorem arrived_append (batches batches' : List Batch) (o : Origin) :
    arrived (batches ++ batches') o = arrived batches o ++ arrived batches' o :=
  List.flatMap_append

/-- Taking the token is a move of the reader, who then has still to collect; the oldest batch, if
any, is a call of its own. -/
theorem moves_of_takeToken? {b next : Board} {arrivals rest : List Batch}
    (h : b.takeToken? arrivals = some (next, rest)) :
    ∃ batches ms, arrivals = batches ++ rest ∧ (∀ o, typed o ms = arrived batches o) ∧
      ∀ owed holding, run ⟨b.inbox, owed, holding⟩ ms = ⟨next.inbox, owed, holding + 1⟩ ∧
        given ⟨b.inbox, owed, holding⟩ ms = [] := by
  have htoken := Board.available_of_takeToken? h
  have hacquire : b.inbox.acquire? = some { b.inbox with semaphore := .drained } := by
    rw [Inbox.acquire?_eq, if_pos htoken]
  have hafter : ∀ owed holding, after ⟨b.inbox, owed, holding⟩ .acquire =
      ⟨{ b.inbox with semaphore := .drained }, owed, holding + 1⟩ := by
    intro owed holding
    simp only [after, hacquire]
  cases arrivals with
  | nil =>
    simp only [Board.takeToken?, hacquire, Option.some.injEq, Prod.mk.injEq] at h
    obtain ⟨rfl, rfl⟩ := h
    exact ⟨[], [.acquire], rfl, fun _ => rfl, fun owed holding => ⟨hafter owed holding, rfl⟩⟩
  | cons batch arrivals =>
    simp only [Board.takeToken?, hacquire, Option.some.injEq, Prod.mk.injEq] at h
    obtain ⟨rfl, rfl⟩ := h
    obtain ⟨ms, hms⟩ := calls_receive { b with inbox := { b.inbox with semaphore := .drained } } batch
    refine ⟨[batch], .acquire :: ms, rfl, ?_, ?_⟩
    · intro o
      show typed o ms = bytesIn batch o ++ []
      rw [hms.typed, List.append_nil]
    · intro owed holding
      refine ⟨?_, ?_⟩
      · show run (after ⟨b.inbox, owed, holding⟩ .acquire) ms = _
        rw [hafter]
        exact hms.run owed (holding + 1)
      · show given (after ⟨b.inbox, owed, holding⟩ .acquire) ms = []
        rw [hafter]
        exact hms.given owed (holding + 1)

/-- A round of waiting: the token is taken, bytes may arrive, and the reader collects. -/
theorem calls_round {b next : Board} {arrivals rest : List Batch}
    (h : b.takeToken? arrivals = some (next, rest)) :
    ∃ batches ms, arrivals = batches ++ rest ∧
      Calls b.inbox next.collect.2.inbox (arrived batches) next.collect.1.toList ms := by
  obtain ⟨batches, ms, hbatches, htyped, hms⟩ := moves_of_takeToken? h
  refine ⟨batches, ms ++ [.collect], hbatches, ?_, ?_, ?_⟩
  · intro o
    rw [typed_append, htyped]
    exact List.append_nil _
  · intro owed holding
    rw [run_append, (hms owed holding).1]
    rfl
  · intro owed holding
    rw [given_append, (hms owed holding).1, (hms owed holding).2]
    exact List.append_nil _

/-- **A wait is a list of moves that hands out what the wait returns.** -/
theorem calls_await (b : Board) (arrivals : List Batch) :
    ∃ batches ms, arrivals = batches ++ (b.await arrivals).arrivals ∧
      Calls b.inbox (b.await arrivals).board.inbox (arrived batches)
        (b.await arrivals).parcel.toList ms := by
  fun_induction Board.await b arrivals with
  | case1 b arrivals => exact ⟨[], [], rfl, Calls.none _⟩
  | case2 b arrivals next rest hnext parcel hparcel =>
    obtain ⟨batches, ms, hbatches, hms⟩ := calls_round hnext
    rw [hparcel] at hms
    exact ⟨batches, ms, hbatches, hms⟩
  | case3 b arrivals next rest hnext hnone _ ih =>
    obtain ⟨batches, ms, hbatches, hms⟩ := calls_round hnext
    obtain ⟨batches', ns, hbatches', hns⟩ := ih
    rw [hnone] at hms
    refine ⟨batches ++ batches', ms ++ ns, ?_, ?_⟩
    · rw [List.append_assoc, ← hbatches', hbatches]
    · have hcall := hms.trans hns
      have hbytes : (fun o => arrived batches o ++ arrived batches' o) =
          arrived (batches ++ batches') :=
        funext fun o => (arrived_append batches batches' o).symm
      rw [hbytes] at hcall
      exact hcall

end Handoff

end SerialConsole
