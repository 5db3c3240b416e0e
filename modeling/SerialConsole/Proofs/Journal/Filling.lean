import SerialConsole.Proofs.Journal.Queue

/-!
# Filling a journal

As long as nothing is taken from a journal, what it was given since it was emptied is known from its
front and from its count of drops: the oldest records are there, as many as there is room for, and each
of the others was counted.

    j.queue.records = rs.take size
    j.dropped       = rs.length - size        modulo 2^32

Hence entries and drops together are the records that were given, modulo 2^32, and exactly as long as a
counter can tell that many.
-/

namespace SerialConsole.Journal

open Settings

variable {size : Nat} [HasSlots size]

/-- The journal was given these records, oldest first, since it was emptied. -/
structure Given (j : Journal size) (rs : List Record) : Prop where
  records : j.queue.records = rs.take size
  dropped : j.dropped = UInt32.ofNat (rs.length - size)

theorem ringSize_journalSize : RingSize journalSize := ⟨⟨6, rfl⟩, by decide⟩

/-- An emptied journal was given nothing. -/
theorem Given.nil {j : Journal size} (h : j.queue = .empty) : j.Given [] where
  records := by
    rw [h, List.take_nil]
    rfl
  dropped := by
    show j.queue.dropped = _
    rw [h, List.length_nil, Nat.zero_sub]
    rfl

theorem Given.push (h : RingSize size) {j : Journal size} {rs : List Record} (hj : j.Given rs)
    (stamp : Int) (level : Level) (tag : String) (message : Bytes) :
    (j.push stamp level tag message).1.Given (rs ++ [Record.made stamp level tag message]) := by
  have hpending := j.length_queue
  rw [hj.records, List.length_take] at hpending
  by_cases hroom : rs.length < size
  · have hlt : j.pending.toNat < size := by omega
    obtain ⟨k, hpush, hqueue⟩ := queue_of_room h hlt stamp level tag message
    rw [hpush]
    refine ⟨?_, ?_⟩
    · rw [hqueue, hj.records, List.take_of_length_le (Nat.le_of_lt hroom), List.take_of_length_le]
      rw [List.length_append]
      exact hroom
    · have hdropped : k.dropped = j.dropped := congrArg Queue.dropped hqueue
      rw [hdropped, hj.dropped, List.length_append, List.length_singleton]
      congr 1
      omega
  · have hfull : size ≤ rs.length := Nat.le_of_not_lt hroom
    have hle : size ≤ j.pending.toNat := by omega
    rw [push_of_full hle]
    refine ⟨?_, ?_⟩
    · show j.queue.records = _
      rw [hj.records, List.take_append_of_le_length hfull]
    · show j.dropped + 1 = _
      rw [hj.dropped, List.length_append, List.length_singleton, Nat.sub_add_comm hfull,
        UInt32.ofNat_add]
      rfl

/-- Entries and drops account for some number of records, modulo 2^32, and exactly as long as a counter
can tell that many. -/
structure Accounts (j : Journal size) (n : Nat) : Prop where
  modulo : j.pending + j.dropped = UInt32.ofNat n
  exact : n < UInt32.size → j.pending.toNat + j.dropped.toNat = n

/-- What a journal was given is all accounted for. -/
theorem Given.accounts {j : Journal size} {rs : List Record} (hj : j.Given rs) :
    j.Accounts rs.length := by
  have hpending := j.length_queue
  rw [hj.records, List.length_take] at hpending
  refine ⟨?_, ?_⟩
  · rw [hj.dropped, ← UInt32.ofNat_toNat (x := j.pending), ← hpending, ← UInt32.ofNat_add]
    congr 1
    omega
  · intro hlt
    rw [hj.dropped, UInt32.toNat_ofNat', Nat.mod_eq_of_lt, ← hpending]
    · omega
    · exact Nat.lt_of_le_of_lt (Nat.sub_le _ _) hlt

end SerialConsole.Journal
