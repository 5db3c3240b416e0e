import SerialConsole.Journal.Ring

/-!
# Journals as queues

A journal is used by requests: to add an entry, to take one, to start counting drops anew.  A queue
answers the same requests with a list of records, oldest first, and a count of drops; it knows of no
slots, no counters and no older messages in the same place.

    (j.answer r).1.queue = (j.queue.answer size r).1      (answer_refines)
    (j.answer r).2       = (j.queue.answer size r).2

The two counters of a journal run on modulo 2^32 and never start anew, so both equations hold after
any number of requests, for every size that a ring can have (`RingSize`).
-/

namespace SerialConsole.Journal

open Settings

/-- What is shown of an entry. -/
structure Record where
  stamp : Int
  level : Level
  tag : String
  length : Nat
  bytes : Bytes
  text : String
  deriving Repr, DecidableEq

def Entry.shown (e : Entry) : Record := ⟨e.stamp, e.level, e.tag, e.message.used, e.bytes, e.text⟩

/-- The record of an entry by what it was made of. -/
def Record.made (stamp : Int) (level : Level) (tag : String) (message : Bytes) : Record :=
  let bytes := message.take maxMessage
  ⟨stamp, level, tag, min message.length maxMessage, bytes,
    (Text.ofBytes? bytes).getD "<invalid utf8>"⟩

inductive Request where
  | push (stamp : Int) (level : Level) (tag : String) (message : Bytes)
  | drain
  | resetDropped
  deriving Repr, DecidableEq

inductive Answer where
  | pushed (added : Bool)
  | drained (record : Option Record)
  | done
  deriving Repr, DecidableEq

/-- Records, oldest first, and a count of drops modulo 2^32. -/
structure Queue where
  records : List Record
  dropped : UInt32
  deriving Repr, DecidableEq

namespace Queue

def empty : Queue := ⟨[], 0⟩

/-- A queue of at most `size` records answers a request. -/
def answer (size : Nat) (q : Queue) : Request → Queue × Answer
  | .push stamp level tag message =>
    if q.records.length < size then
      ({ q with records := q.records ++ [Record.made stamp level tag message] }, .pushed true)
    else ({ q with dropped := q.dropped + 1 }, .pushed false)
  | .drain =>
    match q.records with
    | [] => (q, .drained none)
    | record :: rest => ({ q with records := rest }, .drained (some record))
  | .resetDropped => ({ q with dropped := 0 }, .done)

def answerAll (size : Nat) (q : Queue) : List Request → Queue × List Answer
  | [] => (q, [])
  | r :: rs =>
    let rest := (q.answer size r).1.answerAll size rs
    (rest.1, (q.answer size r).2 :: rest.2)

end Queue

variable {size : Nat} [HasSlots size]

/-- A journal answers a request. -/
def answer (j : Journal size) : Request → Journal size × Answer
  | .push stamp level tag message =>
    ((j.push stamp level tag message).1, .pushed (j.push stamp level tag message).2)
  | .drain =>
    match j.drain? with
    | none => (j, .drained none)
    | some (entry, rest) => (rest, .drained (some entry.shown))
  | .resetDropped => (j.resetDropped, .done)

def answerAll (j : Journal size) : List Request → Journal size × List Answer
  | [] => (j, [])
  | r :: rs =>
    let rest := (j.answer r).1.answerAll rs
    (rest.1, (j.answer r).2 :: rest.2)

/-- The entry that is `i` places behind the oldest one. -/
def entryAt (j : Journal size) (i : Nat) : Entry := j.slots.get (slot (j.taken + UInt32.ofNat i))

/-- The queue that a journal stands for. -/
def queue (j : Journal size) : Queue :=
  ⟨(List.range j.pending.toNat).map fun i => (j.entryAt i).shown, j.dropped⟩

/-- A size that a ring with 32-bit counters can have. -/
structure RingSize (size : Nat) : Prop where
  isPowerOfTwo : size.isPowerOfTwo
  lt : size < UInt32.size

/-! ## Slots -/

omit [HasSlots size] in
/-- An entry keeps its slot when a counter wraps. -/
theorem RingSize.dvd (h : RingSize size) : size ∣ UInt32.size := by
  obtain ⟨k, rfl⟩ := h.isPowerOfTwo
  have hk : k < 32 := (Nat.pow_lt_pow_iff_right (by decide)).mp h.lt
  exact Nat.pow_dvd_pow 2 (Nat.le_of_lt hk)

/-- The counters may wrap: the slot is the same as if they had not. -/
theorem slot_add (h : RingSize size) (n : UInt32) (i : Nat) :
    (slot (n + UInt32.ofNat i) : Fin size).val = (n.toNat + i) % size := by
  show (n + UInt32.ofNat i).toNat % size = _
  rw [UInt32.toNat_add, UInt32.toNat_ofNat', Nat.mod_mod_of_dvd _ h.dvd, Nat.add_mod,
    Nat.mod_mod_of_dvd _ h.dvd, ← Nat.add_mod]

/-- Entries that are in the queue together, or the newest and the next one, have different slots. -/
theorem slot_add_ne (h : RingSize size) (n : UInt32) {i l : Nat} (hi : i < l) (hl : l < size) :
    (slot (n + UInt32.ofNat i) : Fin size).val ≠ (slot (n + UInt32.ofNat l) : Fin size).val := by
  rw [slot_add h, slot_add h]
  intro heq
  have hsub := Nat.sub_mod_eq_zero_of_mod_eq heq.symm
  rw [Nat.add_sub_add_left, Nat.mod_eq_of_lt (by omega)] at hsub
  omega

omit [HasSlots size] in
theorem added_eq (j : Journal size) : j.added = j.taken + UInt32.ofNat j.pending.toNat := by
  rw [UInt32.ofNat_toNat, pending]
  grind

/-! ## One request -/

theorem shown_overwrite (e : Entry) (stamp : Int) (level : Level) (tag : String) (message : Bytes) :
    (e.overwrite stamp level tag message).shown = Record.made stamp level tag message := by
  have hbytes : (e.overwrite stamp level tag message).bytes = message.take maxMessage := by
    simp [Entry.bytes, Entry.overwrite, Row.bytes_write]
  have hused : (e.overwrite stamp level tag message).message.used =
      min message.length maxMessage := by
    rw [← Row.length_bytes]
    show (e.overwrite stamp level tag message).bytes.length = _
    rw [hbytes, List.length_take, Nat.min_comm]
  simp only [Entry.shown, Record.made, Entry.text, hbytes, hused]
  rfl

theorem push_of_full {j : Journal size} (hfull : size ≤ j.pending.toNat) (stamp : Int)
    (level : Level) (tag : String) (message : Bytes) :
    j.push stamp level tag message = ({ j with dropped := j.dropped + 1 }, false) :=
  if_pos hfull

/-- With room for it, an entry goes behind the newest one and disturbs no other. -/
theorem push_of_room (h : RingSize size) {j : Journal size} (hroom : j.pending.toNat < size)
    (stamp : Int) (level : Level) (tag : String) (message : Bytes) :
    ∃ k, j.push stamp level tag message = (k, true) ∧
      k.pending.toNat = j.pending.toNat + 1 ∧
      (∀ i, i < j.pending.toNat → k.entryAt i = j.entryAt i) ∧
      (k.entryAt j.pending.toNat).shown = Record.made stamp level tag message ∧
      k.dropped = j.dropped := by
  have hlt : size < 2 ^ 32 := h.lt
  let entry := (j.slots.get (slot j.added)).overwrite stamp level tag message
  refine ⟨{ j with
      slots := j.slots.set (slot j.added).val entry (slot j.added).isLt
      added := j.added + 1 }, if_neg (Nat.not_le_of_lt hroom), ?_, ?_, ?_, rfl⟩
  · show (j.added + 1 - j.taken).toNat = _
    have hnext : j.added + 1 - j.taken = j.pending + 1 := by
      unfold pending
      grind
    rw [hnext, UInt32.toNat_add]
    exact Nat.mod_eq_of_lt (show j.pending.toNat + 1 < 2 ^ 32 by omega)
  · intro i hi
    have hne := slot_add_ne h j.taken hi hroom
    rw [← added_eq] at hne
    exact Vector.getElem_set_ne (slot j.added).isLt (Fin.isLt _) (Ne.symm hne)
  · have hself : (j.slots.set (slot j.added).val entry (slot j.added).isLt).get (slot j.added) =
        entry := Vector.getElem_set_self _
    have hplace : (slot (j.taken + UInt32.ofNat j.pending.toNat) : Fin size) = slot j.added := by
      rw [← added_eq]
    show ((j.slots.set (slot j.added).val entry (slot j.added).isLt).get (slot _)).shown = _
    rw [hplace, hself]
    exact shown_overwrite _ _ _ _ _

omit [HasSlots size] in
theorem taken_eq_added_iff (j : Journal size) : j.taken = j.added ↔ j.pending.toNat = 0 := by
  have hzero : j.pending.toNat = 0 ↔ j.pending = 0 := UInt32.toNat_inj (b := 0)
  rw [hzero]
  unfold pending
  constructor
  · intro h
    rw [h, UInt32.sub_self]
  · intro h
    grind

theorem drain?_of_empty {j : Journal size} (hempty : j.pending.toNat = 0) : j.drain? = none :=
  if_pos ((taken_eq_added_iff j).mpr hempty)

/-- The oldest entry is taken, and each of the others moves up by one place. -/
theorem drain?_of_pending {j : Journal size} (hsome : j.pending.toNat ≠ 0) :
    ∃ k, j.drain? = some (j.entryAt 0, k) ∧ k.pending.toNat + 1 = j.pending.toNat ∧
      (∀ i, k.entryAt i = j.entryAt (i + 1)) ∧ k.dropped = j.dropped := by
  have hne : j.taken ≠ j.added := fun he => hsome ((taken_eq_added_iff j).mp he)
  have hfirst : j.entryAt 0 = j.slots.get (slot j.taken) := by
    show j.slots.get (slot (j.taken + 0)) = _
    rw [UInt32.add_zero]
  refine ⟨{ j with taken := j.taken + 1 }, ?_, ?_, ?_, rfl⟩
  · rw [hfirst]
    exact if_neg hne
  · show (j.added - (j.taken + 1)).toNat + 1 = _
    have hnext : j.added - (j.taken + 1) = j.pending - 1 := by
      unfold pending
      grind
    have hone : (1 : UInt32) ≤ j.pending := by
      show 1 ≤ j.pending.toNat
      omega
    rw [hnext, UInt32.toNat_sub_of_le _ _ hone]
    show j.pending.toNat - 1 + 1 = _
    omega
  · intro i
    have hplace : j.taken + 1 + UInt32.ofNat i = j.taken + UInt32.ofNat (i + 1) := by
      rw [UInt32.ofNat_add, UInt32.add_assoc, UInt32.add_comm 1]
      rfl
    show j.slots.get (slot (j.taken + 1 + UInt32.ofNat i)) = j.slots.get (slot _)
    rw [hplace]

/-! ## Refinement -/

@[simp] theorem length_queue (j : Journal size) : j.queue.records.length = j.pending.toNat := by
  simp [queue]

theorem queue_of_room (h : RingSize size) {j : Journal size} (hroom : j.pending.toNat < size)
    (stamp : Int) (level : Level) (tag : String) (message : Bytes) :
    ∃ k, j.push stamp level tag message = (k, true) ∧
      k.queue = ⟨j.queue.records ++ [Record.made stamp level tag message], j.queue.dropped⟩ := by
  obtain ⟨k, hpush, hpending, hold, hnew, hdropped⟩ := push_of_room h hroom stamp level tag message
  refine ⟨k, hpush, ?_⟩
  have hrecords : (List.range j.pending.toNat).map (fun i => (k.entryAt i).shown) =
      (List.range j.pending.toNat).map fun i => (j.entryAt i).shown := by
    apply List.map_congr_left
    intro i hi
    rw [hold i (List.mem_range.mp hi)]
  simp only [queue, hpending, hdropped, List.range_succ, List.map_append, List.map_cons,
    List.map_nil, hnew, hrecords]

theorem queue_of_pending {j : Journal size} (hsome : j.pending.toNat ≠ 0) :
    ∃ k, j.drain? = some (j.entryAt 0, k) ∧
      j.queue = ⟨(j.entryAt 0).shown :: k.queue.records, k.queue.dropped⟩ := by
  obtain ⟨k, hdrain, hpending, hrest, hdropped⟩ := drain?_of_pending hsome
  refine ⟨k, hdrain, ?_⟩
  have hrecords : (List.range k.pending.toNat).map (fun i => (j.entryAt (i + 1)).shown) =
      (List.range k.pending.toNat).map fun i => (k.entryAt i).shown := by
    apply List.map_congr_left
    intro i _
    rw [hrest i]
  simp only [queue, ← hpending, hdropped, List.range_succ_eq_map, List.map_cons, List.map_map,
    ← hrecords]
  rfl

/-- A journal that is not overfull answers as its queue does, and is not overfull afterwards. -/
theorem answer_refines (h : RingSize size) {j : Journal size}
    (hroom : j.queue.records.length ≤ size) (r : Request) :
    (j.answer r).1.queue.records.length ≤ size ∧
      (j.answer r).1.queue = (j.queue.answer size r).1 ∧
      (j.answer r).2 = (j.queue.answer size r).2 := by
  cases r with
  | push stamp level tag message =>
    simp only [answer, Queue.answer]
    by_cases hfull : size ≤ j.queue.records.length
    · have hpending : size ≤ j.pending.toNat := by rwa [length_queue] at hfull
      rw [push_of_full hpending, if_neg (Nat.not_lt_of_le hfull)]
      exact ⟨hroom, rfl, rfl⟩
    · have hlt : j.queue.records.length < size := Nat.lt_of_not_le hfull
      have hpending : j.pending.toNat < size := by rwa [length_queue] at hlt
      obtain ⟨k, hpush, hqueue⟩ := queue_of_room h hpending stamp level tag message
      rw [hpush, if_pos hlt, hqueue]
      refine ⟨?_, rfl, rfl⟩
      rw [List.length_append]
      exact hlt
  | drain =>
    simp only [answer, Queue.answer]
    by_cases hempty : j.pending.toNat = 0
    · have hnil : j.queue.records = [] := by
        rw [← List.length_eq_zero_iff, length_queue]
        exact hempty
      rw [drain?_of_empty hempty]
      rw [hnil] at hroom ⊢
      exact ⟨hroom, rfl, rfl⟩
    · obtain ⟨k, hdrain, hqueue⟩ := queue_of_pending hempty
      rw [hqueue] at hroom ⊢
      rw [hdrain]
      exact ⟨Nat.le_of_succ_le hroom, rfl, rfl⟩
  | resetDropped => exact ⟨hroom, rfl, rfl⟩

theorem answerAll_refines (h : RingSize size) {j : Journal size}
    (hroom : j.queue.records.length ≤ size) (rs : List Request) :
    (j.answerAll rs).1.queue.records.length ≤ size ∧
      (j.answerAll rs).1.queue = (j.queue.answerAll size rs).1 ∧
      (j.answerAll rs).2 = (j.queue.answerAll size rs).2 := by
  induction rs generalizing j with
  | nil => exact ⟨hroom, rfl, rfl⟩
  | cons r rs ih =>
    obtain ⟨hroom', hqueue, hanswer⟩ := answer_refines h hroom r
    obtain ⟨hlast, hqueues, hanswers⟩ := ih hroom'
    rw [hqueue] at hqueues hanswers
    refine ⟨hlast, hqueues, ?_⟩
    simp only [answerAll, Queue.answerAll, hanswer, hanswers]

omit [HasSlots size] in
theorem pending_empty : (empty : Journal size).pending.toNat = 0 := by
  show ((0 : UInt32) - 0).toNat = 0
  rw [UInt32.sub_self]
  rfl

theorem queue_empty : (empty : Journal size).queue = .empty := by
  unfold queue
  rw [pending_empty]
  rfl

/-- **A journal is a bounded queue.**  After any requests to a journal that was empty, all answers
are those of the queue, and so are the number of entries and of drops. -/
theorem answerAll_eq_queue (h : RingSize size) (rs : List Request) :
    ((empty : Journal size).answerAll rs).2 = (Queue.empty.answerAll size rs).2 ∧
      ((empty : Journal size).answerAll rs).1.pending.toNat =
        (Queue.empty.answerAll size rs).1.records.length ∧
      (Queue.empty.answerAll size rs).1.records.length ≤ size ∧
      (((empty : Journal size).answerAll rs).1.hasEntries = true ↔
        (Queue.empty.answerAll size rs).1.records ≠ []) ∧
      ((empty : Journal size).answerAll rs).1.dropped =
        (Queue.empty.answerAll size rs).1.dropped := by
  have hempty : (empty : Journal size).queue.records.length ≤ size := by
    rw [queue_empty]
    exact Nat.zero_le size
  obtain ⟨hroom, hqueue, hanswers⟩ := answerAll_refines h hempty rs
  rw [queue_empty] at hqueue hanswers
  have hlength := ((empty : Journal size).answerAll rs).1.length_queue
  rw [hqueue] at hroom hlength
  refine ⟨hanswers, hlength.symm, hroom, ?_, ?_⟩
  · rw [hasEntries, bne_iff_ne, Ne, Ne, ← UInt32.toNat_inj, ← List.length_eq_zero_iff, hlength]
    rfl
  · rw [← hqueue]
    rfl

/-- A ring of two takes two entries, drops the third, and has room again once one is taken. -/
theorem answerAll_eq_queue_two :
    RingSize 2 ∧
      ((empty : Journal 2).answerAll
        [.push 1 .warn "RX" [0x31], .push 2 .warn "RX" [0x32], .push 3 .warn "RX" [0x33], .drain,
          .push 4 .info "CMD" [0x34]]).2 =
        [.pushed true, .pushed true, .pushed false,
          .drained (some (Record.made 1 .warn "RX" [0x31])), .pushed true] := by
  have h : RingSize 2 := ⟨⟨1, rfl⟩, by decide⟩
  exact ⟨h, (answerAll_eq_queue h _).1.trans rfl⟩

end SerialConsole.Journal
