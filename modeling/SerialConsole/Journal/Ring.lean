import SerialConsole.Journal.Entry

/-!
# Journals

A journal is a queue of entries of fixed capacity.  Whoever adds an entry never waits: if there is
no room the entry is dropped and the drop is counted.  The entries stand in a ring of slots; two
32-bit counters that only grow, modulo 2^32, say how many entries were added and how many taken.

    (j.push t l g m).2 = true  ↔  j.pending < size
    j.drain? = none            ↔  j.pending = 0
-/

namespace SerialConsole

/-- A queue of at most `size` entries. -/
structure Journal (size : Nat) where
  slots : Vector Journal.Entry size
  /-- Entries added so far. -/
  added : UInt32
  /-- Entries taken so far. -/
  taken : UInt32
  /-- Entries dropped since the count was last reset. -/
  dropped : UInt32

namespace Journal

-- the zero is written out, so that it is the same one whatever algebra is imported
/-- There is a slot. -/
abbrev HasSlots (size : Nat) : Prop := @NeZero Nat ⟨0⟩ size

instance : HasSlots Settings.journalSize := ⟨by decide⟩

variable {size : Nat}

/-- A journal without entries. -/
def empty : Journal size := ⟨Vector.replicate size Entry.blank, 0, 0, 0⟩

/-- The number of entries in the queue. -/
def pending (j : Journal size) : UInt32 := j.added - j.taken

/-- There is an entry in the queue. -/
def hasEntries (j : Journal size) : Bool := j.pending != 0

/-- Starts counting drops anew. -/
def resetDropped (j : Journal size) : Journal size := { j with dropped := 0 }

variable [HasSlots size]

/-- The slot of the entry with a number. -/
def slot (number : UInt32) : Fin size := Fin.ofNat size number.toNat

/-- Adds an entry, or counts it as dropped; says whether it was added. -/
def push (j : Journal size) (stamp : Int) (level : Level) (tag : String) (message : Bytes) :
    Journal size × Bool :=
  if size ≤ j.pending.toNat then ({ j with dropped := j.dropped + 1 }, false)
  else
    let i : Fin size := slot j.added
    let entry := (j.slots.get i).overwrite stamp level tag message
    ({ j with slots := j.slots.set i entry, added := j.added + 1 }, true)

/-- Takes the oldest entry, if there is one. -/
def drain? (j : Journal size) : Option (Entry × Journal size) :=
  if j.taken = j.added then none
  else some (j.slots.get (slot j.taken), { j with taken := j.taken + 1 })

/-- Takes the given number of entries, or as many as there are. -/
def drainUpTo : Nat → Journal size → List Entry × Journal size
  | 0, j => ([], j)
  | n + 1, j =>
    match j.drain? with
    | none => ([], j)
    | some (entry, rest) =>
      let (entries, last) := drainUpTo n rest
      (entry :: entries, last)

/-- Takes all entries, oldest first. -/
def drainAll (j : Journal size) : List Entry × Journal size := drainUpTo j.pending.toNat j

end Journal

end SerialConsole
