import SerialConsole.Proofs.Receiver.Erasing

/-!
# Input without line ends

Bytes that hold no key, that is no carriage return, no backspace and no line feed that is dropped, are
cut into lines by the size of a line alone.  Let `s` be the bytes in progress and the bytes that
arrive, one behind the other.  Then each full `lineSize` bytes of `s` come to one line, all of them but
the last; that one finds the line full, completes it by force, and is lost.

    s    = 0 .. 98   99     100 .. 198   199     200 .. 298   299    ...
           line 0    lost   line 1       lost    line 2       lost   ...

Where the line in progress began does not matter, only how many bytes it has (`cutting_law`).
-/

namespace SerialConsole

open Settings

namespace Receiver

/-- The bytes hold nothing that ends a line or edits it. -/
structure KeyFree (keepsLineFeed : Bool) (bs : Bytes) : Prop where
  noReturn : carriageReturn ∉ bs
  noBackspace : backspace ∉ bs
  noLineFeed : keepsLineFeed = false → lineFeed ∉ bs

/-- The lines that bytes complete, first to last. -/
def linesOf (r : Receiver) : Bytes → List Bytes
  | [] => []
  | b :: bs =>
    if (r.feed b).2.isCompleted then (r.feed b).1.latest :: (r.feed b).1.linesOf bs
    else (r.feed b).1.linesOf bs

/-! ## Stretches of bytes -/

/-- The stretches of `maxChars` bytes that begin at the multiples of `lineSize`. -/
def stretches (s : Bytes) : List Bytes :=
  (List.range (s.length / lineSize)).map fun k => (s.drop (lineSize * k)).take maxChars

/-- The bytes behind the last whole `lineSize` of them. -/
def remainder (s : Bytes) : Bytes := s.drop (s.length - s.length % lineSize)

/-- A byte at the place is in a line: it is not the last one of a full `lineSize`. -/
def inLine (i : Nat) : Bool := i % lineSize != maxChars

/-- All bytes but those at the places `maxChars`, `lineSize + maxChars` and so on. -/
def unlost (s : Bytes) : Bytes := (s.zipIdx.filter fun p => inLine p.2).map Prod.fst

variable {line s : Bytes} (b : UInt8)

theorem length_block (hline : line.length = maxChars) :
    (line ++ b :: s).length = s.length + lineSize := by
  rw [List.length_append, List.length_cons, hline]
  show maxChars + (s.length + 1) = s.length + (maxChars + 1)
  omega

theorem drop_block (hline : line.length = maxChars) (n : Nat) :
    (line ++ b :: s).drop (lineSize + n) = s.drop n := by
  have hsize : lineSize + n = line.length + (n + 1) := by
    rw [hline]
    show maxChars + 1 + n = maxChars + (n + 1)
    omega
  rw [hsize, ← List.drop_drop, List.drop_left, List.drop_succ_cons]

theorem stretches_block (hline : line.length = maxChars) :
    stretches (line ++ b :: s) = line :: stretches s := by
  have hcount : (line ++ b :: s).length / lineSize = s.length / lineSize + 1 := by
    rw [length_block b hline, Nat.add_div_right _ (by decide)]
  have hfirst : ((line ++ b :: s).drop (lineSize * 0)).take maxChars = line := by
    rw [Nat.mul_zero, List.drop_zero, ← hline, List.take_left]
  rw [stretches, hcount, List.range_succ_eq_map, List.map_cons, hfirst, List.map_map]
  congr 1
  apply List.map_congr_left
  intro k _
  show ((line ++ b :: s).drop (lineSize * (k + 1))).take maxChars = _
  rw [Nat.mul_succ, Nat.add_comm, drop_block b hline]

theorem remainder_block (hline : line.length = maxChars) :
    remainder (line ++ b :: s) = remainder s := by
  have hmod : s.length % lineSize ≤ s.length := Nat.mod_le _ _
  have hplace : s.length + lineSize - s.length % lineSize =
      lineSize + (s.length - s.length % lineSize) := by
    omega
  rw [remainder, length_block b hline, Nat.add_mod_right, hplace, drop_block b hline]
  rfl

/-- Nothing is lost of bytes that fit into one line. -/
theorem unlost_of_length_le (hline : line.length ≤ maxChars) : unlost line = line := by
  have hall : line.zipIdx.filter (fun p => inLine p.2) = line.zipIdx := by
    rw [List.filter_eq_self]
    intro p hp
    have hlt : p.2 < line.length := List.snd_lt_of_mem_zipIdx hp
    have hsize : lineSize = maxChars + 1 := rfl
    rw [inLine, bne_iff_ne, Nat.mod_eq_of_lt (by omega)]
    omega
  rw [unlost, hall, List.zipIdx_map_fst]

theorem unlost_block (hline : line.length = maxChars) :
    unlost (line ++ b :: s) = line ++ unlost s := by
  have hfirst := unlost_of_length_le (Nat.le_of_eq hline)
  rw [unlost] at hfirst
  have hlost : ¬ inLine line.length = true := by
    rw [hline]
    decide
  have hshift : s.zipIdx (line.length + 1) = s.zipIdx.map (Prod.map id (· + lineSize)) := by
    rw [hline, List.map_snd_add_zipIdx_eq_zipIdx]
    rfl
  have hsame : (fun p : UInt8 × Nat => inLine p.2) ∘ Prod.map id (· + lineSize) =
      fun p => inLine p.2 := by
    funext p
    show inLine (p.2 + lineSize) = inLine p.2
    rw [inLine, inLine, Nat.add_mod_right]
  rw [unlost, List.zipIdx_append, List.zipIdx_cons, Nat.zero_add, List.filter_append,
    List.map_append, hfirst, List.filter_cons, if_neg hlost, hshift, List.filter_map,
    List.map_map, hsame]
  rfl

/-! ## One byte -/

variable {keepsLineFeed : Bool} {bs : Bytes} {b}

theorem KeyFree.tail (h : KeyFree keepsLineFeed (b :: bs)) : KeyFree keepsLineFeed bs where
  noReturn := fun hmem => h.noReturn (List.mem_cons_of_mem b hmem)
  noBackspace := fun hmem => h.noBackspace (List.mem_cons_of_mem b hmem)
  noLineFeed := fun hkeeps hmem => h.noLineFeed hkeeps (List.mem_cons_of_mem b hmem)

/-- A byte that is no key completes a full line by force, and is stored in any other. -/
theorem feed_of_keyFree {r : Receiver} (h : KeyFree r.keepsLineFeed (b :: bs)) :
    (r.pending.length = maxChars ∧ Forces r (r.feed b)) ∨
    (r.pending.length ≠ maxChars ∧ (r.feed b).2 = .stored ∧
      (r.feed b).1.draft = { r.draft with pending := r.pending ++ [b] }) := by
  have hcr : b ≠ carriageReturn := fun he => h.noReturn (he ▸ List.mem_cons_self)
  have hbs : b ≠ backspace := fun he => h.noBackspace (he ▸ List.mem_cons_self)
  rcases r.feed_cases b with ⟨hkeeps, hlf, -⟩ | ⟨-, hend, hf⟩ | ⟨-, -, hback, -⟩ | ⟨-, hend, -, hf⟩
  · exact absurd (hlf ▸ List.mem_cons_self) (h.noLineFeed hkeeps)
  · have hfull := hend.resolve_left hcr
    refine .inl ⟨hfull, ?_⟩
    rw [hf, hfull, decide_eq_true hcr]
    exact ⟨rfl, Line.bytes_clear _, Row.bytes_terminate _, rfl, rfl⟩
  · exact absurd hback hbs
  · have hstored : (r.draft.feed r.keepsLineFeed b).2 = .stored := by
      rw [← event_feed, hf]
    refine .inr ⟨fun hfull => hend (.inr hfull), by rw [hf], ?_⟩
    rw [draft_feed, (Draft.feed_of_stored hstored).1]
    rfl

/-! ## Any number of bytes -/

/-- The bytes were cut into lines by the size of a line alone. -/
structure Cut (r : Receiver) (bs : Bytes) : Prop where
  /-- One line was completed for each full `lineSize` bytes, by force, and no other. -/
  completes : (r.feedAll bs).2.filter Event.isCompleted =
    List.replicate ((r.pending ++ bs).length / lineSize) (.completed maxChars true)
  lines : r.linesOf bs = stretches (r.pending ++ bs)
  pending : (r.feedAll bs).1.pending = remainder (r.pending ++ bs)
  /-- The bytes that are in no line, neither a completed one nor the one in progress, are the last ones
  of each full `lineSize`. -/
  unlost : (r.linesOf bs).flatten ++ (r.feedAll bs).1.pending = unlost (r.pending ++ bs)
  completed : (r.feedAll bs).1.completed =
    r.completed + UInt32.ofNat ((r.pending ++ bs).length / lineSize)
  forced : (r.feedAll bs).1.forced =
    r.forced + UInt32.ofNat ((r.pending ++ bs).length / lineSize)

theorem cut_nil (r : Receiver) : Cut r [] := by
  have hle := r.length_pending_le
  have hlt : r.pending.length < lineSize := Nat.lt_succ_of_le hle
  have hcount : (r.pending ++ []).length / lineSize = 0 := by
    rw [List.append_nil, Nat.div_eq_of_lt hlt]
  refine ⟨?_, ?_, ?_, ?_, ?_, ?_⟩
  · rw [hcount]
    rfl
  · rw [stretches, hcount]
    rfl
  · rw [remainder, List.append_nil, Nat.mod_eq_of_lt hlt, Nat.sub_self]
    rfl
  · rw [List.append_nil, unlost_of_length_le hle]
    rfl
  · rw [hcount]
    exact (UInt32.add_zero _).symm
  · rw [hcount]
    exact (UInt32.add_zero _).symm

/-- A byte that is stored belongs to the same lines as if it had been in progress already. -/
theorem cut_cons_of_stored {r : Receiver} (hstored : (r.feed b).2 = .stored)
    (hdraft : (r.feed b).1.draft = { r.draft with pending := r.pending ++ [b] })
    (h : Cut (r.feed b).1 bs) : Cut r (b :: bs) := by
  have hpending : (r.feed b).1.pending = r.pending ++ [b] := congrArg Draft.pending hdraft
  have hcompleted : (r.feed b).1.completed = r.completed := congrArg Draft.completed hdraft
  have hforced : (r.feed b).1.forced = r.forced := congrArg Draft.forced hdraft
  have hs : (r.feed b).1.pending ++ bs = r.pending ++ b :: bs := by
    rw [hpending, List.append_assoc, List.singleton_append]
  have hevents : (r.feedAll (b :: bs)).2.filter Event.isCompleted =
      ((r.feed b).1.feedAll bs).2.filter Event.isCompleted := by
    rw [feedAll, hstored]
    rfl
  have hlines : r.linesOf (b :: bs) = (r.feed b).1.linesOf bs := by
    rw [linesOf, hstored]
    rfl
  obtain ⟨h1, h2, h3, h4, h5, h6⟩ := h
  rw [hs] at h1 h2 h3 h4 h5 h6
  rw [hcompleted] at h5
  rw [hforced] at h6
  exact ⟨hevents.trans h1, hlines.trans h2, h3, by rw [hlines]; exact h4, h5, h6⟩

/-- A byte that completes a line by force is lost, and the next line begins behind it. -/
theorem cut_cons_of_forces {r : Receiver} (hfull : r.pending.length = maxChars)
    (hforces : Forces r (r.feed b)) (h : Cut (r.feed b).1 bs) : Cut r (b :: bs) := by
  have hs : (r.feed b).1.pending ++ bs = bs := by
    rw [hforces.pending, List.nil_append]
  have hcount : (r.pending ++ b :: bs).length / lineSize = bs.length / lineSize + 1 := by
    rw [length_block b hfull, Nat.add_div_right _ (by decide)]
  have hevents : (r.feedAll (b :: bs)).2.filter Event.isCompleted =
      .completed maxChars true :: ((r.feed b).1.feedAll bs).2.filter Event.isCompleted := by
    rw [feedAll, hforces.event]
    rfl
  have hlines : r.linesOf (b :: bs) = r.pending :: (r.feed b).1.linesOf bs := by
    rw [linesOf, hforces.event, hforces.latest]
    rfl
  have hnext (n : UInt32) : n + 1 + UInt32.ofNat (bs.length / lineSize) =
      n + UInt32.ofNat (bs.length / lineSize + 1) := by
    rw [UInt32.ofNat_add, UInt32.add_assoc, UInt32.add_comm 1]
    rfl
  obtain ⟨h1, h2, h3, h4, h5, h6⟩ := h
  rw [hs] at h1 h2 h3 h4 h5 h6
  refine ⟨?_, ?_, ?_, ?_, ?_, ?_⟩
  · rw [hevents, h1, hcount, List.replicate_succ]
  · rw [hlines, h2, stretches_block b hfull]
  · rw [remainder_block b hfull]
    exact h3
  · rw [hlines, List.flatten_cons, List.append_assoc, unlost_block b hfull]
    exact congrArg (r.pending ++ ·) h4
  · rw [hcount, ← hnext, ← hforces.completed]
    exact h5
  · rw [hcount, ← hnext, ← hforces.forced]
    exact h6

/-- **The law of cutting.**  Bytes without a line end and without editing keys are cut by their number
alone: with the bytes in progress before them, each full `lineSize` of them comes to one line, which is
completed by force, and to one byte that is lost; what is left is in progress.  Both counts go up by the
number of the lines. -/
theorem cutting_law (r : Receiver) (h : KeyFree r.keepsLineFeed bs) : Cut r bs := by
  induction bs generalizing r with
  | nil => exact cut_nil r
  | cons b bs ih =>
    have hrest : KeyFree (r.feed b).1.keepsLineFeed bs := by
      rw [keepsLineFeed_feed]
      exact h.tail
    rcases feed_of_keyFree h with ⟨hfull, hforces⟩ | ⟨-, hstored, hdraft⟩
    · exact cut_cons_of_forces hfull hforces (ih _ hrest)
    · exact cut_cons_of_stored hstored hdraft (ih _ hrest)

/-- Behind sixty bytes in progress, a hundred and fifty more complete two lines, the first of them made
of both, and leave ten bytes in progress. -/
theorem cutting_law_two :
    let r := ((ofOrigin .console).feedAll (List.replicate 60 0x61)).1
    let bs := List.replicate 150 0x62
    KeyFree r.keepsLineFeed bs ∧
      r.linesOf bs = [List.replicate 60 0x61 ++ List.replicate 39 0x62, List.replicate 99 0x62] ∧
      (r.feedAll bs).1.pending = List.replicate 10 0x62 ∧ (r.feedAll bs).1.forced = 2 := by
  intro r bs
  have hkeys : KeyFree r.keepsLineFeed bs := by
    refine ⟨?_, ?_, fun _ => ?_⟩
    · exact fun hmem => absurd (List.eq_of_mem_replicate hmem) (by decide)
    · exact fun hmem => absurd (List.eq_of_mem_replicate hmem) (by decide)
    · exact fun hmem => absurd (List.eq_of_mem_replicate hmem) (by decide)
  have hpending : r.pending = List.replicate 60 0x61 := by decide +kernel
  have hforced : r.forced = 0 := by decide +kernel
  have hcut := cutting_law r hkeys
  refine ⟨hkeys, ?_, ?_, ?_⟩
  · rw [hcut.lines, hpending]
    decide +kernel
  · rw [hcut.pending, hpending]
    decide +kernel
  · rw [hcut.forced, hforced, hpending]
    decide +kernel

end Receiver

end SerialConsole
