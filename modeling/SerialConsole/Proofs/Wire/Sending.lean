import Mathlib.Data.List.TakeDrop
import SerialConsole.Port

/-!
# Frames on their way

What is recorded of a frame depends on how much of it the limit allows:

    the limit allows           records of the frame
    all of it                  attempts that take it, and a flush
    only a beginning of it     attempts that take the beginning, and a failure

Every frame is tried, so the bytes that go through are the frames, one after the other, up to the limit:

    taken (p.sendAll s frames).2 = frames.flatten.take (p.limit s)

That holds of every port.  A wire is one of them, if its attempts take anything at all (`Wire.port`).
-/

namespace SerialConsole

namespace Wire

/-- The bytes that went through. -/
def Record.taken : Record → Bytes
  | .accepted bytes => bytes
  | _ => []

/-- The bytes that went through, all together. -/
def taken (records : List Record) : Bytes := records.flatMap Record.taken

/-- An attempt that another one may follow: it was interrupted, or took some bytes. -/
def Record.GoesOn : Record → Prop
  | .interrupted => True
  | .accepted bytes => bytes ≠ []
  | _ => False

/-- The records of one frame, when the limit allows so many bytes. -/
structure Passes (left : Nat) (frame : Bytes) (records : List Record) : Prop where
  /-- The frame went through, or as much of its beginning as the limit allows. -/
  taken : taken records = frame.take left
  /-- The port is flushed once, at the end, if all of the frame went through, and never if not. -/
  ends : ∃ attempts, (∀ r ∈ attempts, r.GoesOn) ∧
    records = attempts ++ [if Wire.taken records = frame then .flushed else .failed]

/-- The records of frames that are sent one after the other. -/
inductive Sends : Nat → List Bytes → List Record → Prop where
  | nil {left : Nat} : Sends left [] []
  /-- Whatever became of a frame, the next one is tried with what is left of the limit. -/
  | cons {left : Nat} {frame : Bytes} {frames : List Bytes} {records rest : List Record}
    (hframe : Passes left frame records) (hrest : Sends (left - frame.length) frames rest) :
    Sends left (frame :: frames) (records ++ rest)

theorem taken_append (records rest : List Record) :
    taken (records ++ rest) = taken records ++ taken rest :=
  List.flatMap_append

theorem taken_cons (r : Record) (records : List Record) :
    taken (r :: records) = r.taken ++ taken records :=
  List.flatMap_cons

/-- What goes through of some frames is a beginning of them all. -/
theorem Sends.taken_eq {left : Nat} {frames : List Bytes} {records : List Record}
    (h : Sends left frames records) : taken records = frames.flatten.take left := by
  induction h with
  | nil => rw [List.flatten_nil, List.take_nil]; rfl
  | cons hframe _ ih =>
    rw [taken_append, hframe.taken, ih, List.flatten_cons, List.take_append]

end Wire

namespace Port

open Wire

variable {σ : Type} {p : Port σ}

/-! ## One frame -/

/-- What sending some bytes comes to, before any flush. -/
structure Transmits (p : Port σ) (s : σ) (bs : Bytes) (t : Outcome σ) : Prop where
  taken : taken t.records = bs.take (p.limit s)
  limit : p.limit t.state = p.limit s - bs.length
  complete : t.complete = true ↔ bs.length ≤ p.limit s
  ends : ∃ attempts, (∀ r ∈ attempts, r.GoesOn) ∧
    t.records = attempts ++ if t.complete = true then [] else [.failed]

/-- An attempt in front takes its bytes off the limit. -/
theorem Transmits.after {s s' : σ} {rest : Bytes} {t : Outcome σ} (h : p.Transmits s' rest t)
    {r : Record} (hr : r.GoesOn) (hlimit : p.limit s = r.taken.length + p.limit s') :
    p.Transmits s (r.taken ++ rest) (t.after r) := by
  obtain ⟨attempts, hattempts, hrecords⟩ := h.ends
  refine ⟨?_, ?_, ?_, r :: attempts, ?_, ?_⟩
  · rw [hlimit, List.take_length_add_append, ← h.taken]
    exact taken_cons r t.records
  · show p.limit t.state = _
    rw [h.limit, hlimit, List.length_append]
    omega
  · show t.complete = true ↔ _
    rw [h.complete, hlimit, List.length_append]
    omega
  · exact List.forall_mem_cons.mpr ⟨hr, hattempts⟩
  · show r :: t.records = r :: attempts ++ if t.complete = true then [] else [.failed]
    rw [hrecords, List.cons_append]

/-- Sending follows the limit, whatever the single attempts do. -/
theorem transmits_transmit (p : Port σ) (s : σ) (bs : Bytes) :
    p.Transmits s bs (p.transmit s bs) := by
  fun_induction transmit p s bs with
  | case1 s =>
    refine ⟨?_, rfl, ?_, [], by simp, rfl⟩
    · rw [List.take_nil]
      rfl
    · exact ⟨fun _ => Nat.zero_le _, fun _ => rfl⟩
  | case2 s bs hbs s' h _ ih =>
    obtain ⟨hlimit, -⟩ := p.of_interrupted hbs h
    refine ih.after (r := .interrupted) trivial ?_
    rw [hlimit]
    exact (Nat.zero_add _).symm
  | case3 s bs hbs s' h =>
    obtain ⟨hlimit, hafter⟩ := p.of_failed hbs h
    refine ⟨?_, ?_, ?_, [], by simp, rfl⟩
    · rw [hlimit, List.take_zero]
      rfl
    · rw [hafter, hlimit, Nat.zero_sub]
    · rw [hlimit, Nat.le_zero, List.length_eq_zero_iff]
      exact ⟨fun hfalse => (nomatch hfalse), fun hnil => absurd hnil hbs⟩
  | case4 s bs hbs n s' h _ ih =>
    obtain ⟨hpos, hle, hlimit⟩ := p.of_took hbs h
    have hlength : (bs.take n).length = n := List.length_take_of_le hle
    have hsome : bs.take n ≠ [] := by
      rw [← List.length_pos_iff, hlength]
      exact hpos
    have hafter := ih.after (s := s) (r := .accepted (bs.take n)) hsome (by
      show p.limit s = (bs.take n).length + p.limit s'
      omega)
    rwa [show (Record.accepted (bs.take n)).taken ++ bs.drop n = bs from
      List.take_append_drop n bs] at hafter

/-- All bytes went through exactly if sending says so. -/
theorem Transmits.taken_eq_iff {s : σ} {bs : Bytes} {t : Outcome σ} (h : p.Transmits s bs t) :
    Wire.taken t.records = bs ↔ t.complete = true := by
  rw [h.taken, h.complete, List.take_eq_self_iff]

theorem passes_send (p : Port σ) (s : σ) (frame : Bytes) :
    Passes (p.limit s) frame (p.send s frame).records ∧
      p.limit (p.send s frame).state = p.limit s - frame.length := by
  have h := p.transmits_transmit s frame
  obtain ⟨attempts, hattempts, hrecords⟩ := h.ends
  unfold send
  dsimp only
  by_cases hcomplete : (p.transmit s frame).complete = true
  · -- the flush takes no bytes, so all of the frame went through after it as before it
    have htaken : taken ((p.transmit s frame).records ++ [.flushed]) =
        taken (p.transmit s frame).records := by
      rw [taken_append]
      exact List.append_nil _
    rw [if_pos hcomplete, List.append_nil] at hrecords
    rw [if_pos hcomplete]
    refine ⟨⟨?_, attempts, hattempts, ?_⟩, ?_⟩
    · rw [htaken, h.taken]
    · rw [htaken, if_pos (h.taken_eq_iff.mpr hcomplete), hrecords]
    · rw [p.of_flush, h.limit]
  · rw [if_neg hcomplete] at hrecords
    rw [if_neg hcomplete]
    refine ⟨⟨h.taken, attempts, hattempts, ?_⟩, h.limit⟩
    rw [if_neg (fun hall => hcomplete (h.taken_eq_iff.mp hall)), hrecords]

/-! ## Frames -/

theorem sends_sendAll (p : Port σ) (s : σ) (frames : List Bytes) :
    Sends (p.limit s) frames (p.sendAll s frames).2 ∧
      p.limit (p.sendAll s frames).1 = p.limit s - frames.flatten.length := by
  induction frames generalizing s with
  | nil => exact ⟨.nil, rfl⟩
  | cons frame frames ih =>
    obtain ⟨hframe, hlimit⟩ := p.passes_send s frame
    obtain ⟨hrest, hlast⟩ := ih (p.send s frame).state
    rw [hlimit] at hrest hlast
    refine ⟨.cons hframe hrest, ?_⟩
    rw [List.flatten_cons, List.length_append, ← Nat.sub_sub]
    exact hlast

end Port

namespace Wire

/-! ## The wire as a port -/

/-- An attempt that takes what there is room for, as far as the limit allows. -/
def attempt (w : Wire) (bs : Bytes) : Attempt × Wire :=
  if 0 < w.interrupts then (.interrupted, { w with interrupts := w.interrupts - 1 })
  else if w.limit = 0 then (.failed, w)
  else
    let n := min bs.length (min w.chunk w.limit)
    (.took n, { w with limit := w.limit - n })

theorem chunk_attempt (w : Wire) (bs : Bytes) : (w.attempt bs).2.chunk = w.chunk := by
  unfold attempt
  split
  · rfl
  · split <;> rfl

/-- A wire whose attempts take something. -/
abbrev Usable := { w : Wire // 0 < w.chunk }

/-- The wire is a port, and nothing happens to it when it is flushed. -/
def port : Port Usable where
  attempt w bs := ((w.val.attempt bs).1, ⟨(w.val.attempt bs).2, by
    rw [chunk_attempt]
    exact w.property⟩)
  flush w := w
  limit w := w.val.limit
  interrupts w := w.val.interrupts
  of_interrupted := by
    rintro ⟨w, hw⟩ ⟨w', hw'⟩ bs - h
    simp only [Prod.mk.injEq, Subtype.mk.injEq, attempt] at h
    split at h
    · next hpos =>
      obtain ⟨-, rfl⟩ := h
      exact ⟨rfl, Nat.sub_lt hpos Nat.one_pos⟩
    · split at h <;> cases h.1
  of_failed := by
    rintro ⟨w, hw⟩ ⟨w', hw'⟩ bs - h
    simp only [Prod.mk.injEq, Subtype.mk.injEq, attempt] at h
    split at h
    · cases h.1
    · split at h
      · next hzero =>
        obtain ⟨-, rfl⟩ := h
        exact ⟨hzero, hzero⟩
      · cases h.1
  of_took := by
    rintro ⟨w, hw⟩ ⟨w', hw'⟩ bs n hbs h
    have hpos := List.length_pos_iff.mpr hbs
    simp only [Prod.mk.injEq, Subtype.mk.injEq, attempt] at h
    split at h
    · cases h.1
    · split at h
      · cases h.1
      · obtain ⟨hn, rfl⟩ := h
        cases hn
        show 0 < min bs.length (min w.chunk w.limit) ∧ _ ∧
          w.limit = w.limit - min bs.length (min w.chunk w.limit) + _
        omega
  of_flush _ := rfl

/-- What sending over the wire as a port comes to, as a transmission of the wire. -/
def Transmission.ofOutcome (t : Port.Outcome Usable) : Transmission :=
  ⟨t.state.val, t.records, t.complete⟩

theorem transmit_eq (w : Wire) (hw : 0 < w.chunk) (bs : Bytes) :
    w.transmit bs = .ofOutcome (port.transmit ⟨w, hw⟩ bs) := by
  fun_induction transmit w bs with
  | case1 w bs hnil =>
    obtain rfl := List.length_eq_zero_iff.mp hnil
    rw [Port.transmit_nil]
    rfl
  | case2 w bs hbs hpos ih =>
    have hne : bs ≠ [] := fun hnil => hbs (List.length_eq_zero_iff.mpr hnil)
    have h : port.attempt ⟨w, hw⟩ bs =
        (.interrupted, ⟨{ w with interrupts := w.interrupts - 1 }, hw⟩) := by
      simp [port, attempt, hpos]
    rw [Port.transmit_of_interrupted hne h, ih hw]
    rfl
  | case3 w bs hbs hpos hzero =>
    have hne : bs ≠ [] := fun hnil => hbs (List.length_eq_zero_iff.mpr hnil)
    have h : port.attempt ⟨w, hw⟩ bs = (.failed, ⟨w, hw⟩) := by
      simp [port, attempt, hpos, hzero]
    rw [Port.transmit_of_failed hne h]
    rfl
  | case4 w bs hbs hpos hzero hchunk => exact absurd hchunk (Nat.ne_of_gt hw)
  | case5 w bs hbs hpos hzero hchunk n ih =>
    have hne : bs ≠ [] := fun hnil => hbs (List.length_eq_zero_iff.mpr hnil)
    have h : port.attempt ⟨w, hw⟩ bs = (.took n, ⟨{ w with limit := w.limit - n }, hw⟩) := by
      simp [port, attempt, hpos, hzero, n]
    rw [Port.transmit_of_took hne h, ih hw]
    rfl

theorem send_eq (w : Wire) (hw : 0 < w.chunk) (frame : Bytes) :
    w.send frame = .ofOutcome (port.send ⟨w, hw⟩ frame) := by
  unfold send Port.send
  rw [transmit_eq w hw frame]
  generalize port.transmit ⟨w, hw⟩ frame = t
  obtain ⟨state, records, complete⟩ := t
  cases complete <;> rfl

/-- Frames that are sent over a wire are sent over the port that it is. -/
theorem sendAll_eq (w : Wire) (hw : 0 < w.chunk) (frames : List Bytes) :
    w.sendAll frames =
      ((port.sendAll ⟨w, hw⟩ frames).1.val, (port.sendAll ⟨w, hw⟩ frames).2) := by
  induction frames generalizing w with
  | nil => rfl
  | cons frame frames ih =>
    unfold sendAll Port.sendAll
    rw [send_eq w hw frame]
    obtain ⟨⟨next, hnext⟩, records, complete⟩ := port.send ⟨w, hw⟩ frame
    dsimp only [Transmission.ofOutcome]
    rw [ih next hnext]

/-! ## Delivery -/

/-- Frames were sent, so many bytes could go through before, and so many can after. -/
structure Delivered (left : Nat) (frames : List Bytes) (rest : Nat) (records : List Record) :
    Prop where
  /-- The frames went through one after the other, as far as the limit allowed. -/
  taken : taken records = frames.flatten.take left
  rest : rest = left - frames.flatten.length
  /-- Each frame was tried, and the port flushed after it if all of it went through. -/
  frames : Sends left frames records

/-- Over any port, and so over any wire whose attempts take something, frames go through one after the
other up to the limit, and nothing else does. -/
theorem delivery_law (frames : List Bytes) :
    (∀ {σ : Type} (p : Port σ) (s : σ),
      Delivered (p.limit s) frames (p.limit (p.sendAll s frames).1) (p.sendAll s frames).2) ∧
    ∀ w : Wire, 0 < w.chunk →
      Delivered w.limit frames (w.sendAll frames).1.limit (w.sendAll frames).2 := by
  have hport : ∀ {σ : Type} (p : Port σ) (s : σ),
      Delivered (p.limit s) frames (p.limit (p.sendAll s frames).1) (p.sendAll s frames).2 := by
    intro σ p s
    obtain ⟨hsends, hrest⟩ := p.sends_sendAll s frames
    exact ⟨hsends.taken_eq, hrest, hsends⟩
  refine ⟨hport, ?_⟩
  intro w hw
  rw [sendAll_eq w hw frames]
  exact hport port ⟨w, hw⟩

/-- Two bytes at a time and five in all: the third frame is cut, and the one after it, which is empty,
is flushed nevertheless. -/
theorem delivery_law_cut :
    (Wire.mk 2 5 1).sendAll [[1, 2, 3], [], [4, 5, 6], [], [7]] =
      (⟨2, 0, 0⟩, [.interrupted, .accepted [1, 2], .accepted [3], .flushed, .flushed,
        .accepted [4, 5], .failed, .flushed, .failed]) ∧
    Delivered 5 [[1, 2, 3], [], [4, 5, 6], [], [7]] 0
      [.interrupted, .accepted [1, 2], .accepted [3], .flushed, .flushed, .accepted [4, 5], .failed,
        .flushed, .failed] := by
  have hsend : (Wire.mk 2 5 1).sendAll [[1, 2, 3], [], [4, 5, 6], [], [7]] =
      (⟨2, 0, 0⟩, [.interrupted, .accepted [1, 2], .accepted [3], .flushed, .flushed,
        .accepted [4, 5], .failed, .flushed, .failed]) := by decide +kernel
  have h := (delivery_law [[1, 2, 3], [], [4, 5, 6], [], [7]]).2 ⟨2, 5, 1⟩ (by decide)
  rw [hsend] at h
  exact ⟨hsend, h⟩

end Wire

end SerialConsole
