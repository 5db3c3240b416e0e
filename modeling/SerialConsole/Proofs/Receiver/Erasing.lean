import SerialConsole.Proofs.Receiver.Draft

/-!
# Taking bytes back

A backspace takes back the last byte of the line in progress, if there is one, and does nothing else.
That holds at every fill level but the last one: a full line is completed by whatever comes next, and
a backspace is no exception.

    bytes in progress     a backspace
    fewer than maxChars   takes the last one back, if there is one
    maxChars              completes the line by force, and takes nothing back

So what was typed can be taken back byte by byte, exactly if it did not fill the line:

    (r.feedAll (bs ++ replicate bs.length backspace)).1.draft = r.draft  ↔
      bs = [] ∨ r.pending.length + bs.length ≠ maxChars                  if all of `bs` was stored
-/

namespace SerialConsole

open Settings

/-! ## Drafts -/

namespace Draft

open Receiver (backspace)

variable {d : Draft} {keepsLineFeed : Bool}

theorem feed_backspace (d : Draft) (keepsLineFeed : Bool) :
    d.feed keepsLineFeed backspace =
      if d.pending.length = maxChars then (d.finish true, .completed maxChars true)
      else ({ d with pending := d.pending.dropLast }, .erased) := by
  have hlf : ¬ (keepsLineFeed = false ∧ backspace = Receiver.lineFeed) := fun h => absurd h.2 (by decide)
  have hcr : backspace ≠ Receiver.carriageReturn := by decide
  by_cases hfull : d.pending.length = maxChars
  · rw [feed, if_neg hlf, if_pos (.inr hfull), if_pos hfull, hfull]
    rfl
  · rw [feed, if_neg hlf, if_neg (not_or.mpr ⟨hcr, hfull⟩), if_pos rfl, if_neg hfull]

/-- A byte is stored behind the others, and only if there is room. -/
theorem feed_of_stored {b : UInt8} (h : (d.feed keepsLineFeed b).2 = .stored) :
    (d.feed keepsLineFeed b).1 = { d with pending := d.pending ++ [b] } ∧
      d.pending.length ≠ maxChars := by
  unfold feed at h ⊢
  split at h
  · cases h
  · next hlf =>
    split at h
    · cases h
    · next hend =>
      split at h
      · cases h
      · next hbs =>
        rw [if_neg hlf, if_neg hend, if_neg hbs]
        exact ⟨rfl, fun hfull => hend (.inr hfull)⟩

theorem feedAll_of_stored {bs : Bytes}
    (h : ∀ e ∈ (d.feedAll keepsLineFeed bs).2, e = Receiver.Event.stored) :
    (d.feedAll keepsLineFeed bs).1 = { d with pending := d.pending ++ bs } := by
  induction bs generalizing d with
  | nil => rw [List.append_nil]; rfl
  | cons b bs ih =>
    obtain ⟨hfirst, hrest⟩ := List.forall_mem_cons.mp h
    have hb := (feed_of_stored hfirst).1
    rw [feedAll, ih hrest, hb, List.append_assoc]
    rfl

/-- Backspaces take back as many bytes as there are, and complete nothing, if the line has room. -/
theorem feedAll_backspaces (n : Nat) (hroom : d.pending.length < maxChars) :
    (d.feedAll keepsLineFeed (List.replicate n backspace)).1 =
      { d with pending := d.pending.take (d.pending.length - n) } := by
  induction n generalizing d with
  | zero => rw [Nat.sub_zero, List.take_length]; rfl
  | succ n ih =>
    have hstep : (d.feed keepsLineFeed backspace).1 = { d with pending := d.pending.dropLast } := by
      rw [feed_backspace, if_neg (Nat.ne_of_lt hroom)]
    have hlength : d.pending.dropLast.length = d.pending.length - 1 := List.length_dropLast
    rw [List.replicate_succ, feedAll, hstep, ih]
    · rw [hlength, List.dropLast_eq_take, List.take_take]
      congr 2
      omega
    · rw [hlength]
      omega

/-- A full line is completed by the first of some backspaces; the others find no byte. -/
theorem feedAll_backspaces_of_full (n : Nat) (hfull : d.pending.length = maxChars) :
    (d.feedAll keepsLineFeed (List.replicate (n + 1) backspace)).1 = d.finish true := by
  have hstep : (d.feed keepsLineFeed backspace).1 = d.finish true := by
    rw [feed_backspace, if_pos hfull]
  have hempty : (d.finish true).pending.length < maxChars := show 0 < maxChars by decide
  rw [List.replicate_succ, feedAll, hstep, feedAll_backspaces n hempty]
  simp [finish]

end Draft

/-! ## Receivers -/

namespace Receiver

/-- The byte took back the last byte of the line in progress, if there was one, and did nothing
else. -/
structure TakesBack (r : Receiver) (t : Receiver × Event) : Prop where
  event : t.2 = .erased
  pending : t.1.pending = r.pending.dropLast
  ready : t.1.ready = r.ready
  completed : t.1.completed = r.completed
  forced : t.1.forced = r.forced

/-- The byte completed a full line by force, and no byte of that line is lost. -/
structure Forces (r : Receiver) (t : Receiver × Event) : Prop where
  event : t.2 = .completed maxChars true
  pending : t.1.pending = []
  latest : t.1.latest = r.pending
  completed : t.1.completed = r.completed + 1
  forced : t.1.forced = r.forced + 1

theorem takesBack_of_room {r : Receiver} (hroom : r.pending.length ≠ maxChars) :
    TakesBack r (r.feed backspace) := by
  rcases r.feed_cases backspace with ⟨-, hlf, -⟩ | ⟨-, hend, -⟩ | ⟨-, -, -, h⟩ | ⟨-, -, hbs, -⟩
  · exact absurd hlf (by decide)
  · exact absurd hend (not_or.mpr ⟨by decide, hroom⟩)
  · rw [h]
    exact ⟨rfl, Row.bytes_erase r.filling, rfl, rfl, rfl⟩
  · exact absurd rfl hbs

theorem forces_of_full {r : Receiver} (hfull : r.pending.length = maxChars) :
    Forces r (r.feed backspace) := by
  obtain ⟨hdraft, hevent⟩ := r.feed_eq_draft backspace
  have hpending : r.draft.pending.length = maxChars := hfull
  rw [Draft.feed_backspace, if_pos hpending] at hdraft hevent
  exact ⟨hevent, congrArg Draft.pending hdraft, congrArg Draft.last hdraft,
    congrArg Draft.completed hdraft, congrArg Draft.forced hdraft⟩

theorem takesBack_iff (r : Receiver) :
    TakesBack r (r.feed backspace) ↔ r.pending.length ≠ maxChars := by
  refine ⟨fun htakes hfull => ?_, takesBack_of_room⟩
  have hevent := (forces_of_full hfull).event
  rw [htakes.event] at hevent
  cases hevent

theorem forces_iff (r : Receiver) :
    Forces r (r.feed backspace) ↔ r.pending.length = maxChars := by
  refine ⟨fun hforces => Decidable.byContradiction fun hroom => ?_, forces_of_full⟩
  have hevent := (takesBack_of_room hroom).event
  rw [hforces.event] at hevent
  cases hevent

/-- A byte that was stored is taken back by a backspace right behind it, unless it filled the line. -/
theorem pending_taken_back_iff {r : Receiver} {b : UInt8} (hstored : (r.feed b).2 = .stored) :
    ((r.feed b).1.feed backspace).1.pending = r.pending ↔ r.pending.length + 1 ≠ maxChars := by
  have hpending : (r.feed b).1.pending = r.pending ++ [b] := by
    rw [event_feed] at hstored
    exact (congrArg Draft.pending (draft_feed r b)).trans
      (congrArg Draft.pending (Draft.feed_of_stored hstored).1)
  have hlength : (r.feed b).1.pending.length = r.pending.length + 1 := by
    rw [hpending, List.length_append, List.length_singleton]
  by_cases hfull : r.pending.length + 1 = maxChars
  · rw [(forces_of_full (hlength.trans hfull)).pending]
    refine iff_of_false (fun hnil => ?_) (not_not_intro hfull)
    rw [← hnil] at hfull
    exact absurd hfull (by decide)
  · have hroom : (r.feed b).1.pending.length ≠ maxChars := by rwa [hlength]
    rw [(takesBack_of_room hroom).pending, hpending, List.dropLast_concat]
    exact iff_of_true rfl hfull

/-- Bytes that were stored are taken back by as many backspaces, unless they filled the line. -/
theorem draft_feedAll_taken_back (r : Receiver) {bs : Bytes}
    (hstored : ∀ e ∈ (r.feedAll bs).2, e = .stored) :
    (r.feedAll (bs ++ List.replicate bs.length backspace)).1.draft = r.draft ↔
      bs = [] ∨ r.pending.length + bs.length ≠ maxChars := by
  obtain ⟨hdraft, hevents⟩ := r.feedAll_eq_draft bs
  rw [hevents] at hstored
  have htyped : (r.feedAll bs).1.draft = { r.draft with pending := r.pending ++ bs } :=
    hdraft.trans (Draft.feedAll_of_stored hstored)
  have hlength : (r.feedAll bs).1.draft.pending.length = r.pending.length + bs.length := by
    rw [htyped]
    exact List.length_append
  have hle : (r.feedAll bs).1.draft.pending.length ≤ maxChars := (r.feedAll bs).1.length_pending_le
  rw [feedAll_append, (Receiver.feedAll_eq_draft _ _).1]
  by_cases hfull : r.pending.length + bs.length = maxChars
  · cases bs with
    | nil => exact iff_of_true rfl (.inl rfl)
    | cons b bs =>
      rw [List.length_cons, Draft.feedAll_backspaces_of_full _ (hlength.trans hfull), htyped]
      refine iff_of_false (fun h => ?_) (not_or.mpr ⟨List.cons_ne_nil b bs, not_not_intro hfull⟩)
      -- the line was completed, and no backspace undoes that
      have hcount : r.completed + 1 = r.completed := congrArg Draft.completed h
      simp at hcount
  · have hroom : (r.feedAll bs).1.draft.pending.length < maxChars := by omega
    rw [Draft.feedAll_backspaces _ hroom, hlength, htyped, Nat.add_sub_cancel]
    refine iff_of_true ?_ (.inr hfull)
    simp only [List.take_left]
    rfl

/-- **The backspace law.**  Whatever a receiver holds, a backspace takes back the last byte of the line
in progress and does nothing else, exactly if that line is not full; a full line it completes by force.
So a byte that was stored is taken back by the backspace right behind it exactly if it did not fill the
line, and bytes that were stored one after the other are taken back by as many backspaces exactly if
they did not. -/
theorem backspace_law (r : Receiver) :
    (TakesBack r (r.feed backspace) ↔ r.pending.length ≠ maxChars) ∧
    (Forces r (r.feed backspace) ↔ r.pending.length = maxChars) ∧
    (∀ b, (r.feed b).2 = .stored →
      (((r.feed b).1.feed backspace).1.pending = r.pending ↔ r.pending.length + 1 ≠ maxChars)) ∧
    ∀ bs, (∀ e ∈ (r.feedAll bs).2, e = .stored) →
      ((r.feedAll (bs ++ List.replicate bs.length backspace)).1.draft = r.draft ↔
        bs = [] ∨ r.pending.length + bs.length ≠ maxChars) :=
  ⟨takesBack_iff r, forces_iff r, fun _ => pending_taken_back_iff,
    fun _ => draft_feedAll_taken_back r⟩

/-- Behind ninety-seven bytes there is room for a byte that is taken back; behind ninety-eight there is
not. -/
theorem backspace_law_nearly_full :
    let r := ((ofOrigin .console).feedAll (List.replicate 97 0x61)).1
    let s := (r.feed 0x62).1
    (r.feed 0x62).2 = .stored ∧ (s.feed backspace).1.pending = r.pending ∧
      (s.feed 0x63).2 = .stored ∧ ((s.feed 0x63).1.feed backspace).1.pending ≠ s.pending := by
  intro r s
  have hstored : (r.feed 0x62).2 = .stored := by decide +kernel
  have hstored' : (s.feed 0x63).2 = .stored := by decide +kernel
  have hlength : r.pending.length = 97 := by decide +kernel
  have hlength' : s.pending.length = 98 := by decide +kernel
  refine ⟨hstored, ?_, hstored', ?_⟩
  · exact ((backspace_law r).2.2.1 0x62 hstored).mpr (by rw [hlength]; decide)
  · rw [Ne, (backspace_law s).2.2.1 0x63 hstored', hlength']
    decide

/-- A backspace behind ninety-nine bytes takes nothing back: the line is completed, with all of them. -/
theorem backspace_completes_line :
    let r := ((ofOrigin .console).feedAll (List.replicate 99 0x61)).1
    (r.feed backspace).2 = .completed 99 true ∧ (r.feed backspace).1.pending = [] ∧
      (r.feed backspace).1.latest = List.replicate 99 0x61 ∧
      (r.feed backspace).1.completed = r.completed + 1 ∧ ¬ TakesBack r (r.feed backspace) := by
  intro r
  have hfull : r.pending = List.replicate 99 0x61 := by decide +kernel
  have hforces : Forces r (r.feed backspace) := forces_of_full (by rw [hfull]; decide)
  refine ⟨hforces.event, hforces.pending, hforces.latest.trans hfull, hforces.completed, ?_⟩
  rw [takesBack_iff, hfull]
  decide

end Receiver

end SerialConsole
