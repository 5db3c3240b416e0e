import SerialConsole.Proofs.Receiver.Draft

/-!
# Typing a line

What an operator types in front of a carriage return is edited: line feeds are dropped, a backspace
takes back the last byte that was kept, if any, and every other byte is kept.  As long as no line is
forced, the receiver has exactly the edited bytes pending, and a carriage return makes them its
latest line:

    (r.feedAll bs).1.pending                        = edited bs
    (r.feedAll (bs ++ [carriageReturn])).1.draft    = ⟨[], edited bs, r.completed + 1, r.forced⟩
-/

namespace SerialConsole

namespace Receiver

/-- What is kept of a line when one more byte is typed. -/
def edit (kept : Bytes) (b : UInt8) : Bytes :=
  if b = lineFeed then kept
  else if b = backspace then kept.dropLast
  else kept ++ [b]

/-- What is kept of the bytes of a line. -/
def edited (bs : Bytes) : Bytes := bs.foldl edit []

/-- A line was completed by force. -/
def Event.isForced : Event → Bool
  | completed _ forced => forced
  | _ => false

/-- The bytes hold no carriage return, and typed on a new line they force none. -/
def Typable (bs : Bytes) : Prop :=
  carriageReturn ∉ bs ∧ ∀ e ∈ ((ofOrigin .console).feedAll bs).2, e.isForced = false

instance (bs : Bytes) : Decidable (Typable bs) := inferInstanceAs (Decidable (_ ∧ _))

end Receiver

namespace Draft

open Receiver

/-- What a byte comes to depends on the line in progress alone. -/
theorem event_feed_congr {d d' : Draft} (h : d.pending = d'.pending) (keepsLineFeed : Bool)
    (b : UInt8) : (d.feed keepsLineFeed b).2 = (d'.feed keepsLineFeed b).2 ∧
      (d.feed keepsLineFeed b).1.pending = (d'.feed keepsLineFeed b).1.pending := by
  unfold feed
  rw [h]
  split
  · exact ⟨rfl, h⟩
  · split
    · exact ⟨rfl, rfl⟩
    · split <;> exact ⟨rfl, rfl⟩

theorem events_feedAll_congr {d d' : Draft} (h : d.pending = d'.pending) (keepsLineFeed : Bool)
    (bs : Bytes) : (d.feedAll keepsLineFeed bs).2 = (d'.feedAll keepsLineFeed bs).2 := by
  induction bs generalizing d d' with
  | nil => rfl
  | cons b bs ih =>
    obtain ⟨hevent, hpending⟩ := event_feed_congr h keepsLineFeed b
    rw [feedAll, feedAll, hevent, ih hpending]

/-- A byte that neither ends the line nor forces it edits what is pending. -/
theorem feed_of_not_forced {d : Draft} {b : UInt8} (hcr : b ≠ carriageReturn)
    (hforced : (d.feed false b).2.isForced = false) :
    (d.feed false b).1 = { d with pending := edit d.pending b } ∧
      (d.feed false b).2.isCompleted = false := by
  unfold feed at hforced ⊢
  unfold edit
  by_cases hlf : b = lineFeed
  · rw [if_pos ⟨rfl, hlf⟩, if_pos hlf]
    exact ⟨rfl, rfl⟩
  · have hkept : ¬ (false = false ∧ b = lineFeed) := fun h => hlf h.2
    rw [if_neg hkept] at hforced ⊢
    rw [if_neg hlf]
    by_cases hend : b = carriageReturn ∨ d.pending.length = Settings.maxChars
    · rw [if_pos hend] at hforced
      exact absurd (decide_eq_true hcr) (Bool.eq_false_iff.mp hforced)
    · rw [if_neg hend]
      by_cases hbs : b = backspace
      · rw [if_pos hbs, if_pos hbs]
        exact ⟨rfl, rfl⟩
      · rw [if_neg hbs, if_neg hbs]
        exact ⟨rfl, rfl⟩

theorem feedAll_of_not_forced {d : Draft} {bs : Bytes} (hcr : carriageReturn ∉ bs)
    (hforced : ∀ e ∈ (d.feedAll false bs).2, e.isForced = false) :
    (d.feedAll false bs).1 = { d with pending := bs.foldl edit d.pending } ∧
      ∀ e ∈ (d.feedAll false bs).2, e.isCompleted = false := by
  induction bs generalizing d with
  | nil => exact ⟨rfl, fun e he => absurd he List.not_mem_nil⟩
  | cons b bs ih =>
    have hb : b ≠ carriageReturn := fun h => hcr (h ▸ List.mem_cons_self)
    obtain ⟨hfirst, hnot⟩ := feed_of_not_forced hb (hforced _ List.mem_cons_self)
    obtain ⟨hrest, hnots⟩ := ih (fun h => hcr (List.mem_cons_of_mem b h))
      fun e he => hforced e (List.mem_cons_of_mem _ he)
    refine ⟨?_, ?_⟩
    · rw [feedAll, hrest, hfirst]
      rfl
    · rw [feedAll]
      exact List.forall_mem_cons.mpr ⟨hnot, hnots⟩

end Draft

namespace Receiver

/-- An operator's receiver with an empty line in progress reports what a fresh one reports. -/
theorem events_feedAll_of_pending_eq_nil {r : Receiver} (hkeeps : r.keepsLineFeed = false)
    (hnil : r.pending = []) (bs : Bytes) :
    (r.feedAll bs).2 = ((ofOrigin .console).feedAll bs).2 := by
  rw [(r.feedAll_eq_draft bs).2, (Receiver.feedAll_eq_draft _ bs).2, hkeeps]
  exact Draft.events_feedAll_congr hnil false bs

/-- A typable line is edited, and completes nothing by itself. -/
theorem feedAll_of_typable {r : Receiver} (hkeeps : r.keepsLineFeed = false)
    (hnil : r.pending = []) {bs : Bytes} (hbs : Typable bs) :
    (r.feedAll bs).1.draft = ⟨edited bs, r.latest, r.completed, r.forced⟩ ∧
      ∀ e ∈ (r.feedAll bs).2, e.isCompleted = false := by
  have hforced := hbs.2
  rw [← events_feedAll_of_pending_eq_nil hkeeps hnil] at hforced
  obtain ⟨hdraft, hevents⟩ := r.feedAll_eq_draft bs
  rw [hkeeps] at hdraft hevents
  rw [hevents] at hforced ⊢
  obtain ⟨hfed, hnot⟩ := Draft.feedAll_of_not_forced hbs.1 hforced
  refine ⟨?_, hnot⟩
  have hempty : r.draft.pending = [] := hnil
  rw [hdraft, hfed, hempty]
  rfl

theorem feed_carriageReturn (r : Receiver) :
    r.feed carriageReturn = (r.complete false, .completed r.pending.length false) := by
  rcases r.feed_cases carriageReturn with ⟨-, hlf, -⟩ | ⟨-, -, h⟩ | ⟨-, hend, -⟩ | ⟨-, hend, -⟩
  · exact absurd hlf (by decide)
  · exact h
  · exact absurd (Or.inl rfl) hend
  · exact absurd (Or.inl rfl) hend

/-- The carriage return after a typable line makes the edited bytes the latest line. -/
theorem draft_feedAll_line {r : Receiver} (hkeeps : r.keepsLineFeed = false)
    (hnil : r.pending = []) {bs : Bytes} (hbs : Typable bs) :
    (r.feedAll (bs ++ [carriageReturn])).1.draft =
      ⟨[], edited bs, r.completed + 1, r.forced⟩ := by
  obtain ⟨hdraft, -⟩ := feedAll_of_typable hkeeps hnil hbs
  rw [feedAll_append]
  show ((r.feedAll bs).1.feed carriageReturn).1.draft = _
  rw [feed_carriageReturn, draft_complete, hdraft]
  rfl

/-- Backspaces on an empty line and a line feed leave nothing behind. -/
example : edited [0x08, 0x68, 0x78, 0x08, 0x0a, 0x69] = [0x68, 0x69] := by decide

end Receiver

end SerialConsole
