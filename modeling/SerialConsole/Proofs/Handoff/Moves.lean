import SerialConsole.Delivery
import SerialConsole.Proofs.Receiver.Draft

/-!
# The hand-off, move by move

Feeding a byte and waiting for a line are no single steps.  A feed deposits its byte, and if that
completes a line it releases the token in a second step; a reader takes the token first and collects
in a second step.  Anything may come between: bytes of either origin, other releases, other readers.
A list of moves is one such order, and any list is allowed; a move whose turn it is not changes
nothing.

What a reader would get at a moment is what is `waiting`.  A move can do three things to it: put a
completed line there, hand it out, or leave it alone (`waiting_after`).  Each receiver knows of the
bytes of its own origin only (`receiver_run`).
-/

namespace SerialConsole

/-- The inbox, and the feeds and waits that are under way. -/
structure Handoff where
  inbox : Inbox
  /-- Feeds that completed a line and have still to release the token. -/
  owed : Nat
  /-- Readers that took the token and have still to collect. -/
  holding : Nat

namespace Handoff

/-- An atomic move: a byte arrives, and a line that it completes is published at once; the release
that follows such a line; a release that no line led to; a reader takes the token, if it is there; a
reader that took the token collects. -/
inductive Move where
  | deposit (o : Origin) (b : UInt8)
  | release
  | spurious
  | acquire
  | collect
  deriving Repr, DecidableEq

def Move.typed (o : Origin) : Move → Bytes
  | .deposit o' b => if o' = o then [b] else []
  | _ => []

/-- The bytes of an origin among some moves. -/
def typed (o : Origin) (ms : List Move) : Bytes := ms.flatMap (Move.typed o)

def start : Handoff := ⟨.empty, 0, 0⟩

def after (h : Handoff) : Move → Handoff
  | .deposit o b =>
    { h with
      inbox := (h.inbox.deposit o b).1
      owed := if (h.inbox.deposit o b).2.isCompleted then h.owed + 1 else h.owed }
  | .release => if h.owed = 0 then h else { h with inbox := h.inbox.release, owed := h.owed - 1 }
  | .spurious => { h with inbox := h.inbox.release }
  | .acquire =>
    match h.inbox.acquire? with
    | none => h
    | some inbox => { h with inbox := inbox, holding := h.holding + 1 }
  | .collect =>
    if h.holding = 0 then h else { h with inbox := h.inbox.collect.2, holding := h.holding - 1 }

def run (h : Handoff) (ms : List Move) : Handoff := ms.foldl after h

/-- The line that a move completes. -/
def completes (h : Handoff) : Move → Option Parcel
  | .deposit o b =>
    if (h.inbox.deposit o b).2.isCompleted then some ⟨o, (h.inbox.receiver o).pending⟩ else none
  | _ => none

/-- The line that a move hands out. -/
def gives (h : Handoff) : Move → Option Parcel
  | .collect => if h.holding = 0 then none else h.inbox.collect.1
  | _ => none

/-- The lines that some moves hand out, in their order. -/
def given (h : Handoff) : List Move → List Parcel
  | [] => []
  | m :: ms => (h.gives m).toList ++ (h.after m).given ms

/-- What a reader would get now. -/
def waiting (h : Handoff) : Option Parcel := h.inbox.collect.1

/-! ## One move -/

theorem run_append (h : Handoff) (ms ns : List Move) : h.run (ms ++ ns) = (h.run ms).run ns :=
  List.foldl_append

theorem given_append (h : Handoff) (ms ns : List Move) :
    h.given (ms ++ ns) = h.given ms ++ (h.run ms).given ns := by
  induction ms generalizing h with
  | nil => rfl
  | cons m ms ih =>
    rw [List.cons_append, given, given, ih, List.append_assoc]
    rfl

theorem typed_append (o : Origin) (ms ns : List Move) :
    typed o (ms ++ ns) = typed o ms ++ typed o ns :=
  List.flatMap_append

/-- A byte that completes a line leaves that line waiting; any other leaves alone what is waiting,
also when it belongs to the origin of the waiting line. -/
theorem waiting_deposit (h : Handoff) (o : Origin) (b : UInt8) :
    (h.after (.deposit o b)).waiting =
      if (h.inbox.deposit o b).2.isCompleted then some ⟨o, (h.inbox.receiver o).pending⟩
      else h.waiting := by
  rw [Inbox.event_deposit]
  cases hc : ((h.inbox.receiver o).feed b).2.isCompleted with
  | true =>
    rw [waiting, Inbox.collect_fst]
    simp only [after, Inbox.published_deposit, hc, if_true, Option.map_some,
      Inbox.receiver_deposit, Receiver.latest_feed]
  | false =>
    rw [if_neg Bool.false_ne_true]
    refine Inbox.collect_congr ?_ fun o' => ?_
    · simp only [after, Inbox.published_deposit, hc, Bool.false_eq_true, if_false]
    · by_cases ho : o' = o
      · subst ho
        simp only [after, Inbox.receiver_deposit, Receiver.latest_feed, hc, Bool.false_eq_true,
          if_false]
      · simp only [after, Inbox.receiver_deposit_of_ne _ _ ho]

theorem waiting_of_gives {h : Handoff} {m : Move} {p : Parcel} (hm : h.gives m = some p) :
    h.waiting = some p := by
  cases m with
  | collect =>
    simp only [gives] at hm
    split at hm
    · cases hm
    · exact hm
  | _ => cases hm

/-- What a move does to what is waiting. -/
theorem waiting_after (h : Handoff) (m : Move) :
    (h.after m).waiting = match h.completes m, h.gives m with
      | some p, _ => some p
      | none, some _ => none
      | none, none => h.waiting := by
  cases m with
  | deposit o b =>
    rw [waiting_deposit]
    simp only [completes, gives]
    split <;> rfl
  | release =>
    simp only [completes, gives, after]
    split
    · rfl
    · exact Inbox.collect_congr rfl fun o => by rw [Inbox.receiver_release]
  | spurious => exact Inbox.collect_congr rfl fun o => by rw [after, Inbox.receiver_release]
  | acquire =>
    simp only [completes, gives, after, Inbox.acquire?_eq]
    cases h.inbox.semaphore.available
    · rfl
    · exact Inbox.collect_congr rfl fun o => by cases o <;> rfl
  | collect =>
    simp only [completes, gives, after]
    by_cases hh : h.holding = 0
    · simp only [if_pos hh]
    · simp only [if_neg hh]
      have hnone : Handoff.waiting ⟨h.inbox.collect.2, h.owed, h.holding - 1⟩ = none := by
        rw [waiting, Inbox.collect_fst, Inbox.published_collect]
        rfl
      rw [hnone]
      cases hw : h.inbox.collect.1 with
      | some p => rfl
      | none => exact hw.symm

theorem receiver_after (h : Handoff) (m : Move) (o : Origin) :
    (h.after m).inbox.receiver o = ((h.inbox.receiver o).feedAll (m.typed o)).1 := by
  cases m with
  | deposit o' b =>
    simp only [after, Move.typed]
    by_cases ho : o' = o
    · subst ho
      rw [if_pos rfl]
      exact Inbox.receiver_deposit _ _ _
    · rw [if_neg ho]
      exact Inbox.receiver_deposit_of_ne _ _ (Ne.symm ho)
  | release =>
    simp only [after, Move.typed]
    split
    · rfl
    · exact Inbox.receiver_release _ _
  | spurious => exact Inbox.receiver_release _ _
  | acquire =>
    simp only [after, Move.typed, Inbox.acquire?_eq]
    cases h.inbox.semaphore.available <;> cases o <;> rfl
  | collect =>
    simp only [after, Move.typed]
    split
    · rfl
    · exact Inbox.receiver_collect _ _

/-! ## Runs of moves -/

theorem receiver_start (o : Origin) : start.inbox.receiver o = .ofOrigin o := by
  cases o <;> rfl

/-- Whatever else happens, a receiver is what the bytes of its own origin make of it. -/
theorem receiver_run (h : Handoff) (ms : List Move) (o : Origin) :
    (h.run ms).inbox.receiver o = ((h.inbox.receiver o).feedAll (typed o ms)).1 := by
  induction ms generalizing h with
  | nil => rfl
  | cons m ms ih =>
    show ((h.after m).run ms).inbox.receiver o = _
    rw [ih, receiver_after, ← Receiver.feedAll_append]
    rfl

end Handoff

end SerialConsole
