import SerialConsole.Proofs.Console.Acts
import SerialConsole.Proofs.Console.Course
import SerialConsole.Proofs.Console.Rounds
import SerialConsole.Proofs.Handoff.Wakeup

/-!
# How the loop ends

Each step of the loop is a list of moves of the hand-off: taking the token, with the bytes that arrive
right after, and collecting.  So a course of the loop continues the moves that led to its console, and
the lines that it answers are those that the moves hand out.

    run ⟨inbox of l⟩ ns = ⟨inbox of m⟩,   given ns = what es collected       (Course.moves)

The loop ends after at most one token more than there are batches: with the restart of the board, or
where there is no token.  In the second case no line is published either, since a published line has its
token, and every line that was completed so far was handed out or superseded.
-/

namespace SerialConsole

open Handoff

variable {H : Type}

/-- Another line was completed later, and none was handed out before that. -/
def Handoff.Superseded (ms : List Move) (c : Nat) : Prop :=
  ∃ k, c < k ∧ completedAt ms k ≠ none ∧ ∀ j, c < j → j ≤ k → handedAt ms j = none

/-- There is no token and no line, and every line that was completed was handed out or superseded. -/
structure Handoff.Settled (ms : List Move) (i : Inbox) : Prop where
  noToken : i.acquire? = none
  noLine : i.published = none
  served : ∀ c p, completedAt ms c = some p → (∃ t, Serves ms c t p) ∨ Superseded ms c

/-- The tokens that the loop took and did not use yet. -/
def Stage.holdings : Stage → Nat
  | .holding => 1
  | _ => 0

/-- The inbox of the loop, as the moves of the hand-off know it. -/
def Loop.handoff (l : Loop H) : Handoff := ⟨l.console.board.inbox, 0, l.stage.holdings⟩

/-- The moves `ns` are what the effects `es` do to the inbox on the way from `l` to `m`: they bring the
batches, and hand out what was collected. -/
structure Loop.Moves (l m : Loop H) (es : List (Effect H)) (ns : List Move) : Prop where
  arrivals : l.arrivals = es.filterMap Effect.batch? ++ m.arrivals
  typed : ∀ o, typed o ns = arrived (es.filterMap Effect.batch?) o
  run : run l.handoff ns = m.handoff
  given : given l.handoff ns = es.filterMap Effect.collected?

/-! ## Steps as moves -/

theorem Board.rest_of_takeToken? {b next : Board} {arrivals rest : List Batch}
    (h : b.takeToken? arrivals = some (next, rest)) : arrivals = arrivals.head?.toList ++ rest := by
  unfold takeToken? at h
  split at h
  · cases h
  · cases h
    rfl
  · cases h
    rfl

theorem Loop.Moves.trans {l m n : Loop H} {es es' : List (Effect H)} {ns ns' : List Move}
    (h : l.Moves m es ns) (h' : m.Moves n es' ns') : l.Moves n (es ++ es') (ns ++ ns') where
  arrivals := by
    rw [List.filterMap_append, List.append_assoc, ← h'.arrivals, ← h.arrivals]
  typed := by
    intro o
    rw [typed_append, h.typed, h'.typed, List.filterMap_append, arrived_append]
  run := by
    rw [run_append, h.run, h'.run]
  given := by
    rw [given_append, h.given, h.run, h'.given, List.filterMap_append]

/-- A step that leaves the inbox and the arrivals alone makes no move. -/
theorem Loop.Moves.still {l m : Loop H} {e : Effect H} (harrivals : m.arrivals = l.arrivals)
    (hhandoff : m.handoff = l.handoff) (hbatch : e.batch? = none) (hcollected : e.collected? = none) :
    l.Moves m [e] [] := by
  refine ⟨?_, ?_, hhandoff.symm, ?_⟩
  · rw [List.filterMap_cons_none hbatch, harrivals]
    rfl
  · intro o
    rw [List.filterMap_cons_none hbatch]
    rfl
  · rw [List.filterMap_cons_none hcollected]
    rfl

theorem filterMap_took (batch : Option Batch) :
    [Effect.took (H := H) batch].filterMap Effect.batch? = batch.toList := by
  cases batch <;> rfl

theorem filterMap_collected (parcel : Option Parcel) :
    [Effect.collected (H := H) parcel].filterMap Effect.collected? = parcel.toList := by
  cases parcel <;> rfl

/-- A step of the loop is a list of moves. -/
theorem Loop.moves_of_step? {service : Service H} {l m : Loop H} {e : Effect H}
    (h : l.step? service = some (e, m)) : ∃ ns, l.Moves m [e] ns := by
  obtain ⟨c, arrivals, stage⟩ := l
  cases stage with
  | waiting =>
    obtain ⟨⟨next, rest⟩, htaken, hnext⟩ := Option.map_eq_some_iff.mp h
    cases hnext
    have hrest := Board.rest_of_takeToken? htaken
    obtain ⟨batches, ns, hbatches, htyped, hns⟩ := moves_of_takeToken? htaken
    obtain rfl : batches = arrivals.head?.toList :=
      List.append_cancel_right (hbatches.symm.trans hrest)
    refine ⟨ns, ?_, ?_, (hns 0 0).1, (hns 0 0).2⟩
    · rw [filterMap_took]
      exact hrest
    · intro o
      rw [filterMap_took]
      exact htyped o
  | holding =>
    cases h
    refine ⟨[.collect], rfl, fun _ => rfl, ?_, ?_⟩
    · cases hparcel : c.board.collect.1 with
      | none => rfl
      | some p => rfl
    · rw [filterMap_collected]
      exact List.append_nil _
  | handed p =>
    cases h
    refine ⟨[], .still rfl ?_ rfl rfl⟩
    unfold Loop.handoff
    rw [Console.inbox_answerParcel]
    cases (c.answerParcel service p).step <;> rfl
  | stopped => cases h
  | _ =>
    cases h
    exact ⟨[], .still rfl rfl rfl rfl⟩

/-- **A course of the loop is a list of moves that hands out what the loop collects.** -/
theorem Course.moves {service : Service H} {l m : Loop H} {es : List (Effect H)}
    (h : Course service l es m) : ∃ ns, l.Moves m es ns := by
  induction h with
  | rest l => exact ⟨[], rfl, fun _ => rfl, rfl, rfl⟩
  | step hstep _ ih =>
    obtain ⟨ns, hns⟩ := Loop.moves_of_step? hstep
    obtain ⟨ns', hns'⟩ := ih
    exact ⟨ns ++ ns', hns.trans hns'⟩

/-! ## The moves that led to a console -/

namespace Console

/-- The act takes the token and collects nothing. -/
def Act.acquires : Act H → Bool
  | .meanwhile .acquire => true
  | _ => false

/-- An act that does not take a token for nothing is a call. -/
theorem calls_after (c : Console H) {a : Act H} (ha : a.acquires = false) :
    ∃ bytes ps ms, Calls c.board.inbox (c.after a).board.inbox bytes ps ms := by
  have hsame : ∀ inbox, inbox = c.board.inbox →
      ∃ bytes ps ms, Calls c.board.inbox inbox bytes ps ms := by
    rintro _ rfl
    exact ⟨_, _, _, Calls.none _⟩
  cases a with
  | register name handler description => exact hsame _ (inbox_register c _)
  | attach link => exact hsame _ (inbox_register { c with link := some link } _)
  | answer service raw => exact hsame _ (inbox_answer service c raw)
  | next service arrivals =>
    obtain ⟨batches, ms, -, hms⟩ := calls_await c.board arrivals
    rw [← inbox_next service] at hms
    exact ⟨_, _, _, hms⟩
  | meanwhile event =>
    cases event with
    | feed o byte =>
      obtain ⟨ms, hms⟩ := calls_feed c.board.inbox o byte
      rw [← inbox_feed] at hms
      exact ⟨_, _, _, hms⟩
    | take arrivals =>
      obtain ⟨batches, ms, -, hms⟩ := calls_await c.board arrivals
      exact ⟨_, _, _, hms⟩
    | release => exact ⟨_, _, [.spurious], fun _ => rfl, fun _ _ => rfl, fun _ _ => rfl⟩
    | acquire => exact absurd ha Bool.noConfusion
    | report =>
      obtain ⟨log, log', hreport⟩ := c.board.report_keeps
      refine hsame _ ?_
      show c.board.report.1.inbox = _
      rw [hreport]
    | _ => exact hsame _ rfl

theorem calls_afterAll (c : Console H) {acts : List (Act H)}
    (hacts : ∀ a ∈ acts, a.acquires = false) :
    ∃ bytes ps ms, Calls c.board.inbox (c.afterAll acts).board.inbox bytes ps ms := by
  induction acts generalizing c with
  | nil => exact ⟨_, _, _, Calls.none _⟩
  | cons a acts ih =>
    obtain ⟨ha, hrest⟩ := List.forall_mem_cons.mp hacts
    obtain ⟨bytes, ps, ms, hfirst⟩ := calls_after c ha
    obtain ⟨bytes', ps', ms', hlater⟩ := ih (c.after a) hrest
    exact ⟨_, _, _, hfirst.trans hlater⟩

/-- Acts lead to the console, and only waits took a token. -/
def ReachableByWaits (c : Console H) : Prop :=
  ∃ acts, (∀ a ∈ acts, Act.acquires a = false) ∧ c = (fresh .fresh).afterAll acts

/-- If only waits took a token, moves led to the inbox, and none of them is half done. -/
theorem ReachableByWaits.exists_moves {c : Console H} (hc : c.ReachableByWaits) :
    ∃ ms, start.run ms = ⟨c.board.inbox, 0, 0⟩ := by
  obtain ⟨acts, hacts, rfl⟩ := hc
  obtain ⟨bytes, ps, ms, hcalls⟩ := calls_afterAll (fresh .fresh) hacts
  exact ⟨ms, hcalls.run 0 0⟩

end Console

/-! ## Where the loop stops -/

/-- Without a token there is no line, and whatever was completed was handed out or superseded. -/
theorem Handoff.settled_of_no_token {ms : List Move} {i : Inbox} (hms : start.run ms = ⟨i, 0, 0⟩)
    (htoken : i.acquire? = none) : Settled ms i := by
  have hline : i.published = none := by
    refine Classical.byContradiction fun hpublished => ?_
    have hattended := attended_run attended_start ms
    rw [hms] at hattended
    rcases hattended hpublished with h | h | h
    · rw [Inbox.acquire?_eq, if_pos h] at htoken
      cases htoken
    · exact absurd h (Nat.lt_irrefl 0)
    · exact absurd h (Nat.lt_irrefl 0)
  have hwaiting : ¬ Unclaimed ms := by
    rw [← waiting_ne_none_iff, ← published_ne_none_iff, hms]
    exact fun h => h hline
  refine ⟨htoken, hline, ?_⟩
  intro c p hc
  have hlater : ∃ t, c < t ∧ handedAt ms t ≠ none := by
    refine Classical.byContradiction fun hnone => hwaiting ⟨c, ?_, ?_⟩
    · rw [hc]
      exact Option.some_ne_none p
    · intro t hlt
      exact Classical.byContradiction fun ht => hnone ⟨t, hlt, ht⟩
  obtain ⟨t, hlt, ht⟩ := hlater
  exact serves_or_superseded hc hlt ht

theorem Loop.acquire?_of_stopped {service : Service H} {l : Loop H} (h : l.step? service = none)
    (hstage : l.stage = .waiting) : l.console.board.inbox.acquire? = none := by
  obtain ⟨c, arrivals, stage⟩ := l
  cases hstage
  have htoken : c.board.takeToken? arrivals = none := Option.map_eq_none_iff.mp h
  unfold Board.takeToken? at htoken
  split at htoken
  · assumption
  · cases htoken
  · cases htoken

namespace Console

/-- **The run law.**  Whatever arrives while it runs, the loop comes to an end, after one token more
than there are batches at most, and there is one order only in which it does things.  It answers the
lines one by one in the order in which they are handed out, and what it comes to is what these turns do.
Nothing is asked of the board before a line resets it; then the board pauses for a second, is restarted,
and nothing follows.  If no line resets the board, the loop ends where there is no token, and then every
line that was completed so far was handed out or superseded. -/
theorem run_law {c : Console H} (hc : c.ReachableByWaits) (service : Service H)
    (arrivals : List Batch) :
    ∃ es l, Course service ⟨c, arrivals, .waiting⟩ es l ∧
      (∀ es' l', Course service ⟨c, arrivals, .waiting⟩ es' l' → es' <+: es) ∧
      (c.run service arrivals).Tells es l ∧ Orderly es (c.run service arrivals).ending ∧
      ((c.run service arrivals).ending = .reset ↔
        ∃ t ∈ es.filterMap Effect.turn?, t.step = .reset) ∧
      (c.run service arrivals).pauses =
        (if (c.run service arrivals).ending = .reset then [1000] else []) ∧
      es.countP Effect.isTook ≤ arrivals.length + 1 ∧
      (∃ ms, start.run ms = ⟨c.board.inbox, 0, 0⟩) ∧
      ∀ ms, start.run ms = ⟨c.board.inbox, 0, 0⟩ →
        ∃ ns, Loop.Moves ⟨c, arrivals, .waiting⟩ l es ns ∧
          given (start.run ms) ns = es.filterMap Effect.answered? ∧
          ((c.run service arrivals).ending = .waiting →
            Settled (ms ++ ns) l.console.board.inbox) := by
  obtain ⟨es, l, hcourse, hstop, horder, htells⟩ := exists_course service c arrivals
  have htokens : es.countP Effect.isTook ≤ arrivals.length + 1 :=
    calc es.countP Effect.isTook
        ≤ es.countP Effect.isTook + l.console.board.rounds l.arrivals := Nat.le_add_right _ _
      _ ≤ c.board.rounds arrivals := hcourse.tokens_le
      _ ≤ arrivals.length + 1 := c.board.rounds_le arrivals
  refine ⟨es, l, hcourse, fun _ _ => hcourse.isPrefix hstop, htells, horder,
    horder.ending_eq_reset_iff, htells.pauses.trans horder.pauses, htokens, hc.exists_moves, ?_⟩
  intro ms hms
  obtain ⟨ns, hns⟩ := hcourse.moves
  refine ⟨ns, hns, ?_, ?_⟩
  · rw [hms, horder.answered]
    exact hns.given
  · intro hending
    have hstage : l.stage = .waiting := by
      rw [htells.stage, hending]
      rfl
    have hrun : start.run (ms ++ ns) = ⟨l.console.board.inbox, 0, 0⟩ := by
      rw [run_append, hms]
      refine hns.run.trans ?_
      rw [Loop.handoff, hstage]
      rfl
    exact settled_of_no_token hrun (Loop.acquire?_of_stopped hstop hstage)

theorem ending_of_reset {service : Service H} {c : Console H} {arrivals rest : List Batch} {t : Turn H}
    (hnext : c.next service arrivals = .served t rest) (hreset : t.step = .reset) :
    (c.run service arrivals).ending = .reset := by
  rw [run]
  split
  · next h =>
    rw [hnext] at h
    cases h
  · next t' rest' h =>
    rw [hnext] at h
    cases h
    rw [hreset]

/-- While the token of a comment is taken, bytes arrive from both origins, and with them a line that
resets the board.  It is answered in the place of the comment, and the batch behind it is not waited
for. -/
theorem run_law_reset :
    let service : Service Unit := fun _ _ _ => .ok ""
    let c := (fresh .fresh).afterAll ([0x23, 0x0d].map fun b => .meanwhile (.feed .console b))
    let arrivals : List Batch :=
      [[(.link, 0x72), (.console, 0x68), (.link, 0x0d)], .ofOrigin .console [0x0d]]
    c.ReachableByWaits ∧ (c.run service arrivals).pauses = [1000] ∧
      ∃ es l, Course service ⟨c, arrivals, .waiting⟩ es l ∧ Orderly es .reset := by
  intro service c arrivals
  have hc : c.ReachableByWaits := ⟨_, by decide, rfl⟩
  have hparcel : (c.board.takeToken? arrivals).map (fun taken => taken.1.collect.1) =
      some (some ⟨.link, [0x72]⟩) := by
    decide +kernel
  obtain ⟨⟨next, rest⟩, htaken, hcollect⟩ := Option.map_eq_some_iff.mp hparcel
  have hp : (c.board.await arrivals).parcel = some ⟨.link, [0x72]⟩ := by
    dsimp only at hcollect
    rw [Board.await_of_token htaken, hcollect]
    rfl
  have htext : Text.legible [0x72] = "r" := by decide +kernel
  have hending : (c.run service arrivals).ending = .reset := by
    refine ending_of_reset (next_of_parcel service c hp) ?_
    rw [htext, step_answer_iff, lineFor, if_neg (by decide)]
    exact ⟨by decide, by decide +kernel⟩
  obtain ⟨es, l, hcourse, -, -, horder, -, hpauses, -⟩ := run_law hc service arrivals
  rw [hending] at horder hpauses
  exact ⟨hc, hpauses, es, l, hcourse, horder⟩

end Console

end SerialConsole
