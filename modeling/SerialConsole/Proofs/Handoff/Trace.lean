import SerialConsole.Proofs.Handoff.Calls

/-!
# The trace law of the hand-off

A list of moves is told of by two things: which lines its bytes complete, which is read off the
bytes alone (`completedAt`), and which lines its readers are handed (`handedAt`).  The law ties the
second to the first.  Every line that is handed out is the one completed last, and it was completed
after the hand-out before:

    Serves ms c t p : move c completes the line p and move t hands it out; no line is completed
                      between them, and every hand-out before t is before c

So a line is handed out once at most and whole, lines are handed out in the order in which they were
completed, and one is passed over only if another was completed before a reader came.
-/

namespace SerialConsole

namespace Handoff

/-- What the bytes of an origin among some moves come to. -/
def draftAfter (o : Origin) (ms : List Move) : Draft :=
  (Draft.blank.feedAll o.keepsLineFeed (typed o ms)).1

/-- The line that move number `t` completes, by the bytes that came before it alone. -/
def completedAt (ms : List Move) (t : Nat) : Option Parcel :=
  match ms[t]? with
  | some (.deposit o b) =>
    if (draftAfter o (ms.take t)).Ends o.keepsLineFeed b then
      some ⟨o, (draftAfter o (ms.take t)).pending⟩
    else none
  | _ => none

/-- The line that move number `t` hands out. -/
def handedAt (ms : List Move) (t : Nat) : Option Parcel :=
  ms[t]?.bind (start.run (ms.take t)).gives

/-- Move `t` hands out the line `p` that move `c` completed, the last one before it. -/
structure Serves (ms : List Move) (c t : Nat) (p : Parcel) : Prop where
  lt : c < t
  completed : completedAt ms c = some p
  handed : handedAt ms t = some p
  last : ∀ k, c < k → k < t → completedAt ms k = none
  /-- The line was completed after every earlier hand-out. -/
  fresh : ∀ k, k < t → handedAt ms k ≠ none → k < c

/-! ## Lines by their bytes -/

theorem keepsLineFeed_run (ms : List Move) (o : Origin) :
    ((start.run ms).inbox.receiver o).keepsLineFeed = o.keepsLineFeed := by
  rw [receiver_run, Receiver.keepsLineFeed_feedAll, receiver_start, Receiver.ofOrigin_eq_fresh]
  rfl

theorem draft_run (ms : List Move) (o : Origin) :
    ((start.run ms).inbox.receiver o).draft = draftAfter o ms := by
  rw [receiver_run, receiver_start, Receiver.ofOrigin_eq_fresh]
  rw [((Receiver.fresh o.keepsLineFeed).feedAll_eq_draft _).1, Receiver.draft_fresh]
  rfl

/-- The inbox agrees with the bytes on which moves complete a line, and on the line. -/
theorem completedAt_eq (ms : List Move) (t : Nat) :
    completedAt ms t = ms[t]?.bind (start.run (ms.take t)).completes := by
  unfold completedAt
  cases hm : ms[t]? with
  | none => rfl
  | some m =>
    cases m with
    | deposit o b =>
      have hdraft := draft_run (ms.take t) o
      have hends := Draft.isCompleted_feed o.keepsLineFeed (draftAfter o (ms.take t)) b
      show _ = (start.run (ms.take t)).completes (.deposit o b)
      simp only [completes, Inbox.event_deposit, Receiver.event_feed, keepsLineFeed_run, hdraft]
      rw [← hdraft] at hends ⊢
      by_cases h : ((start.run (ms.take t)).inbox.receiver o).draft.Ends o.keepsLineFeed b
      · rw [if_pos h, if_pos (hends.mpr h)]
        rfl
      · rw [if_neg h, if_neg fun hc => h (hends.mp hc)]
    | _ => rfl

theorem run_take_succ {ms : List Move} {n : Nat} {m : Move} (hm : ms[n]? = some m) :
    start.run (ms.take (n + 1)) = (start.run (ms.take n)).after m := by
  rw [List.take_add_one, hm, run_append]
  rfl

/-- What is waiting after `n + 1` moves, by what the last of them does. -/
theorem waiting_take_succ (ms : List Move) (n : Nat) :
    (start.run (ms.take (n + 1))).waiting = match completedAt ms n, handedAt ms n with
      | some p, _ => some p
      | none, some _ => none
      | none, none => (start.run (ms.take n)).waiting := by
  rw [completedAt_eq, handedAt]
  cases hm : ms[n]? with
  | none =>
    rw [List.take_add_one, hm]
    show (start.run (ms.take n ++ [])).waiting = _
    rw [List.append_nil]
    rfl
  | some m =>
    rw [run_take_succ hm]
    exact waiting_after _ m

/-! ## What is waiting, by the moves -/

/-- What is waiting was completed last, and not handed out since. -/
theorem completed_of_waiting (ms : List Move) (n : Nat) (p : Parcel)
    (hp : (start.run (ms.take n)).waiting = some p) :
    ∃ c, c < n ∧ completedAt ms c = some p ∧
      ∀ k, c < k → k < n → completedAt ms k = none ∧ handedAt ms k = none := by
  induction n with
  | zero => cases hp
  | succ n ih =>
    rw [waiting_take_succ] at hp
    cases hc : completedAt ms n with
    | some q =>
      rw [hc] at hp
      exact ⟨n, Nat.lt_succ_self n, hc.trans hp, fun k hlt hle => by omega⟩
    | none =>
      cases hh : handedAt ms n with
      | some q =>
        rw [hc, hh] at hp
        cases hp
      | none =>
        rw [hc, hh] at hp
        obtain ⟨c, hlt, hcompleted, hbetween⟩ := ih hp
        refine ⟨c, by omega, hcompleted, fun k hck hkn => ?_⟩
        by_cases hk : k = n
        · rw [hk]
          exact ⟨hc, hh⟩
        · exact hbetween k hck (by omega)

/-- If nothing is waiting, every completed line is followed by a hand-out. -/
theorem handed_of_not_waiting (ms : List Move) (n : Nat)
    (hn : (start.run (ms.take n)).waiting = none) (c : Nat) (hlt : c < n)
    (hc : completedAt ms c ≠ none) : ∃ k, c < k ∧ k < n ∧ handedAt ms k ≠ none := by
  induction n with
  | zero => omega
  | succ n ih =>
    rw [waiting_take_succ] at hn
    cases hcn : completedAt ms n with
    | some q =>
      rw [hcn] at hn
      cases hn
    | none =>
      have hne : c ≠ n := by
        rintro rfl
        exact hc hcn
      cases hh : handedAt ms n with
      | some q =>
        refine ⟨n, by omega, Nat.lt_succ_self n, ?_⟩
        rw [hh]
        exact Option.some_ne_none q
      | none =>
        rw [hcn, hh] at hn
        obtain ⟨k, hck, hkn, hk⟩ := ih hn (by omega)
        exact ⟨k, hck, by omega, hk⟩

theorem handedAt_of_completedAt {ms : List Move} {c : Nat} (hc : completedAt ms c ≠ none) :
    handedAt ms c = none := by
  unfold completedAt at hc
  unfold handedAt
  cases hm : ms[c]? with
  | none => rfl
  | some m =>
    cases m with
    | deposit o b => rfl
    | _ => exact absurd (by rw [hm]) hc

/-! ## The law -/

theorem serves_of_handedAt {ms : List Move} {t : Nat} {p : Parcel} (ht : handedAt ms t = some p) :
    ∃ c, Serves ms c t p := by
  have hwaiting : (start.run (ms.take t)).waiting = some p := by
    obtain ⟨m, -, hm⟩ := Option.bind_eq_some_iff.mp ht
    exact waiting_of_gives hm
  obtain ⟨c, hlt, hcompleted, hbetween⟩ := completed_of_waiting ms t p hwaiting
  refine ⟨c, hlt, hcompleted, ht, fun k hck hkt => (hbetween k hck hkt).1, fun k hkt hk => ?_⟩
  have hkc : k ≠ c := by
    rintro rfl
    refine hk (handedAt_of_completedAt ?_)
    rw [hcompleted]
    exact Option.some_ne_none p
  rcases Nat.lt_or_gt_of_ne hkc with h | h
  · exact h
  · exact absurd (hbetween k h hkt).2 hk

/-- Lines are handed out in the order in which they were completed, each of them once. -/
theorem Serves.lt_iff_lt {ms : List Move} {c c' t t' : Nat} {p p' : Parcel}
    (h : Serves ms c t p) (h' : Serves ms c' t' p') : c < c' ↔ t < t' := by
  have hcompleted' : completedAt ms c' ≠ none := by
    rw [h'.completed]
    exact Option.some_ne_none p'
  have hhanded : handedAt ms t ≠ none := by
    rw [h.handed]
    exact Option.some_ne_none p
  have hhanded' : handedAt ms t' ≠ none := by
    rw [h'.handed]
    exact Option.some_ne_none p'
  have hlt := h.lt
  have hlt' := h'.lt
  constructor
  · intro hcc
    refine Nat.lt_of_not_le fun hle => ?_
    rcases Nat.lt_or_eq_of_le hle with ht | ht
    · have := h.fresh t' ht hhanded'
      omega
    · exact hcompleted' (h.last c' hcc (by omega))
  · intro ht
    have := h'.fresh t ht hhanded
    omega

/-- The first hand-out after a line was completed is of that line, unless another was completed in
the meantime. -/
theorem serves_or_superseded {ms : List Move} {c t : Nat} {p : Parcel}
    (hc : completedAt ms c = some p) (hlt : c < t) (ht : handedAt ms t ≠ none) :
    (∃ t, Serves ms c t p) ∨
      ∃ k, c < k ∧ completedAt ms k ≠ none ∧ ∀ j, c < j → j ≤ k → handedAt ms j = none := by
  have hsome : completedAt ms c ≠ none := by
    rw [hc]
    exact Option.some_ne_none p
  induction t using Nat.strongRecOn with
  | ind t ih =>
    by_cases hearlier : ∃ j, c < j ∧ j < t ∧ handedAt ms j ≠ none
    · obtain ⟨j, hcj, hjt, hj⟩ := hearlier
      exact ih j hjt hcj hj
    · have hnone : ∀ j, c < j → j < t → handedAt ms j = none := by
        intro j hcj hjt
        exact Classical.byContradiction fun hj => hearlier ⟨j, hcj, hjt, hj⟩
      obtain ⟨q, hq⟩ := Option.ne_none_iff_exists'.mp ht
      obtain ⟨k, hk⟩ := serves_of_handedAt hq
      have hks : completedAt ms k ≠ none := by
        rw [hk.completed]
        exact Option.some_ne_none q
      -- the line handed out at `t` is the one completed at `c`, or it was completed later
      rcases Nat.lt_trichotomy c k with h | h | h
      · refine Or.inr ⟨k, h, hks, fun j hcj hjk => hnone j hcj ?_⟩
        exact Nat.lt_of_le_of_lt hjk hk.lt
      · subst h
        have hpq : q = p := Option.some.inj (hk.completed.symm.trans hc)
        exact Or.inl ⟨t, hpq ▸ hk⟩
      · exact absurd (hk.last c h hlt) hsome

/-- **The trace law.**  In every order of the moves, whatever is handed out is the line completed
last, by its own bytes and with its own origin, and it was completed after the hand-out before.
Lines are handed out in the order of their completion, none of them twice, and a line that readers
pass over was superseded before any of them came.  Feeds and waits are lists of such moves: a feed
hands out nothing, and a wait exactly what it returns. -/
theorem trace_law (ms : List Move) :
    (∀ t p, handedAt ms t = some p → ∃ c, Serves ms c t p) ∧
    (∀ c c' t t' p p', Serves ms c t p → Serves ms c' t' p' → (c < c' ↔ t < t')) ∧
    (∀ c t p, completedAt ms c = some p → c < t → handedAt ms t ≠ none →
      (∃ t, Serves ms c t p) ∨
        ∃ k, c < k ∧ completedAt ms k ≠ none ∧ ∀ j, c < j → j ≤ k → handedAt ms j = none) ∧
    (∀ (b : Board) (o : Origin) (bs : Bytes), ∃ ns,
      Calls b.inbox (b.feedAll o bs).1.inbox (bytesOn o bs) [] ns) ∧
    (∀ (b : Board) (arrivals : List Batch), ∃ batches ns,
      arrivals = batches ++ (b.await arrivals).arrivals ∧
        Calls b.inbox (b.await arrivals).board.inbox (arrived batches)
          (b.await arrivals).parcel.toList ns) := by
  refine ⟨fun t p ht => serves_of_handedAt ht, ?_, ?_, calls_feedAll, calls_await⟩
  · intro c c' t t' p p' h h'
    exact h.lt_iff_lt h'
  · intro c t p hc hlt ht
    exact serves_or_superseded hc hlt ht

/-- An operator's line, a reader's token, and a line of the link that arrives before the reader
collects. -/
def lateLine : List Move :=
  [.deposit .console 0x61, .deposit .console 0x0d, .release, .acquire, .deposit .link 0x62,
    .deposit .link 0x0d, .collect, .release]

theorem trace_law_lateLine :
    handedAt lateLine 6 = some ⟨.link, [0x62]⟩ ∧ ∃ c, Serves lateLine c 6 ⟨.link, [0x62]⟩ := by
  have h : handedAt lateLine 6 = some ⟨.link, [0x62]⟩ := by decide +kernel
  exact ⟨h, (trace_law lateLine).1 6 _ h⟩

end Handoff

end SerialConsole
