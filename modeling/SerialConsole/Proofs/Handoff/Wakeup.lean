import SerialConsole.Proofs.Handoff.Trace

/-!
# No lost wake-up

A completed line is published in one move and its token is released in another, tokens saturate, and
a token may outlive its line.  Still a published line never lacks somebody to come for it: the token
is there, or a feed has still to release it, or a reader has still to collect (`Attended`).

So once no feed is under way, a wait comes to a line without waiting exactly if one was completed
since the last hand-out, and it needs one token at most:

    Unclaimed ms  ↔  what is waiting after ms is some line      (waiting_ne_none_iff)
    b.await []    =  one round, or none if there is no token    (await_nil)
-/

namespace SerialConsole

namespace Handoff

/-- A published line has a token, a feed that will release one, or a reader that will collect. -/
def Attended (h : Handoff) : Prop :=
  h.inbox.published ≠ none →
    h.inbox.semaphore.available = true ∨ 0 < h.owed ∨ 0 < h.holding

/-- A line was completed since the last hand-out. -/
def Unclaimed (ms : List Move) : Prop :=
  ∃ c, completedAt ms c ≠ none ∧ ∀ k, c < k → handedAt ms k = none

/-- The line was completed last, and nothing was handed out since. -/
def LastCompleted (ms : List Move) (p : Parcel) : Prop :=
  ∃ c, completedAt ms c = some p ∧
    ∀ k, c < k → completedAt ms k = none ∧ handedAt ms k = none

/-! ## The invariant -/

theorem attended_after {h : Handoff} (hi : Attended h) (m : Move) : Attended (h.after m) := by
  intro hp
  cases m with
  | deposit o b =>
    -- a line that is published by this very byte is owed a release
    simp only [after, Inbox.published_deposit, Inbox.semaphore_deposit, Inbox.event_deposit] at hp ⊢
    cases hc : ((h.inbox.receiver o).feed b).2.isCompleted with
    | true =>
      rw [if_pos rfl]
      exact Or.inr (Or.inl (Nat.succ_pos _))
    | false =>
      rw [hc, if_neg Bool.false_ne_true] at hp
      rw [if_neg Bool.false_ne_true]
      exact hi hp
  | release =>
    simp only [after] at hp ⊢
    by_cases ho : h.owed = 0
    · rw [if_pos ho] at hp ⊢
      exact hi hp
    · rw [if_neg ho]
      exact Or.inl rfl
  | spurious => exact Or.inl rfl
  | acquire =>
    simp only [after, Inbox.acquire?_eq] at hp ⊢
    cases ht : h.inbox.semaphore.available with
    | true => exact Or.inr (Or.inr (Nat.succ_pos _))
    | false =>
      rw [ht] at hp
      exact hi hp
  | collect =>
    simp only [after] at hp ⊢
    by_cases hh : h.holding = 0
    · rw [if_pos hh] at hp ⊢
      exact hi hp
    · rw [if_neg hh] at hp
      exact absurd (Inbox.published_collect _) hp

theorem attended_run {h : Handoff} (hi : Attended h) (ms : List Move) : Attended (h.run ms) := by
  induction ms generalizing h with
  | nil => exact hi
  | cons m ms ih => exact ih (attended_after hi m)

theorem attended_start : Attended start := fun hp => absurd rfl hp

/-! ## What is waiting -/

theorem completedAt_eq_none_of_le {ms : List Move} {k : Nat} (hk : ms.length ≤ k) :
    completedAt ms k = none := by
  unfold completedAt
  rw [List.getElem?_eq_none hk]

theorem handedAt_eq_none_of_le {ms : List Move} {k : Nat} (hk : ms.length ≤ k) :
    handedAt ms k = none := by
  unfold handedAt
  rw [List.getElem?_eq_none hk]
  rfl

theorem lastCompleted_of_waiting {ms : List Move} {p : Parcel}
    (hp : (start.run ms).waiting = some p) : LastCompleted ms p := by
  rw [← List.take_length (l := ms)] at hp
  obtain ⟨c, -, hc, hbetween⟩ := completed_of_waiting ms ms.length p hp
  refine ⟨c, hc, fun k hck => ?_⟩
  by_cases hk : k < ms.length
  · exact hbetween k hck hk
  · exact ⟨completedAt_eq_none_of_le (Nat.le_of_not_lt hk),
      handedAt_eq_none_of_le (Nat.le_of_not_lt hk)⟩

theorem waiting_ne_none_iff (ms : List Move) : (start.run ms).waiting ≠ none ↔ Unclaimed ms := by
  constructor
  · intro hw
    obtain ⟨p, hp⟩ := Option.ne_none_iff_exists'.mp hw
    obtain ⟨c, hc, hsince⟩ := lastCompleted_of_waiting hp
    refine ⟨c, ?_, fun k hck => (hsince k hck).2⟩
    rw [hc]
    exact Option.some_ne_none p
  · rintro ⟨c, hc, hsince⟩ hw
    have hlt : c < ms.length := by
      refine Nat.lt_of_not_le fun hle => ?_
      exact hc (completedAt_eq_none_of_le hle)
    rw [← List.take_length (l := ms)] at hw
    obtain ⟨k, hck, -, hk⟩ := handed_of_not_waiting ms ms.length hw c hlt hc
    exact hk (hsince k hck)

theorem published_ne_none_iff (h : Handoff) : h.inbox.published ≠ none ↔ h.waiting ≠ none := by
  rw [waiting, Inbox.collect_fst]
  cases h.inbox.published <;> simp

/-! ## Waits of a board -/

theorem published_feed {b : Board} (hp : b.inbox.published ≠ none) (o : Origin) (byte : UInt8) :
    (b.feed o byte).1.inbox.published ≠ none := by
  rw [inbox_feed, Inbox.feed_eq_deposit]
  have hdeposit : (b.inbox.deposit o byte).1.published ≠ none := by
    rw [Inbox.published_deposit]
    split
    · exact Option.some_ne_none o
    · exact hp
  show (if _ then _ else _ : Inbox).published ≠ none
  split
  · exact hdeposit
  · exact hdeposit

theorem published_receive {b : Board} (hp : b.inbox.published ≠ none) (batch : Batch) :
    (b.receive batch).inbox.published ≠ none := by
  induction batch generalizing b with
  | nil => exact hp
  | cons fed batch ih => exact ih (published_feed hp fed.1 fed.2)

/-- A board that lost its token. -/
def tokenTaken (b : Board) : Board := { b with inbox := { b.inbox with semaphore := .drained } }

theorem acquire?_of_available {b : Board} (ht : b.inbox.semaphore.available = true) :
    b.inbox.acquire? = some (tokenTaken b).inbox := by
  rw [Inbox.acquire?_eq, if_pos ht]
  rfl

theorem takeToken?_of_not_available {b : Board} (ht : b.inbox.semaphore.available = false)
    (arrivals : List Batch) : b.takeToken? arrivals = none := by
  have hacquire : b.inbox.acquire? = none := by
    rw [Inbox.acquire?_eq, if_neg (Bool.eq_false_iff.mp ht)]
  unfold Board.takeToken?
  rw [hacquire]

/-- When no bytes arrive, a wait takes the token once at most, and collects once. -/
theorem await_nil (b : Board) :
    b.await [] = if b.inbox.semaphore.available then
        ⟨(tokenTaken b).collect.1, (tokenTaken b).collect.2, []⟩
      else ⟨none, b, []⟩ := by
  cases ht : b.inbox.semaphore.available with
  | false => exact Board.await_of_no_token (takeToken?_of_not_available ht [])
  | true =>
    have htake : b.takeToken? [] = some (tokenTaken b, []) := by
      unfold Board.takeToken?
      rw [acquire?_of_available ht]
      rfl
    rw [if_pos rfl, Board.await_of_token htake]
    cases hcollect : (tokenTaken b).collect.1 with
    | some parcel => rfl
    | none =>
      -- the token is gone, so there is no second round
      have hgone : (tokenTaken b).collect.2.inbox.semaphore.available = false := by
        show (tokenTaken b).inbox.collect.2.semaphore.available = false
        rw [Inbox.semaphore_collect]
        rfl
      exact Board.await_of_no_token (takeToken?_of_not_available hgone [])

/-- A wait that finds the token and a published line comes to a line, whatever bytes arrive. -/
theorem await_ne_none {b : Board} (ht : b.inbox.semaphore.available = true)
    (hp : b.inbox.published ≠ none) (arrivals : List Batch) :
    (b.await arrivals).parcel ≠ none := by
  have hround : ∃ next rest, b.takeToken? arrivals = some (next, rest) ∧
      next.inbox.published ≠ none := by
    unfold Board.takeToken?
    rw [acquire?_of_available ht]
    cases arrivals with
    | nil => exact ⟨_, _, rfl, hp⟩
    | cons batch rest => exact ⟨_, _, rfl, published_receive (b := tokenTaken b) hp batch⟩
  obtain ⟨next, rest, htake, hnext⟩ := hround
  have hcollect : next.collect.1 ≠ none := (published_ne_none_iff ⟨next.inbox, 0, 0⟩).mp hnext
  obtain ⟨parcel, hparcel⟩ := Option.ne_none_iff_exists'.mp hcollect
  rw [Board.await_of_token htake, hparcel]
  exact Option.some_ne_none parcel

/-! ## No lost wake-up -/

/-- Between calls, a wait comes to the line completed last if it was not handed out yet. -/
theorem await_of_unclaimed {ms : List Move} (hu : Unclaimed ms) {b : Board}
    (hb : b.inbox = (start.run ms).inbox) (howed : (start.run ms).owed = 0)
    (hholding : (start.run ms).holding = 0) :
    (∀ arrivals, (b.await arrivals).parcel ≠ none) ∧
      ∃ p, (b.await []).parcel = some p ∧ LastCompleted ms p := by
  have hw : (start.run ms).waiting ≠ none := (waiting_ne_none_iff ms).mpr hu
  have hp : b.inbox.published ≠ none := by
    rw [hb]
    exact (published_ne_none_iff _).mpr hw
  have ht : b.inbox.semaphore.available = true := by
    have hattended := attended_run attended_start ms
    rw [hb] at hp ⊢
    rcases hattended hp with h | h | h
    · exact h
    · omega
    · omega
  refine ⟨await_ne_none ht hp, ?_⟩
  obtain ⟨p, hp'⟩ := Option.ne_none_iff_exists'.mp hw
  refine ⟨p, ?_, lastCompleted_of_waiting hp'⟩
  rw [await_nil, if_pos ht]
  show (tokenTaken b).inbox.collect.1 = some p
  have hcollect : (tokenTaken b).inbox.collect.1 = b.inbox.collect.1 :=
    Inbox.collect_congr rfl fun o => by cases o <;> rfl
  rw [hcollect, hb]
  exact hp'

/-- If no line was completed since the last hand-out, a wait comes to none, and leaves neither a
line nor a token. -/
theorem await_of_not_unclaimed {ms : List Move} (hu : ¬ Unclaimed ms) {b : Board}
    (hb : b.inbox = (start.run ms).inbox) :
    (b.await []).parcel = none ∧ (b.await []).board.inbox.published = none ∧
      (b.await []).board.inbox.acquire? = none := by
  have hp : b.inbox.published = none := by
    rw [hb]
    refine Classical.byContradiction fun h => hu ?_
    exact (waiting_ne_none_iff ms).mp ((published_ne_none_iff _).mp h)
  have hcollect : (tokenTaken b).inbox.collect = (none, (tokenTaken b).inbox) := by
    unfold Inbox.collect
    rw [show (tokenTaken b).inbox.published = none from hp]
  rw [await_nil]
  cases ht : b.inbox.semaphore.available with
  | true =>
    rw [if_pos rfl]
    show (tokenTaken b).inbox.collect.1 = none ∧
      (tokenTaken b).inbox.collect.2.published = none ∧
      (tokenTaken b).inbox.collect.2.acquire? = none
    rw [hcollect]
    exact ⟨rfl, hp, rfl⟩
  | false =>
    refine ⟨rfl, hp, ?_⟩
    show b.inbox.acquire? = none
    rw [Inbox.acquire?_eq, ht]
    rfl

/-- **No lost wake-up.**  After any moves a published line is attended to.  Hence, once no feed and
no other wait is under way, a wait comes to a line if one was completed since the last hand-out,
whatever arrives meanwhile, and a reader that already holds the token collects one; otherwise a wait
comes to none and leaves neither a line nor a token.  As long as no bytes arrive, one token is all
that a wait uses up.  The feeds and the waits of a board are such moves, and each feed that completes
a line makes its release before it returns. -/
theorem no_lost_wakeup (ms : List Move) :
    Attended (start.run ms) ∧
    (Unclaimed ms → (start.run ms).owed = 0 → (start.run ms).holding = 0 →
      ∀ b : Board, b.inbox = (start.run ms).inbox →
        (∀ arrivals, (b.await arrivals).parcel ≠ none) ∧
          ∃ p, (b.await []).parcel = some p ∧ LastCompleted ms p) ∧
    (Unclaimed ms → 0 < (start.run ms).holding →
      ∃ p, (start.run ms).gives .collect = some p ∧ LastCompleted ms p) ∧
    (¬ Unclaimed ms → ∀ b : Board, b.inbox = (start.run ms).inbox →
      (b.await []).parcel = none ∧ (b.await []).board.inbox.published = none ∧
        (b.await []).board.inbox.acquire? = none) ∧
    (∀ b : Board, b.await [] = if b.inbox.semaphore.available then
        ⟨(tokenTaken b).collect.1, (tokenTaken b).collect.2, []⟩ else ⟨none, b, []⟩) ∧
    (∀ (b : Board) (o : Origin) (bs : Bytes), ∃ ns,
      Calls b.inbox (b.feedAll o bs).1.inbox (bytesOn o bs) [] ns) ∧
    (∀ (b : Board) (arrivals : List Batch), ∃ batches ns,
      arrivals = batches ++ (b.await arrivals).arrivals ∧
        Calls b.inbox (b.await arrivals).board.inbox (arrived batches)
          (b.await arrivals).parcel.toList ns) := by
  refine ⟨attended_run attended_start ms, ?_, ?_, ?_, await_nil, calls_feedAll, calls_await⟩
  · intro hu howed hholding b hb
    exact await_of_unclaimed hu hb howed hholding
  · intro hu hholding
    obtain ⟨p, hp⟩ := Option.ne_none_iff_exists'.mp ((waiting_ne_none_iff ms).mpr hu)
    refine ⟨p, ?_, lastCompleted_of_waiting hp⟩
    show (if (start.run ms).holding = 0 then none else (start.run ms).waiting) = some p
    rw [if_neg (by omega)]
    exact hp
  · intro hu b hb
    exact await_of_not_unclaimed hu hb

/-- Before the late line is collected a reader holds the token; once it is collected the token of
its feed is left, and the next wait uses that token up and finds nothing. -/
theorem no_lost_wakeup_lateLine :
    Unclaimed (lateLine.take 6) ∧ 0 < (start.run (lateLine.take 6)).holding ∧
      (start.run (lateLine.take 6)).gives .collect ≠ none ∧
      ¬ Unclaimed lateLine ∧ (start.run lateLine).inbox.semaphore.available = true ∧
      (Board.await { Board.fresh with inbox := (start.run lateLine).inbox } []).parcel = none := by
  have hu : Unclaimed (lateLine.take 6) := by
    rw [← waiting_ne_none_iff]
    decide +kernel
  have hholding : 0 < (start.run (lateLine.take 6)).holding := by decide +kernel
  have hu' : ¬ Unclaimed lateLine := by
    rw [← waiting_ne_none_iff]
    decide +kernel
  obtain ⟨p, hp, -⟩ := (no_lost_wakeup (lateLine.take 6)).2.2.1 hu hholding
  refine ⟨hu, hholding, ?_, hu', by decide +kernel, ?_⟩
  · rw [hp]
    exact Option.some_ne_none p
  · exact ((no_lost_wakeup lateLine).2.2.2.1 hu' _ rfl).1

end Handoff

end SerialConsole
