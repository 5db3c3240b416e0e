import SerialConsole.Console.Loop

/-!
# The course of the loop

The loop takes the token, collects, answers what it collected, and starts over; after a line that
resets the board it pauses and restarts it.  Each of these is a step of its own, and what it does is an
effect.  A step is a function of what is there, so there is one course only, and any other is a
beginning of it (`Course.isPrefix`).

    waiting  --took-->  holding  --collected none-->  waiting
                        holding  --collected p----->  handed p
    handed p  --answered-->  waiting                        if the line does not reset the board
    handed p  --answered-->  pausing  --paused-->  restarting  --restarted-->  stopped

The loop of the console is told by its effects alone: what it prints, calls and sends is what the turns
among them do (`exists_course`).
-/

namespace SerialConsole

/-- What the loop has to do next. -/
inductive Stage where
  /-- It takes the token, if it is there. -/
  | waiting
  /-- It took the token and collects. -/
  | holding
  /-- It collected a line and answers it. -/
  | handed (p : Parcel)
  /-- A line was answered that resets the board; it pauses before. -/
  | pausing
  | restarting
  | stopped
  deriving Repr, DecidableEq

/-- The loop in its course. -/
structure Loop (H : Type) where
  console : Console H
  /-- The batches that did not arrive yet. -/
  arrivals : List Batch
  stage : Stage

/-- What a step of the loop does. -/
inductive Effect (H : Type) where
  /-- The token is taken; the batch arrives right after. -/
  | took (batch : Option Batch)
  | collected (parcel : Option Parcel)
  | answered (parcel : Parcel) (turn : Turn H)
  /-- The board is asked for a pause. -/
  | paused (ms : UInt32)
  /-- The board is reset. -/
  | restarted

/-- What the loop has to do after a line. -/
def Step.stage : Step → Stage
  | .proceed => .waiting
  | .reset => .pausing

/-- Where the loop stands when it is left. -/
def Ending.stage : Ending → Stage
  | .reset => .stopped
  | .waiting => .waiting

namespace Effect

variable {H : Type}

def isTook : Effect H → Bool
  | took _ => true
  | _ => false

def batch? : Effect H → Option Batch
  | took batch => batch
  | _ => none

def collected? : Effect H → Option Parcel
  | collected parcel => parcel
  | _ => none

def answered? : Effect H → Option Parcel
  | answered parcel _ => some parcel
  | _ => none

def turn? : Effect H → Option (Turn H)
  | answered _ turn => some turn
  | _ => none

def pause? : Effect H → Option UInt32
  | paused ms => some ms
  | _ => none

end Effect

namespace Loop

variable {H : Type}

/-- The loop takes a step, unless it waits for a token or has stopped. -/
def step? (service : Service H) (l : Loop H) : Option (Effect H × Loop H) :=
  match l.stage with
  | .waiting => (l.console.board.takeToken? l.arrivals).map fun taken =>
      (.took l.arrivals.head?, ⟨{ l.console with board := taken.1 }, taken.2, .holding⟩)
  | .holding =>
    let collected := l.console.board.collect
    some (.collected collected.1, ⟨{ l.console with board := collected.2 }, l.arrivals,
      collected.1.elim .waiting .handed⟩)
  | .handed p =>
    let turn := l.console.answerParcel service p
    some (.answered p turn, ⟨turn.console, l.arrivals, turn.step.stage⟩)
  | .pausing => some (.paused Settings.resetDelay, { l with stage := .restarting })
  | .restarting => some (.restarted, { l with stage := .stopped })
  | .stopped => none

end Loop

/-- The loop comes from the one place to the other, and that is what it does on its way. -/
inductive Course {H : Type} (service : Service H) : Loop H → List (Effect H) → Loop H → Prop
  | rest (l : Loop H) : Course service l [] l
  | step {l m n : Loop H} {e : Effect H} {es : List (Effect H)} (hstep : l.step? service = some (e, m))
    (hrest : Course service m es n) : Course service l (e :: es) n

/-- Tokens that lead to no line. -/
inductive Fruitless {H : Type} : List (Effect H) → Prop
  | nil : Fruitless []
  | round {batch : Option Batch} {es : List (Effect H)} (hrest : Fruitless es) :
    Fruitless (.took batch :: .collected none :: es)

/-- The orders in which the loop does things, and how they end.  It takes a token, collects, and
answers the line at once if there is one.  After the first line that resets the board it pauses for a
second, restarts the board, and nothing follows. -/
inductive Orderly {H : Type} : List (Effect H) → Ending → Prop
  | waiting : Orderly [] .waiting
  | fruitless {batch : Option Batch} {es : List (Effect H)} {ending : Ending}
    (hrest : Orderly es ending) : Orderly (.took batch :: .collected none :: es) ending
  | line {batch : Option Batch} {p : Parcel} {t : Turn H} {es : List (Effect H)} {ending : Ending}
    (hstep : t.step = .proceed) (hrest : Orderly es ending) :
    Orderly (.took batch :: .collected (some p) :: .answered p t :: es) ending
  | reset {batch : Option Batch} {p : Parcel} {t : Turn H} (hstep : t.step = .reset) :
    Orderly [.took batch, .collected (some p), .answered p t, .paused 1000, .restarted] .reset

/-- The run is what these effects come to, with the loop where they end. -/
structure Run.Tells {H : Type} (r : Run H) (es : List (Effect H)) (l : Loop H) : Prop where
  console : r.console = l.console
  arrivals : r.arrivals = l.arrivals
  stage : l.stage = r.ending.stage
  output : r.output = String.join ((es.filterMap Effect.turn?).map Turn.output)
  calls : r.calls = (es.filterMap Effect.turn?).flatMap Turn.calls
  frames : r.frames = (es.filterMap Effect.turn?).flatMap Turn.frames
  pauses : r.pauses = es.filterMap Effect.pause?

variable {H : Type} {service : Service H}

/-! ## Courses -/

theorem Course.trans {l m n : Loop H} {es es' : List (Effect H)} (h : Course service l es m)
    (h' : Course service m es' n) : Course service l (es ++ es') n := by
  induction h with
  | rest l => exact h'
  | step hstep _ ih => exact .step hstep (ih h')

/-- There is one course only: whatever the loop does is a beginning of what it does until it stops. -/
theorem Course.isPrefix {l m m' : Loop H} {es es' : List (Effect H)} (h : Course service l es m)
    (hstop : m.step? service = none) (h' : Course service l es' m') : es' <+: es := by
  induction h' generalizing es with
  | rest l => exact List.nil_prefix
  | step hstep' _ ih =>
    cases h with
    | rest l =>
      rw [hstop] at hstep'
      cases hstep'
    | step hstep hrest =>
      rw [hstep] at hstep'
      cases hstep'
      exact List.cons_prefix_cons.mpr ⟨rfl, ih hrest⟩

/-- Every step that takes the token uses up a round. -/
theorem Loop.rounds_of_step? {l m : Loop H} {e : Effect H} (h : l.step? service = some (e, m)) :
    e.isTook.toNat + m.console.board.rounds m.arrivals ≤ l.console.board.rounds l.arrivals := by
  obtain ⟨c, arrivals, stage⟩ := l
  cases stage with
  | waiting =>
    obtain ⟨taken, htaken, hnext⟩ := Option.map_eq_some_iff.mp h
    cases hnext
    have hlt := Board.rounds_lt_of_takeToken? htaken
    rw [Nat.add_comm]
    exact hlt
  | holding =>
    cases h
    rw [Board.rounds_collect]
    exact Nat.le_of_eq (Nat.zero_add _)
  | handed p =>
    cases h
    simp [Board.rounds, Effect.isTook]
  | stopped => cases h
  | _ =>
    cases h
    exact Nat.le_of_eq (Nat.zero_add _)

/-- The loop takes as many tokens as there are rounds at most. -/
theorem Course.tokens_le {l m : Loop H} {es : List (Effect H)} (h : Course service l es m) :
    es.countP Effect.isTook + m.console.board.rounds m.arrivals ≤
      l.console.board.rounds l.arrivals := by
  induction h with
  | rest l => exact Nat.le_of_eq (Nat.zero_add _)
  | @step l m n e es hstep _ ih =>
    have hround := Loop.rounds_of_step? hstep
    have hcount : (e :: es).countP Effect.isTook = es.countP Effect.isTook + e.isTook.toNat := by
      rw [List.countP_cons]
      cases e.isTook <;> rfl
    omega

theorem Board.rounds_le (b : Board) (arrivals : List Batch) :
    b.rounds arrivals ≤ arrivals.length + 1 :=
  Nat.add_le_add_left (Bool.toNat_le _) _

/-! ## The order of the effects -/

theorem Fruitless.orderly {es es' : List (Effect H)} (h : Fruitless es) {ending : Ending}
    (h' : Orderly es' ending) : Orderly (es ++ es') ending := by
  induction h with
  | nil => exact h'
  | round _ ih => exact .fruitless ih

/-- Fruitless tokens neither answer a line nor pause. -/
theorem Fruitless.filterMap_append {es : List (Effect H)} (h : Fruitless es)
    (es' : List (Effect H)) :
    (es ++ es').filterMap Effect.turn? = es'.filterMap Effect.turn? ∧
      (es ++ es').filterMap Effect.pause? = es'.filterMap Effect.pause? := by
  induction h with
  | nil => exact ⟨rfl, rfl⟩
  | round _ ih => exact ih

/-- The lines are answered one by one, in the order in which they were collected. -/
theorem Orderly.answered {es : List (Effect H)} {ending : Ending} (h : Orderly es ending) :
    es.filterMap Effect.answered? = es.filterMap Effect.collected? := by
  induction h with
  | waiting => rfl
  | fruitless _ ih => exact ih
  | line _ _ ih => exact congrArg (_ :: ·) ih
  | reset _ => rfl

/-- The board is asked for one pause before it is restarted, and for none else. -/
theorem Orderly.pauses {es : List (Effect H)} {ending : Ending} (h : Orderly es ending) :
    es.filterMap Effect.pause? = if ending = .reset then [1000] else [] := by
  induction h with
  | waiting => rfl
  | fruitless _ ih => exact ih
  | line _ _ ih => exact ih
  | reset _ => rfl

/-- The board is restarted exactly if one of the lines resets it. -/
theorem Orderly.ending_eq_reset_iff {es : List (Effect H)} {ending : Ending}
    (h : Orderly es ending) :
    ending = .reset ↔ ∃ t ∈ es.filterMap Effect.turn?, t.step = .reset := by
  induction h with
  | waiting =>
    refine ⟨fun hending => Ending.noConfusion hending, ?_⟩
    rintro ⟨t, ht, -⟩
    cases ht
  | fruitless _ ih => exact ih
  | @line batch p t es ending hstep _ ih =>
    rw [ih]
    constructor
    · rintro ⟨t', ht', hreset⟩
      exact ⟨t', List.mem_cons_of_mem t ht', hreset⟩
    · rintro ⟨t', ht', hreset⟩
      rcases List.mem_cons.mp ht' with rfl | ht'
      · rw [hstep] at hreset
        cases hreset
      · exact ⟨t', ht', hreset⟩
  | @reset batch p t hstep => exact ⟨fun _ => ⟨t, List.mem_cons_self, hstep⟩, fun _ => rfl⟩

/-! ## The loop of the console -/

namespace Console

/-- A token that is taken is followed by a look at what is published. -/
theorem course_round (service : Service H) (c : Console H) {b next : Board}
    {arrivals rest : List Batch} (h : b.takeToken? arrivals = some (next, rest)) :
    Course service ⟨{ c with board := b }, arrivals, .waiting⟩
      [.took arrivals.head?, .collected next.collect.1]
      ⟨{ c with board := next.collect.2 }, rest, next.collect.1.elim .waiting .handed⟩ := by
  have htook : Loop.step? service ⟨{ c with board := b }, arrivals, .waiting⟩ =
      some (.took arrivals.head?, ⟨{ c with board := next }, rest, .holding⟩) := by
    simp only [Loop.step?, h, Option.map_some]
  exact .step htook (.step rfl (.rest _))

/-- A wait takes tokens until one of them leads to a line, or there is none left. -/
theorem course_await (service : Service H) (c : Console H) (b : Board) (arrivals : List Batch) :
    ∃ es, Fruitless es ∧
      (((b.await arrivals).parcel = none ∧
          (b.await arrivals).board.takeToken? (b.await arrivals).arrivals = none ∧
          Course service ⟨{ c with board := b }, arrivals, .waiting⟩ es
            ⟨{ c with board := (b.await arrivals).board }, (b.await arrivals).arrivals, .waiting⟩) ∨
        ∃ p batch, (b.await arrivals).parcel = some p ∧
          Course service ⟨{ c with board := b }, arrivals, .waiting⟩
            (es ++ [.took batch, .collected (some p)])
            ⟨{ c with board := (b.await arrivals).board }, (b.await arrivals).arrivals, .handed p⟩) := by
  fun_induction Board.await b arrivals with
  | case1 b arrivals hnone => exact ⟨[], .nil, .inl ⟨rfl, hnone, .rest _⟩⟩
  | case2 b arrivals next rest hnext p hp =>
    have hround := course_round service c hnext
    rw [hp] at hround
    exact ⟨[], .nil, .inr ⟨p, arrivals.head?, rfl, hround⟩⟩
  | case3 b arrivals next rest hnext hnone _ ih =>
    have hround := course_round service c hnext
    rw [hnone] at hround
    obtain ⟨es, hes, hcourse⟩ := ih
    refine ⟨.took arrivals.head? :: .collected none :: es, .round hes, ?_⟩
    rcases hcourse with ⟨hparcel, hstop, hcourse⟩ | ⟨p, batch, hparcel, hcourse⟩
    · exact .inl ⟨hparcel, hstop, hround.trans hcourse⟩
    · exact .inr ⟨p, batch, hparcel, hround.trans hcourse⟩

/-- A round of the loop that comes to no line ends where there is no token. -/
theorem course_of_waiting {service : Service H} {c d : Console H} {arrivals rest : List Batch}
    (h : c.next service arrivals = .waiting d rest) :
    ∃ es, Fruitless es ∧ Course service ⟨c, arrivals, .waiting⟩ es ⟨d, rest, .waiting⟩ ∧
      Loop.step? service ⟨d, rest, .waiting⟩ = none := by
  obtain ⟨es, hes, ⟨hparcel, hstop, hcourse⟩ | ⟨p, batch, hparcel, -⟩⟩ :=
    course_await service c c.board arrivals
  · simp only [next, hparcel] at h
    cases h
    exact ⟨es, hes, hcourse, Option.map_eq_none_iff.mpr hstop⟩
  · simp only [next, hparcel] at h
    cases h

/-- A round of the loop that comes to a line answers it at once. -/
theorem course_of_served {service : Service H} {c : Console H} {arrivals rest : List Batch}
    {t : Turn H} (h : c.next service arrivals = .served t rest) :
    ∃ es batch p, Fruitless es ∧ Course service ⟨c, arrivals, .waiting⟩
      (es ++ [.took batch, .collected (some p), .answered p t]) ⟨t.console, rest, t.step.stage⟩ := by
  obtain ⟨es, hes, ⟨hparcel, -, -⟩ | ⟨p, batch, hparcel, hcourse⟩⟩ :=
    course_await service c c.board arrivals
  · simp only [next, hparcel] at h
    cases h
  · simp only [next, hparcel] at h
    cases h
    refine ⟨es, batch, p, hes, ?_⟩
    have hanswer := hcourse.trans (.step rfl (.rest _))
    rw [List.append_assoc] at hanswer
    exact hanswer

/-- The loop of the console runs the whole course, and the course is orderly. -/
theorem exists_course (service : Service H) (c : Console H) (arrivals : List Batch) :
    ∃ es l, Course service ⟨c, arrivals, .waiting⟩ es l ∧ l.step? service = none ∧
      Orderly es (c.run service arrivals).ending ∧ (c.run service arrivals).Tells es l := by
  fun_induction run service c arrivals with
  | case1 c arrivals d rest hnext =>
    obtain ⟨es, hes, hcourse, hstop⟩ := course_of_waiting hnext
    obtain ⟨hturns, hpauses⟩ := hes.filterMap_append []
    rw [← List.append_nil es] at hcourse
    refine ⟨es ++ [], _, hcourse, hstop, hes.orderly .waiting, rfl, rfl, rfl, ?_, ?_, ?_, ?_⟩
    · rw [hturns]
      rfl
    · rw [hturns]
      rfl
    · rw [hturns]
      rfl
    · rw [hpauses]
      rfl
  | case2 c arrivals t rest hnext hreset =>
    obtain ⟨es, batch, p, hes, hcourse⟩ := course_of_served hnext
    rw [hreset] at hcourse
    have hrestart : Course service ⟨t.console, rest, .pausing⟩
        [.paused Settings.resetDelay, .restarted] ⟨t.console, rest, .stopped⟩ :=
      .step rfl (.step rfl (.rest _))
    have hwhole := hcourse.trans hrestart
    rw [List.append_assoc] at hwhole
    obtain ⟨hturns, hpauses⟩ := hes.filterMap_append ([.took batch, .collected (some p),
      .answered p t] ++ [.paused Settings.resetDelay, .restarted])
    refine ⟨_, _, hwhole, rfl, hes.orderly (.reset hreset), rfl, rfl, rfl, ?_, ?_, ?_, ?_⟩
    · rw [hturns]
      show t.output = String.join [t.output]
      rw [String.join_cons, String.join_nil, String.append_empty]
    · rw [hturns]
      exact (List.append_nil _).symm
    · rw [hturns]
      exact (List.append_nil _).symm
    · rw [hpauses]
      rfl
  | case3 c arrivals t rest hnext hproceed _ ih =>
    obtain ⟨es, batch, p, hes, hcourse⟩ := course_of_served hnext
    obtain ⟨later, l, hlater, hstop, horder, htells⟩ := ih
    rw [hproceed] at hcourse
    have hwhole := hcourse.trans hlater
    rw [List.append_assoc] at hwhole
    obtain ⟨hturns, hpauses⟩ := hes.filterMap_append ([.took batch, .collected (some p),
      .answered p t] ++ later)
    refine ⟨_, l, hwhole, hstop, hes.orderly (.line hproceed horder), htells.console,
      htells.arrivals, htells.stage, ?_, ?_, ?_, ?_⟩
    · rw [hturns]
      exact (congrArg (t.output ++ ·) htells.output).trans String.join_cons.symm
    · rw [hturns]
      exact congrArg (t.calls ++ ·) htells.calls
    · rw [hturns]
      exact congrArg (t.frames ++ ·) htells.frames
    · rw [hpauses]
      exact htells.pauses

end Console

end SerialConsole
