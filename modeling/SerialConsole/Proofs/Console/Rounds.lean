import SerialConsole.Proofs.Console.Turns

/-!
# Rounds and calls

A round of the loop waits for a line, notes it, and answers the text that stands for its bytes.  The
line that is handed out is the latest one of its receiver.

    c.next service arrivals = .served t rest  ↔
      t = (c.handing arrivals p).answer service (legible p.bytes)
                                               for the line `p` that the wait comes to

A line that is no comment and no reset leads to at most one command.  All that a turn calls or sends
is the work of that command, so a line that leads to none calls and sends nothing:

    c.dispatched? raw = some e → (c.answer service raw).frames = (c.workOn service raw e).frames
    c.dispatched? raw = none   → (c.answer service raw).frames = []

A frame is sent by the forwarding command only, to the link that is attached (`mem_frames_answer`).
-/

namespace SerialConsole

open Settings Text

/-! ## The line that a round answers -/

/-- What a wait comes to is the latest line of its receiver. -/
theorem Board.eq_latest_of_await {b : Board} {arrivals : List Batch} {p : Parcel}
    (h : (b.await arrivals).parcel = some p) :
    p.bytes = ((b.await arrivals).board.inbox.receiver p.origin).latest := by
  fun_induction Board.await b arrivals with
  | case1 => cases h
  | case2 b arrivals next rest hnext parcel hparcel =>
    cases h
    show p.bytes = (next.inbox.collect.2.receiver p.origin).latest
    rw [Inbox.receiver_collect]
    rw [Board.collect, Inbox.collect_fst] at hparcel
    obtain ⟨o, -, rfl⟩ := Option.map_eq_some_iff.mp hparcel
    rfl
  | case3 b arrivals next rest hnext hnone _ ih => exact ih h

namespace Console

variable {H : Type}

/-- The console when a wait came to a line, and the line is noted and not yet answered. -/
def handing (c : Console H) (arrivals : List Batch) (p : Parcel) : Console H :=
  { c with board := (c.board.await arrivals).board }.received p

/-- Handing out a line changes the board only. -/
theorem handing_eq (c : Console H) (arrivals : List Batch) (p : Parcel) :
    ∃ board, c.handing arrivals p = { c with board := board } := by
  obtain ⟨log, h⟩ := received_eq { c with board := (c.board.await arrivals).board } p
  exact ⟨_, h⟩

theorem next_of_parcel (service : Service H) (c : Console H) {arrivals : List Batch} {p : Parcel}
    (hp : (c.board.await arrivals).parcel = some p) :
    c.next service arrivals =
      .served ((c.handing arrivals p).answer service (legible p.bytes))
        (c.board.await arrivals).arrivals := by
  simp only [next, hp, handing, answerParcel_eq service _ (Board.length_await_le hp)]

theorem next_eq_served_iff {service : Service H} {c : Console H} {arrivals rest : List Batch}
    {t : Turn H} :
    c.next service arrivals = .served t rest ↔
      ∃ p, (c.board.await arrivals).parcel = some p ∧
        t = (c.handing arrivals p).answer service (legible p.bytes) ∧
        rest = (c.board.await arrivals).arrivals := by
  constructor
  · intro h
    cases hp : (c.board.await arrivals).parcel with
    | none =>
      simp only [next, hp] at h
      cases h
    | some p =>
      rw [next_of_parcel service c hp] at h
      cases h
      exact ⟨p, rfl, rfl, rfl⟩
  · rintro ⟨p, hp, rfl, rfl⟩
    exact next_of_parcel service c hp

/-- The turn of an act that answers a line. -/
def Act.turn? (c : Console H) : Act H → Option (Turn H)
  | .answer service raw => some (c.answer service raw)
  | .next service arrivals =>
    match c.next service arrivals with
    | .served t _ => some t
    | .waiting _ _ => none
  | _ => none

/-- The turns of acts, in their order. -/
def turns (c : Console H) : List (Act H) → List (Turn H)
  | [] => []
  | a :: acts => (a.turn? c).toList ++ (c.after a).turns acts

/-- A line that is to be answered, and the console that answers it. -/
structure Question (H : Type) where
  console : Console H
  service : Service H
  raw : String

def Question.turn (q : Question H) : Turn H := q.console.answer q.service q.raw

/-- The line that an act answers, if it answers one: a given one, or the text of one that was waited
for, when it is handed out. -/
def Act.question? (c : Console H) : Act H → Option (Question H)
  | .answer service raw => some ⟨c, service, raw⟩
  | .next service arrivals =>
    (c.board.await arrivals).parcel.map fun p =>
      ⟨c.handing arrivals p, service, legible p.bytes⟩
  | _ => none

theorem Act.turn?_eq (c : Console H) (a : Act H) :
    a.turn? c = (a.question? c).map Question.turn := by
  cases a with
  | next service arrivals =>
    simp only [turn?, question?]
    cases hp : (c.board.await arrivals).parcel with
    | none => simp only [Console.next, hp, Option.map_none]
    | some p => simp only [next_of_parcel service c hp, Option.map_some, Question.turn]
  | _ => rfl

/-- The console that answers a line differs from the one before the act in its board only. -/
theorem Act.console_question {c : Console H} {a : Act H} {q : Question H}
    (h : a.question? c = some q) : ∃ board, q.console = { c with board := board } := by
  cases a with
  | answer service raw =>
    cases h
    exact ⟨c.board, rfl⟩
  | next service arrivals =>
    obtain ⟨p, -, rfl⟩ := Option.map_eq_some_iff.mp h
    exact c.handing_eq arrivals p
  | _ => cases h

/-- The line that is meant does not depend on the board. -/
theorem Act.lineFor_question {c : Console H} {a : Act H} {q : Question H}
    (h : a.question? c = some q) : q.console.lineFor q.raw = c.lineFor q.raw := by
  obtain ⟨board, hconsole⟩ := Act.console_question h
  rw [hconsole]
  rfl

theorem Act.table_question {c : Console H} {a : Act H} {q : Question H}
    (h : a.question? c = some q) : q.console.table = c.table := by
  obtain ⟨board, hconsole⟩ := Act.console_question h
  rw [hconsole]

/-- The lines that acts answer, in their order, each with the console that answers it. -/
def questions (c : Console H) : List (Act H) → List (Question H)
  | [] => []
  | a :: acts => (a.question? c).toList ++ (c.after a).questions acts

theorem turns_eq (c : Console H) (acts : List (Act H)) :
    c.turns acts = (c.questions acts).map Question.turn := by
  induction acts generalizing c with
  | nil => rfl
  | cons a acts ih => rw [turns, questions, List.map_append, Act.turn?_eq, ih, Option.toList_map]

theorem lines_eq (c : Console H) (acts : List (Act H)) :
    c.lines acts = (c.questions acts).map Question.raw := by
  have hline : ∀ (c : Console H) (a : Act H), a.line? c = (a.question? c).map Question.raw := by
    intro c a
    cases a with
    | next service arrivals =>
      rw [Act.line?, Act.question?, Option.map_map]
      rfl
    | _ => rfl
  induction acts generalizing c with
  | nil => rfl
  | cons a acts ih => rw [lines, questions, List.map_append, hline, ih, Option.toList_map]

theorem questions_append (c : Console H) (acts acts' : List (Act H)) :
    c.questions (acts ++ acts') = c.questions acts ++ (c.afterAll acts).questions acts' := by
  induction acts generalizing c with
  | nil => rfl
  | cons a acts ih =>
    rw [List.cons_append, questions, questions, ih, List.append_assoc]
    rfl

/-- A line is answered by a console that the acts before it lead to. -/
theorem exists_of_mem_questions {c : Console H} {acts : List (Act H)} {q : Question H}
    (hq : q ∈ c.questions acts) :
    ∃ before a after, acts = before ++ a :: after ∧ a.question? (c.afterAll before) = some q := by
  induction acts generalizing c with
  | nil => cases hq
  | cons a acts ih =>
    rw [questions, List.mem_append, Option.mem_toList] at hq
    rcases hq with hq | hq
    · exact ⟨[], a, acts, rfl, hq⟩
    · obtain ⟨before, a', after, rfl, ha⟩ := ih hq
      exact ⟨a :: before, a', after, rfl, ha⟩

/-! ## The command that a line leads to -/

/-- The command that a raw line leads to, if it leads to one. -/
def dispatched? (c : Console H) (raw : String) : Option (Command H) :=
  if isComment raw = true ∨ asksForReset (splitWord (c.lineFor raw)).1 = true then none
  else c.table.find? (splitWord (c.lineFor raw)).1

theorem mem_of_dispatched {c : Console H} {raw : String} {e : Command H}
    (h : c.dispatched? raw = some e) : e ∈ c.table.commands := by
  unfold dispatched? at h
  split at h
  · cases h
  · exact List.mem_of_find?_eq_some h

/-- The console when a command gets a line: the line may have been remembered, and the call is
noted. -/
def calling (c : Console H) (raw : String) (e : Command H) : Console H :=
  (c.remember raw (c.lineFor raw)).note .debug ["dispatch '", e.name, "'"]

/-- What a command does about a line. -/
def workOn (service : Service H) (c : Console H) (raw : String) (e : Command H) : Work H :=
  (c.calling raw e).perform service e.action (c.lineFor raw)

/-- The command that a line led to, and how it ended. -/
def Question.ended? (q : Question H) : Option (Command H × Except CommandError Unit) :=
  (q.console.dispatched? q.raw).map fun e => (e, (q.console.workOn q.service q.raw e).result)

/-- A command that a line leads to gets the line once, and nothing else is done. -/
theorem answer_of_dispatched (service : Service H) {c : Console H} {raw : String} {e : Command H}
    (h : c.dispatched? raw = some e) :
    c.answer service raw =
      ⟨(c.calling raw e).noteResult e.name (c.workOn service raw e).result,
        newline ++ (c.workOn service raw e).output ++ promptText, (c.workOn service raw e).calls,
        (c.workOn service raw e).frames, .proceed⟩ := by
  unfold dispatched? at h
  by_cases hnone : isComment raw = true ∨ asksForReset (splitWord (c.lineFor raw)).1 = true
  · rw [if_pos hnone] at h
    cases h
  · rw [if_neg hnone] at h
    obtain ⟨hcomment, hreset⟩ := not_or.mp hnone
    obtain ⟨memory, hmemory⟩ := remember_eq c raw (c.lineFor raw)
    have hfind : (c.remember raw (c.lineFor raw)).table.find? (splitWord (c.lineFor raw)).1 =
        some e := by
      rw [hmemory]
      exact h
    rw [answer, if_neg hcomment]
    dsimp only
    rw [if_neg hreset, dispatch, hfind]
    rfl

/-- A line that leads to a command runs it. -/
theorem ran_of_dispatched (service : Service H) {c : Console H} {raw : String} {e : Command H}
    (h : c.dispatched? raw = some e) : Ran service c e (c.lineFor raw) (c.answer service raw) := by
  unfold dispatched? at h
  split at h
  · cases h
  · next hnone =>
    obtain ⟨hcomment, hreset⟩ := not_or.mp hnone
    rcases answer_cases service c raw with ⟨hc, -⟩ | ⟨-, hr, -⟩ | ⟨-, -, memory, hanswer⟩
    · exact absurd hc hcomment
    · exact absurd hr hreset
    · rw [hanswer]
      exact ran_dispatch service c memory h (fits_lineFor c raw)

/-- A line that leads to no command is a comment, asks for the reset, or is reported. -/
theorem answer_cases_of_not_dispatched (service : Service H) {c : Console H} {raw : String}
    (h : c.dispatched? raw = none) :
    (c.answer service raw = ⟨c, promptText, [], [], .proceed⟩) ∨
    (∃ after, c.answer service raw =
      ⟨after, "Board reset requested !" ++ newline, [], [], .reset⟩) ∨
    Reported c (c.lineFor raw) (c.answer service raw) := by
  rcases answer_cases service c raw with ⟨-, ha⟩ | ⟨-, -, ha⟩ | ⟨hcomment, hreset, memory, ha⟩
  · exact .inl ha
  · exact .inr (.inl ha)
  · rw [dispatched?, if_neg (not_or.mpr ⟨hcomment, hreset⟩)] at h
    rw [ha]
    exact .inr (.inr (reported_dispatch service c memory h))

/-- A line that leads to no command calls and sends nothing. -/
theorem answer_of_not_dispatched (service : Service H) {c : Console H} {raw : String}
    (h : c.dispatched? raw = none) :
    (c.answer service raw).calls = [] ∧ (c.answer service raw).frames = [] := by
  rcases answer_cases_of_not_dispatched service h with ha | ⟨after, ha⟩ | hreported
  · rw [ha]
    exact ⟨rfl, rfl⟩
  · rw [ha]
    exact ⟨rfl, rfl⟩
  · exact ⟨hreported.calls, hreported.frames⟩

/-- A raw line is no comment and no reset; it stands for a line whose first word opens the name of
the command, and of no earlier one. -/
structure Dispatches (c : Console H) (raw line : String) (e : Command H) : Prop where
  noComment : raw.toList.head? ≠ some '#'
  standsFor : c.StandsFor raw line
  noReset : ¬ AsksForReset line
  firstMatch : ∃ word, FirstWord line word ∧ c.table.FirstMatch word e

theorem Reachable.dispatches_iff {c : Console H} (hc : c.Reachable) {raw line : String}
    {e : Command H} :
    c.Dispatches raw line e ↔ line = c.lineFor raw ∧ c.dispatched? raw = some e := by
  have hstands := hc.standsFor_lineFor raw
  have hword := firstWord_splitWord (c.lineFor raw)
  have hasks := asksForReset_iff (hstands.ne_empty hc) hword
  constructor
  · rintro ⟨hcomment, hline, hreset, word, hfirst, hmatch⟩
    obtain rfl := hline.lineFor_eq hc
    obtain rfl := hfirst.splitWord_eq
    rw [← hasks] at hreset
    have hne : (splitWord (c.lineFor raw)).1 ≠ "" := fun he => hreset (by rw [he]; rfl)
    refine ⟨rfl, ?_⟩
    rw [dispatched?, if_neg (not_or.mpr ⟨fun h => hcomment ((LastCommand.isComment_iff raw).mp h),
      hreset⟩)]
    exact (c.table.find?_eq_some_iff hne).mpr hmatch
  · rintro ⟨rfl, h⟩
    unfold dispatched? at h
    split at h
    · cases h
    · next hnone =>
      obtain ⟨hcomment, hreset⟩ := not_or.mp hnone
      have hne : (splitWord (c.lineFor raw)).1 ≠ "" := fun he => hreset (by rw [he]; rfl)
      refine ⟨fun hhead => hcomment ((LastCommand.isComment_iff raw).mpr hhead), hstands, ?_, _,
        hword, (c.table.find?_eq_some_iff hne).mp h⟩
      rw [← hasks]
      exact hreset

/-! ## Frames -/

theorem link_calling (c : Console H) (raw : String) (e : Command H) :
    (c.calling raw e).link = c.link := by
  obtain ⟨memory, h⟩ := remember_eq c raw (c.lineFor raw)
  rw [calling, h]
  rfl

/-- A turn sends one frame at most, and only if its line leads to the command that forwards. -/
theorem mem_frames_answer {service : Service H} {c : Console H} {raw : String} {f : Frame}
    (hf : f ∈ (c.answer service raw).frames) :
    ∃ e, c.dispatched? raw = some e ∧ e.action = .forward ∧ c.link = some f.link ∧
      (c.answer service raw).frames = [f] ∧ ∃ before text, ' ' ∉ before.toList ∧
        c.lineFor raw = before ++ " " ++ text ∧ text ≠ "" ∧
        f.bytes = encode text ++ [Receiver.carriageReturn] := by
  cases hd : c.dispatched? raw with
  | none =>
    rw [(answer_of_not_dispatched service hd).2] at hf
    cases hf
  | some e =>
    have hran := ran_of_dispatched service hd
    unfold Ran at hran
    cases ha : e.action with
    | help =>
      rw [ha] at hran
      rw [hran.2.1] at hf
      cases hf
    | contributed handler =>
      rw [ha] at hran
      rw [hran.2.1] at hf
      cases hf
    | forward =>
      rw [ha] at hran
      obtain ⟨-, hsends, -⟩ := hran
      exact ⟨e, rfl, ha, hsends.of_mem hf⟩

theorem length_frames_answer (service : Service H) (c : Console H) (raw : String) :
    (c.answer service raw).frames.length ≤ 1 := by
  cases hframes : (c.answer service raw).frames with
  | nil => exact Nat.zero_le 1
  | cons f fs =>
    have hf : f ∈ (c.answer service raw).frames := by
      rw [hframes]
      exact List.mem_cons_self
    obtain ⟨-, -, -, -, hone, -⟩ := mem_frames_answer hf
    rw [← hframes, hone]
    exact Nat.le_refl 1

end Console

end SerialConsole
