import SerialConsole.Console.Basic
import SerialConsole.Delivery

/-!
# The loop of the console

The console waits for a line, answers it, and waits again, until a line resets the board.  A line
that is no text is answered with a question mark for each of its bytes that is not ASCII.

Every wait uses up a token and answering makes no new one, so the loop ends after at most one round
more than there are batches of bytes under way:

    c.next service arrivals = .served turn rest →
      turn.console.board.rounds rest < c.board.rounds arrivals
-/

namespace SerialConsole

/-- What one round of the loop comes to. -/
inductive Round (H : Type) where
  /-- There is no line, and no token to take. -/
  | waiting (console : Console H) (arrivals : List Batch)
  /-- A line was answered. -/
  | served (turn : Turn H) (arrivals : List Batch)

/-- Why the loop is left. -/
inductive Ending where
  /-- The board was reset. -/
  | reset
  /-- There is no line, and no token to take. -/
  | waiting
  deriving Repr, DecidableEq

/-- What the loop comes to. -/
structure Run (H : Type) where
  console : Console H
  output : String
  calls : List (H × String)
  frames : List Frame
  /-- The milliseconds of each pause that the console asked the board for. -/
  pauses : List UInt32
  /-- The batches that did not arrive. -/
  arrivals : List Batch
  ending : Ending

/-- Puts a turn in front of what follows it. -/
def Run.after {H : Type} (r : Run H) (t : Turn H) : Run H :=
  { r with
    output := t.output ++ r.output
    calls := t.calls ++ r.calls
    frames := t.frames ++ r.frames }

namespace Console

variable {H : Type}

/-- What is shown for a byte that is not ASCII in a line that is no text: a question mark. -/
def substitute : UInt8 := 0x3f

/-- Answers a line that was handed out. -/
def answerParcel (service : Service H) (c : Console H) (p : Parcel) : Turn H :=
  let line := Line.ofBytes p.bytes
  let c := c.note .debug [p.origin.name, " line, ", toString line.used, " chars"]
  match line.masked? substitute with
  | none => c.answer service line.text
  | some masked =>
    (c.note .warn [p.origin.name, " line has non-text bytes"]).answer service masked.text

/-- Waits for a line and answers it. -/
def next (service : Service H) (c : Console H) (arrivals : List Batch) : Round H :=
  let d := c.board.await arrivals
  match d.parcel with
  | none => .waiting { c with board := d.board } d.arrivals
  | some p => .served ({ c with board := d.board }.answerParcel service p) d.arrivals

/-! ## Answering leaves the inbox alone -/

@[simp] theorem inbox_note (c : Console H) (level : Level) (parts : List String) :
    (c.note level parts).board.inbox = c.board.inbox := rfl

@[simp] theorem inbox_noteResult (c : Console H) (name : String) (r : Except CommandError Unit) :
    (c.noteResult name r).board.inbox = c.board.inbox := by
  cases r <;> rfl

@[simp] theorem inbox_remember (c : Console H) (raw line : String) :
    (c.remember raw line).board.inbox = c.board.inbox := by
  unfold remember
  split <;> rfl

@[simp] theorem inbox_dispatch (service : Service H) (c : Console H) (word line : String) :
    (c.dispatch service word line).console.board.inbox = c.board.inbox := by
  unfold dispatch
  split <;> simp

@[simp] theorem inbox_answer (service : Service H) (c : Console H) (raw : String) :
    (c.answer service raw).console.board.inbox = c.board.inbox := by
  unfold answer
  split
  · rfl
  · dsimp only
    split <;> simp

@[simp] theorem inbox_answerParcel (service : Service H) (c : Console H) (p : Parcel) :
    (c.answerParcel service p).console.board.inbox = c.board.inbox := by
  unfold answerParcel
  dsimp only
  split <;> simp

theorem rounds_lt_of_next {service : Service H} {c : Console H} {arrivals rest : List Batch}
    {t : Turn H} (h : c.next service arrivals = .served t rest) :
    t.console.board.rounds rest < c.board.rounds arrivals := by
  unfold next at h
  dsimp only at h
  split at h
  · cases h
  · next p hp =>
    cases h
    have hlt := Board.rounds_await_lt hp
    simpa [Board.rounds] using hlt

/-- Answers lines until the board is reset or there is none left. -/
def run (service : Service H) (c : Console H) (arrivals : List Batch) : Run H :=
  match h : c.next service arrivals with
  | .waiting c arrivals => ⟨c, "", [], [], [], arrivals, .waiting⟩
  | .served t rest =>
    match t.step with
    | .reset => ⟨t.console, t.output, t.calls, t.frames, [Settings.resetDelay], rest, .reset⟩
    | .proceed =>
      have := rounds_lt_of_next h
      (t.console.run service rest).after t
termination_by c.board.rounds arrivals

end Console

end SerialConsole
