import SerialConsole.Wire

/-!
# Ports

A port is whatever bytes can be written to.  It takes them attempt by attempt, and nobody who writes to
it knows how: an attempt is interrupted, or takes one byte or more, until a limit is used up and every
attempt fails.  Interruptions come wherever they like, but not for ever.  Frames are sent over a port as
they are over a wire: an interrupted attempt is made again, a part that was taken is followed by the
rest, a failure ends the frame, and a flush follows every frame that went through.
-/

namespace SerialConsole

open Wire (Record)

/-- What an attempt to write comes to. -/
inductive Attempt where
  /-- It has to be made again. -/
  | interrupted
  /-- Nothing goes through any more. -/
  | failed
  /-- It took that many bytes, the first ones. -/
  | took (count : Nat)
  deriving Repr, DecidableEq

/-- Whatever bytes can be written to.  The limit and the interruptions describe its behaviour; whoever
writes to it does not see them. -/
structure Port (σ : Type) where
  attempt : σ → Bytes → Attempt × σ
  /-- Whether a flush succeeds does not matter. -/
  flush : σ → σ
  /-- Bytes that can still go through. -/
  limit : σ → Nat
  /-- How often in a row attempts can be interrupted. -/
  interrupts : σ → Nat
  of_interrupted : ∀ {s s' : σ} {bs : Bytes}, bs ≠ [] → attempt s bs = (.interrupted, s') →
    limit s' = limit s ∧ interrupts s' < interrupts s
  of_failed : ∀ {s s' : σ} {bs : Bytes}, bs ≠ [] → attempt s bs = (.failed, s') →
    limit s = 0 ∧ limit s' = 0
  of_took : ∀ {s s' : σ} {bs : Bytes} {n : Nat}, bs ≠ [] → attempt s bs = (.took n, s') →
    0 < n ∧ n ≤ bs.length ∧ limit s = limit s' + n
  of_flush : ∀ s, limit (flush s) = limit s

namespace Port

variable {σ : Type}

/-- What sending comes to. -/
structure Outcome (σ : Type) where
  state : σ
  records : List Record
  /-- All bytes went through. -/
  complete : Bool

/-- Puts a record in front. -/
def Outcome.after (t : Outcome σ) (r : Record) : Outcome σ := { t with records := r :: t.records }

/-- Sends bytes, attempt by attempt. -/
def transmit (p : Port σ) (s : σ) (bs : Bytes) : Outcome σ :=
  if hbs : bs = [] then ⟨s, [], true⟩
  else
    match h : p.attempt s bs with
    | (.interrupted, s') =>
      have := (p.of_interrupted hbs h).2
      (p.transmit s' bs).after .interrupted
    | (.failed, s') => ⟨s', [.failed], false⟩
    | (.took n, s') =>
      have := p.of_took hbs h
      (p.transmit s' (bs.drop n)).after (.accepted (bs.take n))
termination_by (bs.length, p.interrupts s)
decreasing_by
  · exact Prod.Lex.right _ this
  · refine Prod.Lex.left _ _ ?_
    rw [List.length_drop]
    omega

/-- Sends a frame and flushes the port if all of it went through. -/
def send (p : Port σ) (s : σ) (frame : Bytes) : Outcome σ :=
  let t := p.transmit s frame
  if t.complete then { t with state := p.flush t.state, records := t.records ++ [.flushed] } else t

/-- Sends frames one after the other; a frame that failed does not keep the next from being tried. -/
def sendAll (p : Port σ) (s : σ) : List Bytes → σ × List Record
  | [] => (s, [])
  | frame :: frames =>
    let t := p.send s frame
    let (last, records) := p.sendAll t.state frames
    (last, t.records ++ records)

/-! ## Sending, attempt by attempt -/

variable {p : Port σ} {s s' : σ} {bs : Bytes}

@[simp] theorem transmit_nil : p.transmit s [] = ⟨s, [], true⟩ := by
  rw [transmit, dif_pos rfl]

/-- What follows an attempt. -/
theorem transmit_of_ne_nil (hbs : bs ≠ []) :
    p.transmit s bs = match p.attempt s bs with
      | (.interrupted, s') => (p.transmit s' bs).after .interrupted
      | (.failed, s') => ⟨s', [.failed], false⟩
      | (.took n, s') => (p.transmit s' (bs.drop n)).after (.accepted (bs.take n)) := by
  rw [transmit, dif_neg hbs]
  split
  · next h => simp only [h]
  · next h => simp only [h]
  · next h => simp only [h]

theorem transmit_of_interrupted (hbs : bs ≠ []) (h : p.attempt s bs = (.interrupted, s')) :
    p.transmit s bs = (p.transmit s' bs).after .interrupted := by
  rw [transmit_of_ne_nil hbs, h]

theorem transmit_of_failed (hbs : bs ≠ []) (h : p.attempt s bs = (.failed, s')) :
    p.transmit s bs = ⟨s', [.failed], false⟩ := by
  rw [transmit_of_ne_nil hbs, h]

theorem transmit_of_took {n : Nat} (hbs : bs ≠ []) (h : p.attempt s bs = (.took n, s')) :
    p.transmit s bs = (p.transmit s' (bs.drop n)).after (.accepted (bs.take n)) := by
  rw [transmit_of_ne_nil hbs, h]

end Port

end SerialConsole
