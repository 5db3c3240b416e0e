import SerialConsole.Text.Utf8

/-!
# The wire of the link

Frames leave the board over a wire that takes at most `chunk` bytes in one attempt, may interrupt an
attempt, and fails for good once `limit` bytes went through.  A frame is sent attempt by attempt: an
interrupted attempt is made again, a part that was taken is followed by the rest, and anything else
ends the frame.  The wire is flushed after every frame that went through.  If attempts take anything
at all, what went through of a frame is its beginning, as far as the limit allows.
-/

namespace SerialConsole

/-- What a wire can still take. -/
structure Wire where
  /-- Bytes that one attempt can take. -/
  chunk : Nat
  /-- Bytes that can still go through. -/
  limit : Nat
  /-- Attempts that will still be interrupted. -/
  interrupts : Nat
  deriving Repr, DecidableEq

namespace Wire

/-- What happened on a wire. -/
inductive Record where
  /-- An attempt was interrupted. -/
  | interrupted
  /-- An attempt failed for good. -/
  | failed
  /-- An attempt took some bytes, perhaps none. -/
  | accepted (bytes : Bytes)
  /-- The wire was flushed. -/
  | flushed
  deriving Repr, DecidableEq

/-- What sending comes to. -/
structure Transmission where
  wire : Wire
  records : List Record
  /-- All bytes went through. -/
  complete : Bool

/-- Puts a record in front. -/
def Transmission.after (t : Transmission) (r : Record) : Transmission :=
  { t with records := r :: t.records }

/-- Sends bytes, attempt by attempt. -/
def transmit (w : Wire) (bs : Bytes) : Transmission :=
  if bs.length = 0 then ⟨w, [], true⟩
  else if 0 < w.interrupts then
    (transmit { w with interrupts := w.interrupts - 1 } bs).after .interrupted
  else if w.limit = 0 then ⟨w, [.failed], false⟩
  else if w.chunk = 0 then ⟨w, [.accepted []], false⟩
  else
    let n := min bs.length (min w.chunk w.limit)
    (transmit { w with limit := w.limit - n } (bs.drop n)).after (.accepted (bs.take n))
termination_by w.interrupts + bs.length
decreasing_by
  all_goals simp_wf
  all_goals omega

/-- Sends a frame and flushes the wire if all of it went through. -/
def send (w : Wire) (frame : Bytes) : Transmission :=
  let t := w.transmit frame
  if t.complete then { t with records := t.records ++ [.flushed] } else t

/-- Sends frames one after the other; a frame that failed does not keep the next from being tried. -/
def sendAll (w : Wire) : List Bytes → Wire × List Record
  | [] => (w, [])
  | frame :: frames =>
    let t := w.send frame
    let (last, records) := t.wire.sendAll frames
    (last, t.records ++ records)

end Wire

end SerialConsole
