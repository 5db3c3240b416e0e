import SerialConsole.Fault
import SerialConsole.Inbox
import SerialConsole.Journal.Report

/-!
# The board

The board is what the receivers, the console and its commands share: the inbox, the fault latch, and
two journals, one for the receive side and one for the console.  Everything that happens on the board
is stamped with its clock.

    (b.feed o byte).1.inbox = (b.inbox.feed o byte).1
-/

namespace SerialConsole

open Settings

/-- The shared state of the board. -/
structure Board where
  inbox : Inbox
  faults : Fault.Latch
  /-- What the receive side has to report. -/
  receiveLog : Journal journalSize
  /-- What the console has to report. -/
  consoleLog : Journal journalSize
  /-- The time that entries are stamped with, in microseconds. -/
  now : Int

namespace Board

/-- A board that was just switched on. -/
def fresh : Board := ⟨.empty, .quiet, .empty, .empty, 0⟩

/-- Adds an entry to the journal of the receive side. -/
def noteReceive (b : Board) (level : Level) (parts : List String) : Board :=
  { b with
    receiveLog := (b.receiveLog.push b.now level "RX" (Scratch.message maxMessage parts)).1 }

/-- Adds an entry to the journal of the console. -/
def noteConsole (b : Board) (level : Level) (parts : List String) : Board :=
  { b with
    consoleLog := (b.consoleLog.push b.now level "CMD" (Scratch.message maxMessage parts)).1 }

/-- Raises a fault. -/
def raise (b : Board) (cause : Fault.Cause) (severity : Fault.Severity) (data : UInt32) : Board :=
  { b with faults := b.faults.raise cause severity data }

/-- Takes in one byte; a line that was completed by force is noted. -/
def feed (b : Board) (o : Origin) (byte : UInt8) : Board × Receiver.Event :=
  match b.inbox.feed o byte with
  | (inbox, .completed len true) =>
    ({ b with inbox := inbox }.noteReceive .warn
        [o.name, " line forced at ", toString len, " chars"],
      .completed len true)
  | (inbox, event) => ({ b with inbox := inbox }, event)

/-- Takes in bytes, and tells what became of each. -/
def feedAll (b : Board) (o : Origin) : Bytes → Board × List Receiver.Event
  | [] => (b, [])
  | byte :: bytes =>
    let (b, event) := b.feed o byte
    let (b, events) := b.feedAll o bytes
    (b, event :: events)

/-- Prints both journals, that of the receive side first, and empties them. -/
def report (b : Board) : Board × Journal.Report journalSize 2 :=
  let r := Journal.flush #v[b.receiveLog, b.consoleLog] [0, 1]
  ({ b with receiveLog := r.journals[0], consoleLog := r.journals[1] }, r)

end Board

end SerialConsole
