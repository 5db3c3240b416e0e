import SerialConsole.Journal.Ring

/-!
# Reports

A report prints the entries of some journals and empties them: all entries of the first journal,
oldest first, then those of the second, and so on.  If any entries were dropped, one more line tells
how many, and the counts start anew.
-/

namespace SerialConsole.Journal

variable {size count : Nat} [HasSlots size]

/-- What a report prints, and the journals after it. -/
structure Report (size count : Nat) where
  /-- The lines, one after the other. -/
  output : String
  /-- How many entries were printed. -/
  written : Nat
  /-- How many drops were told of. -/
  dropped : UInt32
  journals : Vector (Journal size) count

/-- Prints the entries of the chosen journals in the given order. -/
def printEntries (js : Vector (Journal size) count) : List (Fin count) → Report size count
  | [] => ⟨"", 0, 0, js⟩
  | i :: rest =>
    let (entries, emptied) := (js.get i).drainAll
    let report := printEntries (js.set i emptied) rest
    ⟨String.join (entries.map Entry.render) ++ report.output, entries.length + report.written,
      report.dropped, report.journals⟩

/-- The drop counts of the chosen journals, added up in 32 bits. -/
def totalDropped (js : Vector (Journal size) count) (chosen : List (Fin count)) : UInt32 :=
  chosen.foldl (fun total i => total + (js.get i).dropped) 0

/-- Starts the drop counts of the chosen journals anew. -/
def resetDrops (js : Vector (Journal size) count) (chosen : List (Fin count)) :
    Vector (Journal size) count :=
  chosen.foldl (fun js (i : Fin count) => js.set i (js.get i).resetDropped) js

/-- The line that tells how many entries were dropped. -/
def dropNotice (n : UInt32) : String :=
  "[WARN] Dropped: " ++ toString n ++ " log entries" ++ Settings.newline

/-- Prints and empties the chosen journals. -/
def flush (js : Vector (Journal size) count) (chosen : List (Fin count)) : Report size count :=
  let report := printEntries js chosen
  let dropped := totalDropped report.journals chosen
  if dropped = 0 then report
  else
    { report with
      output := report.output ++ dropNotice dropped
      dropped := dropped
      journals := resetDrops report.journals chosen }

end SerialConsole.Journal
