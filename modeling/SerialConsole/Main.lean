import SerialConsole.Host

/-!
# The console on standard input and output

The program prints the banner, answers the lines of standard input and ends with the reset.  Frames
for the link and journal entries go to standard error.  When its input is closed it keeps waiting,
as a board does whose serial line is silent.
-/

namespace SerialConsole.Host

/-- Prints what a run printed, and on standard error what it sent and noted. -/
def emit (r : Run Builtin) : IO (Console Builtin) := do
  let out ← IO.getStdout
  out.putStr r.output
  out.flush
  let err ← IO.getStderr
  for frame in r.frames do
    err.write frame.bytes.toByteArray
  let (board, report) := r.console.board.report
  err.putStr report.output
  err.flush
  return { r.console with board := board }

/-- Stamps what happens next with the present time. -/
def atPresent (c : Console Builtin) : IO (Console Builtin) := do
  let now ← IO.monoNanosNow
  return { c with board := { c.board with now := now / 1000 } }

/-- Keeps waiting. -/
partial def idle : IO UInt32 := do
  IO.sleep 1000
  idle

/-- Answers the lines of standard input until one resets the board. -/
partial def serve (c : Console Builtin) : IO UInt32 := do
  let bytes ← (← IO.getStdin).read 1
  if bytes.isEmpty then idle
  else
    let run := typed (← atPresent c) bytes.toList
    let c ← emit run
    match run.ending with
    | .waiting => serve c
    | .reset =>
      for pause in run.pauses do
        IO.sleep pause
      return 0

end SerialConsole.Host

open SerialConsole in
/-- Starts the console, unless a fatal fault keeps it from starting. -/
def main : IO UInt32 := do
  let c := Host.start
  match c.haltNotice? with
  | some notice =>
    IO.print notice
    IO.eprintln ("fatal fault: " ++ c.board.faults.describe)
    return 1
  | none =>
    IO.print (Console.banner Host.version)
    (← IO.getStdout).flush
    Host.serve c
