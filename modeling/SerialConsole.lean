import SerialConsole.Main
import SerialConsole.Wire
import SerialConsole.Proofs.Receiver.Draft
import SerialConsole.Proofs.Handoff.Moves
import SerialConsole.Proofs.Handoff.Calls
import SerialConsole.Proofs.Handoff.Trace
import SerialConsole.Proofs.Handoff.Wakeup
import SerialConsole.Proofs.Journal.Queue
import SerialConsole.Proofs.Handoff.Isolation
import SerialConsole.Proofs.Console.Acts
import SerialConsole.Proofs.Console.Registrations
import SerialConsole.Proofs.Text.Fitting
import SerialConsole.Proofs.Text.Legible
import SerialConsole.Proofs.Console.Memory
import SerialConsole.Proofs.Console.Entered
import SerialConsole.Proofs.Journal.Reports
import SerialConsole.Proofs.Journal.Accounting
import SerialConsole.Proofs.Fault.Latch
import SerialConsole.Proofs.Text.Words
import SerialConsole.Proofs.Console.ListingRows
import SerialConsole.Proofs.Console.Payloads
import SerialConsole.Proofs.Console.Turns
import SerialConsole.Proofs.Console.Rounds
import SerialConsole.Proofs.Console.Noise
import SerialConsole.Proofs.Console.Links
import SerialConsole.Proofs.Console.Frames
import SerialConsole.Proofs.Console.Notes
import SerialConsole.Proofs.Console.Results
import SerialConsole.Proofs.Console.Forwarding
import SerialConsole.Proofs.Console.LineBreaks
import SerialConsole.Proofs.Console.Course
import SerialConsole.Proofs.Console.Endings
import SerialConsole.Proofs.Handoff.ForcedLines
import SerialConsole.Proofs.Console.Audit
import SerialConsole.Proofs.Receiver.Erasing
import SerialConsole.Proofs.Journal.Messages
import SerialConsole.Proofs.Console.Replay
import SerialConsole.Proofs.Console.Reach
import SerialConsole.Proofs.Text.Runs
import SerialConsole.Proofs.Console.CommandLines
import SerialConsole.Proofs.Text.Numerals
import SerialConsole.Proofs.Journal.Printing
import SerialConsole.Proofs.Receiver.Cutting
import SerialConsole.Proofs.Console.Abbreviations
import SerialConsole.Proofs.Console.SingleKeys
import SerialConsole.Proofs.Text.Masking
import SerialConsole.Port
import SerialConsole.Proofs.Wire.Sending
import SerialConsole.Proofs.Text.Splitting
import SerialConsole.Proofs.Console.Listings
import SerialConsole.Proofs.Line.Editing
import SerialConsole.Proofs.Text.Assembling
