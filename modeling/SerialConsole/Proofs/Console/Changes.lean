import SerialConsole.Console.Loop

/-!
# What a step of the console can change

The receive side of a board works on its inbox and its own journal, and on nothing else; that holds
for single bytes, for batches and for waits (`onReceiveSide_await`).  Answering a line works on the
journal of the console and on the memory of the last command, and on nothing else:

    (c.answer service raw).console = (c.recalling raw).withLog log     for some log

In particular no line changes the table, the link, the faults or a receiver, whatever it does.
Registering a command works on the table while that has room, and on the faults and the journal of
the console from then on (`register_cases`).
-/

namespace SerialConsole

namespace Board

/-- The second board differs from the first on the receive side only. -/
def OnReceiveSide (b b' : Board) : Prop :=
  ∃ inbox log, b' = { b with inbox := inbox, receiveLog := log }

theorem OnReceiveSide.refl (b : Board) : b.OnReceiveSide b := ⟨b.inbox, b.receiveLog, rfl⟩

theorem OnReceiveSide.trans {b b' b'' : Board} (h : b.OnReceiveSide b')
    (h' : b'.OnReceiveSide b'') : b.OnReceiveSide b'' := by
  obtain ⟨inbox, log, rfl⟩ := h
  obtain ⟨inbox', log', rfl⟩ := h'
  exact ⟨inbox', log', rfl⟩

theorem onReceiveSide_feed (b : Board) (o : Origin) (byte : UInt8) :
    b.OnReceiveSide (b.feed o byte).1 := by
  unfold feed
  split <;> exact ⟨_, _, rfl⟩

theorem onReceiveSide_receive (b : Board) (batch : Batch) : b.OnReceiveSide (b.receive batch) := by
  induction batch generalizing b with
  | nil => exact .refl b
  | cons fed batch ih => exact (b.onReceiveSide_feed fed.1 fed.2).trans (ih (b.feed fed.1 fed.2).1)

theorem onReceiveSide_takeToken? {b next : Board} {arrivals rest : List Batch}
    (h : b.takeToken? arrivals = some (next, rest)) : b.OnReceiveSide next := by
  unfold takeToken? at h
  split at h
  · cases h
  · cases h
    exact ⟨_, _, rfl⟩
  · next inbox batch rest _ =>
    cases h
    have htoken : b.OnReceiveSide { b with inbox := inbox } := ⟨_, _, rfl⟩
    exact htoken.trans (onReceiveSide_receive _ batch)

theorem onReceiveSide_collect (b : Board) : b.OnReceiveSide b.collect.2 := ⟨_, _, rfl⟩

theorem onReceiveSide_await (b : Board) (arrivals : List Batch) :
    b.OnReceiveSide (b.await arrivals).board := by
  fun_induction await b arrivals with
  | case1 b arrivals => exact .refl b
  | case2 b arrivals next rest hnext parcel hparcel =>
    exact (onReceiveSide_takeToken? hnext).trans next.onReceiveSide_collect
  | case3 b arrivals next rest hnext hnone _ ih =>
    exact ((onReceiveSide_takeToken? hnext).trans next.onReceiveSide_collect).trans ih

/-- Printing the journals changes nothing but the journals. -/
theorem report_keeps (b : Board) :
    ∃ log log', b.report.1 = { b with receiveLog := log, consoleLog := log' } := ⟨_, _, rfl⟩

end Board

/-- The console that a round of the loop leaves. -/
def Round.console {H : Type} : Round H → Console H
  | .waiting c _ => c
  | .served t _ => t.console

namespace Console

variable {H : Type}

/-- The console with another journal. -/
def withLog (c : Console H) (log : Journal Settings.journalSize) : Console H :=
  { c with board := { c.board with consoleLog := log } }

/-- The console after a line that is answered, its journal left aside: a line that is no comment may
be remembered. -/
def recalling (c : Console H) (raw : String) : Console H :=
  if isComment raw then c else c.remember raw (c.lineFor raw)

theorem withLog_noteResult (c : Console H) (name : String) (r : Except CommandError Unit) :
    ∃ log, c.noteResult name r = c.withLog log := by
  cases r with
  | ok => exact ⟨c.board.consoleLog, rfl⟩
  | error e => exact ⟨_, rfl⟩

theorem withLog_dispatch (service : Service H) (c : Console H) (word line : String) :
    ∃ log, (c.dispatch service word line).console = c.withLog log := by
  unfold dispatch
  split
  · next command _ =>
    obtain ⟨log, h⟩ := withLog_noteResult (c.note .debug ["dispatch '", command.name, "'"])
      command.name _
    exact ⟨log, h⟩
  · exact ⟨_, rfl⟩

/-- Everything that a line can change. -/
theorem console_answer (service : Service H) (c : Console H) (raw : String) :
    ∃ log, (c.answer service raw).console = (c.recalling raw).withLog log := by
  unfold answer recalling
  split
  · exact ⟨c.board.consoleLog, rfl⟩
  · dsimp only
    split
    · exact ⟨_, rfl⟩
    · exact withLog_dispatch service _ _ _

theorem remember_eq (c : Console H) (raw line : String) :
    ∃ memory, c.remember raw line = { c with lastCommand := memory } := by
  unfold remember
  split <;> exact ⟨_, rfl⟩

theorem recalling_eq (c : Console H) (raw : String) :
    ∃ memory, c.recalling raw = { c with lastCommand := memory } := by
  unfold recalling
  split
  · exact ⟨c.lastCommand, rfl⟩
  · exact remember_eq c raw _

/-- No line changes the table, the link, the faults, the inbox, what the receive side noted or the
clock. -/
theorem answer_keeps (service : Service H) (c : Console H) (raw : String) :
    ∃ memory log, (c.answer service raw).console =
      { c with lastCommand := memory, board := { c.board with consoleLog := log } } := by
  obtain ⟨log, hlog⟩ := console_answer service c raw
  obtain ⟨memory, hmemory⟩ := recalling_eq c raw
  rw [hlog, hmemory]
  exact ⟨memory, log, rfl⟩

theorem answerParcel_keeps (service : Service H) (c : Console H) (p : Parcel) :
    ∃ memory log, (c.answerParcel service p).console =
      { c with lastCommand := memory, board := { c.board with consoleLog := log } } := by
  unfold answerParcel
  dsimp only
  split
  · exact answer_keeps service _ _
  · exact answer_keeps service _ _

/-- A command is added at the end of the table; if the table is full it stays as it is, and that is
noted and raised. -/
theorem register_cases (c : Console H) (e : Command H) :
    (c.table.size < Settings.maxCommands ∧ ∃ table : CommandTable H,
      table.commands = c.table.commands ++ [e] ∧ c.register e = { c with table := table }) ∨
    (c.table.size = Settings.maxCommands ∧ ∃ log, c.register e =
      { c with board := { c.board with consoleLog := log,
                                       faults := c.board.faults.raise .tableFull .fatal 22 } }) := by
  have hle := c.table.length_le
  by_cases hroom : c.table.size < Settings.maxCommands
  · refine .inl ⟨hroom, ⟨c.table.commands ++ [e], ?_⟩, rfl, ?_⟩
    · rw [List.length_append, List.length_singleton]
      exact hroom
    · have hadd : c.table.add e = .ok ⟨c.table.commands ++ [e], _⟩ := dif_pos hroom
      rw [register, Board.register, hadd]
  · have hfull : c.table.size = Settings.maxCommands := Nat.le_antisymm hle (Nat.not_lt.mp hroom)
    have hadd : c.table.add e = .error .tableFull := dif_neg hroom
    refine .inr ⟨hfull, ?_⟩
    rw [register, Board.register, hadd, hfull]
    exact ⟨_, rfl⟩

/-- A round of the loop changes the receive side, the journal of the console and the memory. -/
theorem next_keeps (service : Service H) (c : Console H) (arrivals : List Batch) :
    ∃ board memory log, c.board.OnReceiveSide board ∧ (c.next service arrivals).console =
      { c with lastCommand := memory, board := { board with consoleLog := log } } := by
  have hboard := c.board.onReceiveSide_await arrivals
  unfold next
  dsimp only
  split
  · exact ⟨_, c.lastCommand, (c.board.await arrivals).board.consoleLog, hboard, rfl⟩
  · next p _ =>
    obtain ⟨memory, log, h⟩ :=
      answerParcel_keeps service { c with board := (c.board.await arrivals).board } p
    exact ⟨_, memory, log, hboard, h⟩

end Console

end SerialConsole
