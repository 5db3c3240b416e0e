import SerialConsole.Proofs.Console.Notes

/-!
# Results are noted and nothing else

Two runs are alike if the same acts are done in both, and contributed handlers print the same texts;
how each of their calls ends may differ.  Then the runs cannot be told apart but by the journal of
the console:

    (c.turns acts').map Turn.unlogged = (c.turns acts).map Turn.unlogged

A handler may look at the board.  If it printed what it finds in the journal of the console, it would
print what earlier results left there; such handlers are left out (`SameText`), and so is a report,
which prints that journal itself.
-/

namespace SerialConsole

open Settings Text

/-! ## The receive side does not look at the journal of the console -/

namespace Board

variable (b : Board) (log : Journal journalSize)

/-- The board with another journal of the console. -/
def withLog : Board := { b with consoleLog := log }

theorem feed_withLog (o : Origin) (byte : UInt8) :
    (b.withLog log).feed o byte = ((b.feed o byte).1.withLog log, (b.feed o byte).2) := by
  simp only [feed, withLog]
  split <;> rfl

theorem receive_withLog (batch : Batch) :
    (b.withLog log).receive batch = (b.receive batch).withLog log := by
  induction batch generalizing b with
  | nil => rfl
  | cons fed batch ih => simp only [receive, feed_withLog, ih]

theorem takeToken?_withLog (arrivals : List Batch) :
    (b.withLog log).takeToken? arrivals =
      (b.takeToken? arrivals).map fun next => (next.1.withLog log, next.2) := by
  have hinbox : (b.withLog log).inbox = b.inbox := rfl
  unfold takeToken?
  rw [hinbox]
  cases b.inbox.acquire? with
  | none => rfl
  | some inbox =>
    cases arrivals with
    | nil => rfl
    | cons batch rest =>
      have hreceive := receive_withLog { b with inbox := inbox } log batch
      exact congrArg (fun next => some (next, rest)) hreceive

/-- A wait comes to the same, whatever the journal of the console holds. -/
theorem await_withLog (arrivals : List Batch) :
    (b.withLog log).await arrivals =
      ⟨(b.await arrivals).parcel, (b.await arrivals).board.withLog log,
        (b.await arrivals).arrivals⟩ := by
  fun_induction await b arrivals with
  | case1 b arrivals h =>
    refine await_of_no_token ?_
    rw [takeToken?_withLog, h, Option.map_none]
  | case2 b arrivals next rest h parcel hparcel =>
    have hround : (b.withLog log).takeToken? arrivals = some (next.withLog log, rest) := by
      rw [takeToken?_withLog, h, Option.map_some]
    have hcollect : (next.withLog log).collect.1 = some parcel := hparcel
    rw [await_of_token hround, hcollect]
    rfl
  | case3 b arrivals next rest h hnone _ ih =>
    have hround : (b.withLog log).takeToken? arrivals = some (next.withLog log, rest) := by
      rw [takeToken?_withLog, h, Option.map_some]
    have hcollect : (next.withLog log).collect.1 = none := hnone
    rw [await_of_token hround, hcollect]
    exact ih

theorem after_withLog {event : Event} (h : event ≠ .report) :
    (b.withLog log).after event = (b.after event).withLog log := by
  cases event with
  | feed o byte => exact congrArg Prod.fst (feed_withLog b log o byte)
  | take arrivals => exact congrArg Delivery.board (await_withLog b log arrivals)
  | report => exact absurd rfl h
  | _ => rfl

end Board

/-- The console with an empty journal. -/
def Console.unlogged {H : Type} (c : Console H) : Console H := c.withLog .empty

/-- The turn with an empty journal of its console. -/
def Turn.unlogged {H : Type} (t : Turn H) : Turn H := { t with console := t.console.unlogged }

/-- The minutes without the failure. -/
def Minute.common (m : Minute) : Minute := { m with failure := none }

namespace Console

variable {H : Type}

/-! ## Runs that are alike -/

/-- Contributed handlers print the same texts on both sides, whatever the journal of the console
holds; nothing is said about how they end. -/
def SameText (service service' : Service H) : Prop :=
  ∀ handler (b : Board) log line,
    (service' handler (b.withLog log) line).output = (service handler b line).output

/-- The same act, but for the results of contributed handlers.  No report is printed. -/
inductive Act.Alike : Act H → Act H → Prop where
  | register (name : String) (handler : H) (description : String) :
    Alike (.register name handler description) (.register name handler description)
  | attach (link : LinkId) : Alike (.attach link) (.attach link)
  | answer {service service' : Service H} (h : SameText service service') (raw : String) :
    Alike (.answer service raw) (.answer service' raw)
  | next {service service' : Service H} (h : SameText service service') (arrivals : List Batch) :
    Alike (.next service arrivals) (.next service' arrivals)
  | meanwhile {event : Board.Event} (h : event ≠ .report) :
    Alike (.meanwhile event) (.meanwhile event)

/-- Act by act the same, but for the results of contributed handlers. -/
inductive Alike : List (Act H) → List (Act H) → Prop where
  | nil : Alike [] []
  | cons {a a' : Act H} {acts acts' : List (Act H)} (h : a.Alike a') (hs : Alike acts acts') :
    Alike (a :: acts) (a' :: acts')

/-! ## One line -/

theorem exists_withLog {c c' : Console H} (h : c'.unlogged = c.unlogged) :
    ∃ log, c' = c.withLog log := by
  have hlog := congrArg (withLog · c'.board.consoleLog) h
  exact ⟨c'.board.consoleLog, hlog⟩

theorem board_withLog (c : Console H) (log : Journal journalSize) :
    (c.withLog log).board = c.board.withLog log := rfl

theorem console_unlogged (t : Turn H) : t.unlogged.console = t.console.unlogged := rfl

theorem last?_unlogged (c : Console H) : c.unlogged.last? = c.last? := rfl

theorem unlogged_noteResult (c : Console H) (name : String) (r : Except CommandError Unit) :
    (c.noteResult name r).unlogged = c.unlogged := by
  obtain ⟨log, h⟩ := withLog_noteResult c name r
  rw [h]
  rfl

theorem note_withLog (c : Console H) (log : Journal journalSize) (level : Level)
    (parts : List String) :
    ∃ log', (c.withLog log).note level parts = (c.note level parts).withLog log' := ⟨_, rfl⟩

theorem remember_withLog (c : Console H) (log : Journal journalSize) (raw line : String) :
    (c.withLog log).remember raw line = (c.remember raw line).withLog log := by
  unfold remember
  split <;> rfl

/-- A command prints, calls and sends the same; its result is left aside. -/
theorem perform_alike {service service' : Service H} (h : SameText service service')
    (c : Console H) (log : Journal journalSize) (action : Action H) (line : String) :
    ((c.withLog log).perform service' action line).output =
        (c.perform service action line).output ∧
      ((c.withLog log).perform service' action line).calls =
        (c.perform service action line).calls ∧
      ((c.withLog log).perform service' action line).frames =
        (c.perform service action line).frames := by
  cases action with
  | contributed handler => exact ⟨h handler c.board log line, rfl, rfl⟩
  | _ => exact ⟨rfl, rfl, rfl⟩

theorem unlogged_dispatch {service service' : Service H} (h : SameText service service')
    (c : Console H) (log : Journal journalSize) (word line : String) :
    ((c.withLog log).dispatch service' word line).unlogged =
      (c.dispatch service word line).unlogged := by
  have htable : (c.withLog log).table = c.table := rfl
  unfold dispatch
  rw [htable]
  cases c.table.find? word with
  | none => rfl
  | some e =>
    obtain ⟨log', hnote⟩ := note_withLog c log .debug ["dispatch '", e.name, "'"]
    obtain ⟨houtput, hcalls, hframes⟩ :=
      perform_alike h (c.note .debug ["dispatch '", e.name, "'"]) log' e.action line
    simp only [Turn.unlogged, unlogged_noteResult, hnote, houtput, hcalls, hframes]
    rfl

/-- A turn is the same, whatever the journal of the console holds and however a handler ends. -/
theorem unlogged_answer {service service' : Service H} (h : SameText service service')
    {c c' : Console H} (hc : c'.unlogged = c.unlogged) (raw : String) :
    (c'.answer service' raw).unlogged = (c.answer service raw).unlogged := by
  obtain ⟨log, rfl⟩ := exists_withLog hc
  have hline : (c.withLog log).lineFor raw = c.lineFor raw := rfl
  unfold answer
  by_cases hcomment : isComment raw = true
  · simp only [if_pos hcomment]
    rfl
  · by_cases hreset : asksForReset (splitWord (c.lineFor raw)).1 = true
    · simp only [if_neg hcomment, hline, if_pos hreset, remember_withLog]
      rfl
    · simp only [if_neg hcomment, hline, if_neg hreset, remember_withLog]
      exact unlogged_dispatch h _ log _ _

/-! ## One act -/

theorem unlogged_register {c c' : Console H} (hc : c'.unlogged = c.unlogged) (e : Command H) :
    (c'.register e).unlogged = (c.register e).unlogged := by
  obtain ⟨log, rfl⟩ := exists_withLog hc
  have htable : (c.withLog log).table = c.table := rfl
  unfold register Board.register
  rw [htable]
  cases c.table.add e <;> rfl

theorem unlogged_handing {c c' : Console H} (hc : c'.unlogged = c.unlogged)
    (arrivals : List Batch) (p : Parcel) :
    (c'.handing arrivals p).unlogged = (c.handing arrivals p).unlogged := by
  obtain ⟨log, rfl⟩ := exists_withLog hc
  obtain ⟨log', hleft⟩ :=
    received_eq { c.withLog log with board := ((c.withLog log).board.await arrivals).board } p
  obtain ⟨log'', hright⟩ := received_eq { c with board := (c.board.await arrivals).board } p
  have hboard : ((c.withLog log).board.await arrivals).board =
      (c.board.await arrivals).board.withLog log :=
    congrArg Delivery.board (Board.await_withLog c.board log arrivals)
  rw [handing, handing, hleft, hright, hboard]
  rfl

theorem parcel_await {c c' : Console H} (hc : c'.unlogged = c.unlogged) (arrivals : List Batch) :
    (c'.board.await arrivals).parcel = (c.board.await arrivals).parcel := by
  obtain ⟨log, rfl⟩ := exists_withLog hc
  rw [board_withLog, Board.await_withLog]

/-- Alike acts come to the same turn. -/
theorem Act.Alike.turn? {a a' : Act H} (h : a.Alike a') {c c' : Console H}
    (hc : c'.unlogged = c.unlogged) :
    (a'.turn? c').map Turn.unlogged = (a.turn? c).map Turn.unlogged := by
  cases h with
  | answer h raw => exact congrArg some (unlogged_answer h hc raw)
  | next h arrivals =>
    simp only [Act.turn?_eq, Act.question?, parcel_await hc]
    cases (c.board.await arrivals).parcel with
    | none => rfl
    | some p => exact congrArg some (unlogged_answer h (unlogged_handing hc arrivals p) _)
  | _ => rfl

theorem unlogged_next {service service' : Service H} (h : SameText service service')
    {c c' : Console H} (hc : c'.unlogged = c.unlogged) (arrivals : List Batch) :
    (c'.next service' arrivals).console.unlogged = (c.next service arrivals).console.unlogged := by
  cases hp : (c.board.await arrivals).parcel with
  | none =>
    obtain ⟨log, rfl⟩ := exists_withLog hc
    simp only [next, board_withLog, Board.await_withLog, hp]
    rfl
  | some p =>
    have hturn := unlogged_answer h (unlogged_handing hc arrivals p) (legible p.bytes)
    have hconsole := congrArg Turn.console hturn
    rw [console_unlogged, console_unlogged] at hconsole
    rw [next_of_parcel service c hp,
      next_of_parcel service' c' ((parcel_await hc arrivals).trans hp), Round.console,
      Round.console, hconsole]

/-- Alike acts leave the same console. -/
theorem Act.Alike.after {a a' : Act H} (h : a.Alike a') {c c' : Console H}
    (hc : c'.unlogged = c.unlogged) : (c'.after a').unlogged = (c.after a).unlogged := by
  cases h with
  | register name handler description => exact unlogged_register hc _
  | attach link =>
    refine unlogged_register (c := { c with link := some link }) ?_ _
    exact congrArg (fun d : Console H => { d with link := some link }) hc
  | answer h raw => exact congrArg Turn.console (unlogged_answer h hc raw)
  | next h arrivals => exact unlogged_next h hc arrivals
  | meanwhile h =>
    obtain ⟨log, rfl⟩ := exists_withLog hc
    simp only [Console.after, board_withLog, Board.after_withLog _ _ h]
    rfl

/-- Alike acts give the same to note, but for failures. -/
theorem Act.Alike.minute {a a' : Act H} (h : a.Alike a') {c c' : Console H}
    (hc : c'.unlogged = c.unlogged) : (a'.minute c').common = (a.minute c).common := by
  have hremarks : a'.remarks c' = a.remarks c := by
    cases h with
    | next h arrivals =>
      simp only [Act.remarks, parcel_await hc]
      obtain ⟨log, rfl⟩ := exists_withLog hc
      rfl
    | _ =>
      obtain ⟨log, rfl⟩ := exists_withLog hc
      rfl
  have hnow : c'.board.now = c.board.now := by
    obtain ⟨log, rfl⟩ := exists_withLog hc
    rfl
  rw [Act.minute, Act.minute, Minute.common, Minute.common, hremarks, hnow]

/-! ## Whole runs -/

theorem Alike.turns {acts acts' : List (Act H)} (h : Alike acts acts') {c c' : Console H}
    (hc : c'.unlogged = c.unlogged) :
    (c'.turns acts').map Turn.unlogged = (c.turns acts).map Turn.unlogged := by
  induction h generalizing c c' with
  | nil => rfl
  | cons ha _ ih =>
    rw [Console.turns, Console.turns, List.map_append, List.map_append, ← Option.toList_map,
      ← Option.toList_map, ha.turn? hc, ih (ha.after hc)]

theorem Alike.afterAll {acts acts' : List (Act H)} (h : Alike acts acts') {c c' : Console H}
    (hc : c'.unlogged = c.unlogged) :
    (c'.afterAll acts').unlogged = (c.afterAll acts).unlogged := by
  induction h generalizing c c' with
  | nil => exact hc
  | cons ha _ ih => exact ih (ha.after hc)

theorem Alike.minutes {acts acts' : List (Act H)} (h : Alike acts acts') {c c' : Console H}
    (hc : c'.unlogged = c.unlogged) :
    (c'.minutes acts').map Minute.common = (c.minutes acts).map Minute.common := by
  induction h generalizing c c' with
  | nil => rfl
  | cons ha _ ih =>
    rw [Console.minutes, Console.minutes, List.map_cons, List.map_cons, ha.minute hc,
      ih (ha.after hc)]

theorem Act.Alike.reports_eq_false {a a' : Act H} (h : a.Alike a') :
    a.reports = false ∧ a'.reports = false := by
  cases h with
  | @meanwhile event h =>
    cases event with
    | report => exact absurd rfl h
    | _ => exact ⟨rfl, rfl⟩
  | _ => exact ⟨rfl, rfl⟩

theorem Alike.reports_eq_false {acts acts' : List (Act H)} (h : Alike acts acts') :
    (∀ a ∈ acts, a.reports = false) ∧ ∀ a ∈ acts', a.reports = false := by
  induction h with
  | nil => exact ⟨fun _ ha => (nomatch ha), fun _ ha => (nomatch ha)⟩
  | cons ha _ ih =>
    obtain ⟨hleft, hright⟩ := ha.reports_eq_false
    exact ⟨List.forall_mem_cons.mpr ⟨hleft, ih.1⟩, List.forall_mem_cons.mpr ⟨hright, ih.2⟩⟩

/-- **The results law.**  Two runs that differ in how contributed handlers end, and in nothing else,
come to the same turns: the same output, calls, frames and steps, and after every line the same
console, but for its journal.  What is noted is the same, but for one more entry in the minutes of
each line whose command ended with an error. -/
theorem results_law (c : Console H) {acts acts' : List (Act H)} (h : Alike acts acts') :
    (c.turns acts').map Turn.unlogged = (c.turns acts).map Turn.unlogged ∧
    (c.afterAll acts').unlogged = (c.afterAll acts).unlogged ∧
    (c.minutes acts').map Minute.common = (c.minutes acts).map Minute.common ∧
    (c.afterAll acts).board.consoleLog =
      (c.minutes acts).foldl Minute.enter c.board.consoleLog ∧
    (c.afterAll acts').board.consoleLog =
      (c.minutes acts').foldl Minute.enter c.board.consoleLog :=
  ⟨h.turns rfl, h.afterAll rfl, h.minutes rfl, consoleLog_afterAll c h.reports_eq_false.1,
    consoleLog_afterAll c h.reports_eq_false.2⟩

/-- A command that fails is repeated by a blank line like one that went well. -/
theorem results_law_failing :
    let quiet : Service Unit := fun _ _ line => .ok line
    let failing : Service Unit := fun _ _ line => .error line .invalidValue
    let run := fun service => [.register "temp" () "", .answer service "te 9", .answer service ""]
    let c : Console Unit := fresh .fresh
    Alike (run quiet) (run failing) ∧
      (c.turns (run failing)).map Turn.output = (c.turns (run quiet)).map Turn.output ∧
      (c.afterAll (run failing)).last? = some "te 9" ∧
      (c.minutes (run quiet)).map Minute.failure = [none, none, none] ∧
      (c.minutes (run failing)).map Minute.failure =
        [none, some ("temp", .invalidValue), some ("temp", .invalidValue)] := by
  intro quiet failing run c
  have hsame : SameText quiet failing := fun _ _ _ _ => rfl
  have halike : Alike (run quiet) (run failing) :=
    .cons (.register _ _ _) (.cons (.answer hsame _) (.cons (.answer hsame _) .nil))
  obtain ⟨hturns, hconsole, -, -, -⟩ := results_law c halike
  refine ⟨halike, ?_, ?_, by decide +kernel, by decide +kernel⟩
  · have houtput := congrArg (List.map Turn.output) hturns
    rw [List.map_map, List.map_map] at houtput
    exact houtput
  · have hquiet : (c.afterAll (run quiet)).unlogged.last? = some "te 9" := by decide +kernel
    rw [← hconsole, last?_unlogged] at hquiet
    exact hquiet

end Console

end SerialConsole
