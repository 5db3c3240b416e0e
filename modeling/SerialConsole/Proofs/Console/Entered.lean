import SerialConsole.Host
import SerialConsole.Proofs.Console.Acts
import SerialConsole.Proofs.Handoff.Isolation
import SerialConsole.Proofs.Handoff.Wakeup
import SerialConsole.Proofs.Receiver.Typing
import SerialConsole.Proofs.Text.Legible

/-!
# Lines that are typed are lines of text

An operator's line comes as bytes: they are edited by the receiver, handed out, repaired if they are
no text, and answered.  What comes of it is what comes of the text itself, in the state that the
hand-off and its notes leave:

    (c.enter bs).next service [] = .served ((c.handed bs).answer service (legible (edited bs))) []

A line leaves nothing pending and no token, so the same holds of any lines typed one after the other,
until one of them resets the board; and it is how the hosted console answers what it reads.
-/

namespace SerialConsole

open Receiver (carriageReturn lineFeed edited Typable)

/-! ## Bytes on a board -/

namespace Board

theorem feedAll_append (b : Board) (o : Origin) (bs cs : Bytes) :
    (b.feedAll o (bs ++ cs)).1 = ((b.feedAll o bs).1.feedAll o cs).1 := by
  induction bs generalizing b with
  | nil => rfl
  | cons byte bs ih => exact ih (b.feed o byte).1

theorem feed_of_not_completed (b : Board) (o : Origin) (byte : UInt8)
    (h : ((b.inbox.receiver o).feed byte).2.isCompleted = false) :
    (b.feed o byte).1 =
      { b with inbox := b.inbox.withReceiver ((b.inbox.receiver o).feed byte).1 o } := by
  unfold feed
  rw [Inbox.feed_of_not_completed _ _ _ h]
  split
  · next hcompleted =>
    obtain ⟨-, hevent⟩ := Prod.mk.inj hcompleted
    rw [hevent] at h
    cases h
  · next hfeed =>
    obtain ⟨rfl, -⟩ := Prod.mk.inj hfeed
    rfl

/-- Bytes that complete no line change nothing but their receiver. -/
theorem feedAll_of_not_completed (b : Board) (o : Origin) (bs : Bytes)
    (h : ∀ e ∈ ((b.inbox.receiver o).feedAll bs).2, e.isCompleted = false) :
    (b.feedAll o bs).1 =
      { b with inbox := b.inbox.withReceiver ((b.inbox.receiver o).feedAll bs).1 o } := by
  induction bs generalizing b with
  | nil =>
    show b = { b with inbox := b.inbox.withReceiver (b.inbox.receiver o) o }
    rw [Inbox.withReceiver_receiver]
  | cons byte bs ih =>
    have hfirst := feed_of_not_completed b o byte (h _ List.mem_cons_self)
    have hreceiver : (b.feed o byte).1.inbox.receiver o = ((b.inbox.receiver o).feed byte).1 := by
      rw [hfirst]
      exact Inbox.receiver_withReceiver _ _ _
    show ((b.feed o byte).1.feedAll o bs).1 = _
    rw [ih (b.feed o byte).1 fun e he => h e (List.mem_cons_of_mem _ (hreceiver ▸ he)), hreceiver,
      hfirst, Inbox.withReceiver_withReceiver]
    rfl

/-- A carriage return publishes the line in progress and makes the token available. -/
theorem feed_carriageReturn (b : Board) :
    (b.feed .console carriageReturn).1 =
      { b with inbox := ⟨⟨true⟩, some .console, (b.inbox.console.feed carriageReturn).1,
        b.inbox.link⟩ } := by
  have hdeposit : b.inbox.deposit .console carriageReturn =
      ({ b.inbox with console := b.inbox.console.complete false, published := some .console },
        .completed b.inbox.console.pending.length false) := by
    unfold Inbox.deposit
    rw [Receiver.feed_carriageReturn]
    rfl
  unfold feed Inbox.feed
  rw [hdeposit, Receiver.feed_carriageReturn]
  rfl

/-- The board when a line that was typed is handed out: the receiver took in the bytes, and neither
the line nor its token is there any more. -/
def handedOut (b : Board) (bs : Bytes) : Board :=
  { b with inbox := ⟨.drained, none, (b.inbox.console.feedAll (bs ++ [carriageReturn])).1,
    b.inbox.link⟩ }

/-- A line that is typed is handed out at once, edited. -/
theorem await_feedAll_line {b : Board} (hkeeps : b.inbox.console.keepsLineFeed = false)
    (hnil : b.inbox.console.pending = []) {bs : Bytes} (hbs : Typable bs) :
    (b.feedAll .console (bs ++ [carriageReturn])).1.await [] =
      ⟨some ⟨.console, edited bs⟩, b.handedOut bs, []⟩ := by
  obtain ⟨-, hnot⟩ := Receiver.feedAll_of_typable hkeeps hnil hbs
  have hlatest : (b.inbox.console.feedAll (bs ++ [carriageReturn])).1.latest = edited bs :=
    congrArg Draft.last (Receiver.draft_feedAll_line hkeeps hnil hbs)
  have hboard : (b.feedAll .console (bs ++ [carriageReturn])).1 =
      { b with inbox := ⟨⟨true⟩, some .console,
        (b.inbox.console.feedAll (bs ++ [carriageReturn])).1, b.inbox.link⟩ } := by
    rw [feedAll_append, feedAll_of_not_completed b .console bs hnot, Receiver.feedAll_append]
    exact feed_carriageReturn _
  rw [hboard, Handoff.await_nil, if_pos rfl, ← hlatest]
  rfl

end Board

/-! ## One line -/

/-- What the loop comes to if it answers one line. -/
def Run.ofTurn {H : Type} (t : Turn H) : Run H where
  console := t.console
  output := t.output
  calls := t.calls
  frames := t.frames
  pauses := match t.step with
    | .reset => [Settings.resetDelay]
    | .proceed => []
  arrivals := []
  ending := match t.step with
    | .reset => .reset
    | .proceed => .waiting

namespace Console

variable {H : Type}

/-- The console after the bytes of a line and a carriage return. -/
def enter (c : Console H) (bs : Bytes) : Console H :=
  { c with board := (c.board.feedAll .console (bs ++ [carriageReturn])).1 }

/-- The console when a line that was typed is handed out and noted, and not yet answered. -/
def handed (c : Console H) (bs : Bytes) : Console H :=
  { c with board := c.board.handedOut bs }.received ⟨.console, edited bs⟩

/-- The operator's receiver drops line feeds and has nothing pending. -/
structure Idle (c : Console H) : Prop where
  keepsLineFeed : c.board.inbox.console.keepsLineFeed = false
  pending : c.board.inbox.console.pending = []

theorem next_enter (service : Service H) {c : Console H} (hc : c.Idle) {bs : Bytes}
    (hbs : Typable bs) :
    (c.enter bs).next service [] =
      .served ((c.handed bs).answer service (Text.legible (edited bs))) [] := by
  have hawait := Board.await_feedAll_line hc.keepsLineFeed hc.pending hbs
  have hlength : (edited bs).length ≤ Settings.maxChars :=
    Board.length_await_le (p := ⟨.console, edited bs⟩) (congrArg Delivery.parcel hawait)
  unfold next enter
  dsimp only
  rw [hawait]
  exact congrArg (Round.served · []) (answerParcel_eq service _ hlength)

theorem inbox_received (c : Console H) (p : Parcel) :
    (c.received p).board.inbox = c.board.inbox := by
  obtain ⟨log, h⟩ := received_eq c p
  rw [h]
  rfl

/-- A line that was answered leaves nothing pending and no token. -/
theorem inbox_answer_handed (service : Service H) (c : Console H) (bs : Bytes) (raw : String) :
    ((c.handed bs).answer service raw).console.board.inbox = (c.board.handedOut bs).inbox := by
  rw [inbox_answer, handed, inbox_received]

theorem idle_answer_handed (service : Service H) {c : Console H} (hc : c.Idle) {bs : Bytes}
    (hbs : Typable bs) (raw : String) : ((c.handed bs).answer service raw).console.Idle where
  keepsLineFeed := by
    rw [inbox_answer_handed]
    exact (Receiver.keepsLineFeed_feedAll _ _).trans hc.keepsLineFeed
  pending := by
    rw [inbox_answer_handed]
    exact congrArg Draft.pending
      (Receiver.draft_feedAll_line hc.keepsLineFeed hc.pending hbs)

/-- If a round leaves no token, the loop ends with it. -/
theorem run_of_served {service : Service H} {c : Console H} {t : Turn H}
    (hnext : c.next service [] = .served t [])
    (htoken : t.console.board.inbox.semaphore.available = false) :
    c.run service [] = .ofTurn t := by
  have hwaiting : t.console.next service [] = .waiting t.console [] := by
    unfold next
    dsimp only
    rw [Handoff.await_nil, htoken]
    rfl
  have hstop : t.console.run service [] = ⟨t.console, "", [], [], [], [], .waiting⟩ := by
    rw [run]
    split
    · next h =>
      rw [hwaiting] at h
      cases h
      rfl
    · next h =>
      rw [hwaiting] at h
      cases h
  rw [run]
  split
  · next h =>
    rw [hnext] at h
    cases h
  · next t' rest h =>
    rw [hnext] at h
    cases h
    split
    · next hstep => simp only [Run.ofTurn, hstep]
    · next hstep =>
      simp only [hstop, Run.after, Run.ofTurn, hstep, String.append_empty, List.append_nil]

/-! ## Lines one after the other -/

/-- A turn, and what follows on it unless it resets the board. -/
def followed (t : Turn H) (rest : Console H → List (Turn H)) : List (Turn H) :=
  t :: match t.step with
    | .reset => []
    | .proceed => rest t.console

/-- Lines are typed one after the other, each is waited for and answered, until one resets the
board. -/
def enterAll (service : Service H) (c : Console H) : List Bytes → List (Turn H)
  | [] => []
  | bs :: lines =>
    match (c.enter bs).next service [] with
    | .waiting _ _ => []
    | .served t _ => followed t fun c => c.enterAll service lines

/-- The texts of lines are answered one after the other, each in the state that its hand-off
leaves, until one resets the board. -/
def answerTexts (service : Service H) (c : Console H) : List Bytes → List (Turn H)
  | [] => []
  | bs :: lines =>
    followed ((c.handed bs).answer service (Text.legible (edited bs))) fun c =>
      c.answerTexts service lines

theorem followed_congr {t : Turn H} {rest rest' : Console H → List (Turn H)}
    (h : rest t.console = rest' t.console) : followed t rest = followed t rest' := by
  unfold followed
  rw [h]

theorem enterAll_eq (service : Service H) {c : Console H} (hc : c.Idle) {lines : List Bytes}
    (hlines : ∀ bs ∈ lines, Typable bs) :
    c.enterAll service lines = c.answerTexts service lines := by
  induction lines generalizing c with
  | nil => rfl
  | cons bs lines ih =>
    have hbs := hlines bs List.mem_cons_self
    have hrest := ih (idle_answer_handed service hc hbs (Text.legible (edited bs)))
      fun bs' h => hlines bs' (List.mem_cons_of_mem bs h)
    rw [enterAll, next_enter service hc hbs]
    exact followed_congr hrest

theorem Reachable.idle {c : Console H} (hc : c.Reachable)
    (hnil : c.board.inbox.console.pending = []) : c.Idle :=
  ⟨hc.keepsLineFeed .console, hnil⟩

end Console

/-! ## The hosted console -/

namespace Host

/-- Lines of the terminal are answered one after the other, until one resets the board. -/
def session (c : Console Builtin) : List Bytes → List (Run Builtin)
  | [] => []
  | bs :: lines =>
    let r := typed c (bs ++ [lineFeed])
    r :: match r.ending with
      | .reset => []
      | .waiting => session r.console lines

theorem map_fromTerminal {bs : Bytes} (h : lineFeed ∉ bs) : bs.map fromTerminal = bs := by
  have hself : ∀ b ∈ bs, fromTerminal b = id b := by
    intro b hb
    refine if_neg fun he => h ?_
    rwa [← he]
  rw [List.map_congr_left hself, List.map_id]

theorem typed_eq {c : Console Builtin} (hc : c.Idle) {bs : Bytes} (hbs : Typable bs)
    (hlf : lineFeed ∉ bs) :
    typed c (bs ++ [lineFeed]) =
      .ofTurn ((c.handed bs).answer service (Text.legible (edited bs))) := by
  have hbytes : (bs ++ [lineFeed]).map fromTerminal = bs ++ [carriageReturn] := by
    rw [List.map_append, map_fromTerminal hlf]
    rfl
  rw [typed, hbytes]
  refine Console.run_of_served (Console.next_enter service hc hbs) ?_
  rw [Console.inbox_answer_handed]
  rfl

theorem session_eq {c : Console Builtin} (hc : c.Idle) {lines : List Bytes}
    (hlines : ∀ bs ∈ lines, Typable bs ∧ lineFeed ∉ bs) :
    session c lines = (c.answerTexts service lines).map .ofTurn := by
  induction lines generalizing c with
  | nil => rfl
  | cons bs lines ih =>
    obtain ⟨hbs, hlf⟩ := hlines bs List.mem_cons_self
    have hrest := ih (Console.idle_answer_handed service hc hbs (Text.legible (edited bs)))
      fun bs' h => hlines bs' (List.mem_cons_of_mem bs h)
    simp only [session, typed_eq hc hbs hlf, Console.answerTexts, Console.followed, List.map_cons]
    cases hstep : ((c.handed bs).answer service (Text.legible (edited bs))).step with
    | reset => simp only [Run.ofTurn, hstep, List.map_nil]
    | proceed =>
      rw [← hrest]
      simp only [Run.ofTurn, hstep]

theorem reachable_start : start.Reachable :=
  ⟨[.register Statistics.label .statistics Statistics.description, .attach link], rfl⟩

theorem pending_start : start.board.inbox.console.pending = [] := by decide +kernel

end Host

/-- **Typed lines are texts.**  On a reachable console whose operator has nothing pending, the bytes
of a line are told the same as on a new receiver; if they hold no carriage return and force no line,
then with a carriage return after them the next round answers their text: edited, and with question
marks if the edited bytes are no text.  The turn is that of the text in the state that the hand-off
leaves.  So it is for any such lines one after the other, until one resets the board, and so the
hosted console answers the lines of its terminal. -/
theorem typed_lines_are_texts {H : Type} (service : Service H) {c : Console H} (hc : c.Reachable)
    (hnil : c.board.inbox.console.pending = []) :
    (∀ bs, (c.board.feedAll .console bs).2 = ((Receiver.ofOrigin .console).feedAll bs).2) ∧
    (∀ bs, Typable bs → (c.enter bs).next service [] =
      .served ((c.handed bs).answer service (Text.legible (edited bs))) []) ∧
    (∀ lines, (∀ bs ∈ lines, Typable bs) →
      c.enterAll service lines = c.answerTexts service lines) ∧
    (∀ lines, (∀ bs ∈ lines, Typable bs ∧ lineFeed ∉ bs) →
      Host.session Host.start lines =
        (Host.start.answerTexts Host.service lines).map .ofTurn) := by
  have hidle := hc.idle hnil
  refine ⟨?_, ?_, ?_, ?_⟩
  · intro bs
    rw [Board.events_feedAll]
    exact Receiver.events_feedAll_of_pending_eq_nil hidle.keepsLineFeed hidle.pending bs
  · intro bs hbs
    exact Console.next_enter service hidle hbs
  · intro lines hlines
    exact Console.enterAll_eq service hidle hlines
  · intro lines hlines
    exact Host.session_eq (Host.reachable_start.idle Host.pending_start) hlines

/-- An `x` that is taken back, a line feed and a byte that is no text: what is answered is `h?`. -/
theorem typed_lines_are_texts_masked :
    Typable [0x68, 0x78, 0x08, 0x0a, 0xff] ∧
      (Host.start.enter [0x68, 0x78, 0x08, 0x0a, 0xff]).next Host.service [] =
        .served ((Host.start.handed [0x68, 0x78, 0x08, 0x0a, 0xff]).answer Host.service "h?") [] := by
  have hbs : Typable [0x68, 0x78, 0x08, 0x0a, 0xff] := by decide
  have htext : Text.legible (edited [0x68, 0x78, 0x08, 0x0a, 0xff]) = "h?" := by decide +kernel
  refine ⟨hbs, ?_⟩
  rw [← htext]
  exact (typed_lines_are_texts Host.service Host.reachable_start Host.pending_start).2.1 _ hbs

end SerialConsole
