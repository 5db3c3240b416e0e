import SerialConsole.Proofs.Console.Acts

/-!
# Registrations over whole runs

Commands are registered in any order and under any names, and lines are answered in between.  The
table takes them as long as it has room and never changes what it holds; every registration beyond
that leaves it as it was and raises a fatal fault.  So the table and the faults are known from the
registrations alone:

    (c.afterAll acts).table.commands = c.table.commands ++ (entries acts).take c.room
    (c.afterAll acts).board.faults   = c.board.faults.overflow ((entries acts).length - c.room)

The second line holds as long as nobody else raises or clears a fault.
-/

namespace SerialConsole

open Settings

/-- The latch after a number of refused registrations. -/
def Fault.Latch.overflow (l : Latch) (refused : Nat) : Latch :=
  if refused = 0 then l else ⟨true, .tableFull, .fatal, 22, l.count + UInt32.ofNat refused⟩

theorem Fault.Latch.overflow_overflow (l : Latch) (m n : Nat) :
    (l.overflow m).overflow n = l.overflow (m + n) := by
  unfold overflow
  by_cases hm : m = 0
  · subst hm
    rw [if_pos rfl, Nat.zero_add]
  · by_cases hn : n = 0
    · subst hn
      rw [if_pos rfl, Nat.add_zero]
    · have hcount : l.count + UInt32.ofNat m + UInt32.ofNat n = l.count + UInt32.ofNat (m + n) := by
        rw [UInt32.ofNat_add, UInt32.add_assoc]
      rw [if_neg hm, if_neg hn, if_neg (by omega), ← hcount]

theorem CommandTable.eq_of_commands_eq {H : Type} {t u : CommandTable H}
    (h : t.commands = u.commands) : t = u := by
  cases t
  cases u
  cases h
  rfl

namespace Console

variable {H : Type}

/-- The command that an act registers, if it registers one. -/
def Act.entry : Act H → Option (Command H)
  | .register name handler description => some ⟨name, description, .contributed handler⟩
  | .attach _ => some .forward
  | _ => none

/-- The commands that acts register, in their order. -/
def entries (acts : List (Act H)) : List (Command H) := acts.filterMap Act.entry

/-- The act neither raises nor clears a fault by itself. -/
def Act.leavesFaults : Act H → Bool
  | .meanwhile (.raise _ _ _) => false
  | .meanwhile .clear => false
  | _ => true

/-- The free places of the table. -/
def room (c : Console H) : Nat := maxCommands - c.table.size

/-! ## One act -/

theorem commands_register (c : Console H) (e : Command H) :
    (c.register e).table.commands = c.table.commands ++ [e].take c.room := by
  rcases register_cases c e with ⟨hroom, table, htable, h⟩ | ⟨hfull, log, h⟩
  · have htake : [e].take c.room = [e] :=
      List.take_of_length_le (Nat.sub_pos_of_lt hroom)
    rw [h, htable, htake]
  · rw [h, room, hfull, Nat.sub_self, List.take_zero, List.append_nil]

theorem faults_register (c : Console H) (e : Command H) :
    (c.register e).board.faults = c.board.faults.overflow (1 - c.room) := by
  rcases register_cases c e with ⟨hroom, table, -, h⟩ | ⟨hfull, log, h⟩
  · have hnone : 1 - c.room = 0 := Nat.sub_eq_zero_of_le (Nat.sub_pos_of_lt hroom)
    rw [h, hnone]
    rfl
  · rw [h, room, hfull, Nat.sub_self]
    simp only [Fault.Latch.raise]
    rw [if_neg (by simp)]
    rfl

/-- An act that registers no command leaves the table alone, and the faults too unless it is about
them. -/
theorem keeps_of_entry_eq_none {a : Act H} (ha : a.entry = none) (c : Console H) :
    (c.after a).table = c.table ∧
      (a.leavesFaults = true → (c.after a).board.faults = c.board.faults) := by
  cases a with
  | register name handler description => cases ha
  | attach link => cases ha
  | answer service raw =>
    obtain ⟨memory, log, h⟩ := answer_keeps service c raw
    rw [after, h]
    exact ⟨rfl, fun _ => rfl⟩
  | next service arrivals =>
    obtain ⟨board, memory, log, ⟨inbox, receiveLog, rfl⟩, h⟩ := next_keeps service c arrivals
    rw [after, h]
    exact ⟨rfl, fun _ => rfl⟩
  | meanwhile event =>
    refine ⟨rfl, fun hleaves => ?_⟩
    show (c.board.after event).faults = c.board.faults
    cases event with
    | feed o byte =>
      obtain ⟨inbox, log, h⟩ := c.board.onReceiveSide_feed o byte
      rw [Board.after, h]
    | take arrivals =>
      obtain ⟨inbox, log, h⟩ := c.board.onReceiveSide_await arrivals
      rw [Board.after, h]
    | report =>
      obtain ⟨log, log', h⟩ := c.board.report_keeps
      rw [Board.after, h]
    | raise cause severity data => cases hleaves
    | clear => cases hleaves
    | _ => rfl

theorem commands_after (c : Console H) (a : Act H) :
    (c.after a).table.commands = c.table.commands ++ a.entry.toList.take c.room := by
  cases ha : a.entry with
  | none =>
    rw [(keeps_of_entry_eq_none ha c).1, Option.toList_none, List.take_nil, List.append_nil]
  | some e =>
    cases a with
    | register name handler description =>
      cases ha
      exact commands_register c _
    | attach link =>
      cases ha
      exact commands_register { c with link := some link } _
    | _ => cases ha

theorem faults_after {a : Act H} (hleaves : a.leavesFaults = true) (c : Console H) :
    (c.after a).board.faults = c.board.faults.overflow (a.entry.toList.length - c.room) := by
  cases ha : a.entry with
  | none =>
    rw [(keeps_of_entry_eq_none ha c).2 hleaves]
    show _ = c.board.faults.overflow (0 - c.room)
    rw [Nat.zero_sub]
    rfl
  | some e =>
    cases a with
    | register name handler description =>
      cases ha
      exact faults_register c _
    | attach link =>
      cases ha
      exact faults_register { c with link := some link } _
    | _ => cases ha

/-- Once the table is full nothing changes it. -/
theorem table_after_of_full {c : Console H} (hfull : c.room = 0) (a : Act H) :
    (c.after a).table = c.table := by
  apply CommandTable.eq_of_commands_eq
  rw [commands_after, hfull, List.take_zero, List.append_nil]

theorem room_after (c : Console H) (a : Act H) :
    (c.after a).room = c.room - a.entry.toList.length := by
  have hle := (c.after a).table.length_le
  have hlength := congrArg List.length (commands_after c a)
  rw [List.length_append, List.length_take] at hlength
  simp only [room, CommandTable.size] at hlength ⊢
  omega

/-! ## Runs of acts -/

theorem entries_cons (a : Act H) (acts : List (Act H)) :
    entries (a :: acts) = a.entry.toList ++ entries acts := by
  unfold entries
  cases ha : a.entry with
  | none => rw [List.filterMap_cons_none ha, Option.toList_none, List.nil_append]
  | some e => rw [List.filterMap_cons_some ha, Option.toList_some, List.singleton_append]

/-- The table takes what is registered as long as it has room. -/
theorem commands_afterAll (c : Console H) (acts : List (Act H)) :
    (c.afterAll acts).table.commands = c.table.commands ++ (entries acts).take c.room := by
  induction acts generalizing c with
  | nil => exact ((congrArg _ List.take_nil).trans (List.append_nil _)).symm
  | cons a acts ih =>
    show ((c.after a).afterAll acts).table.commands = _
    rw [ih, commands_after, room_after, entries_cons, List.take_append, List.append_assoc]

/-- What the table holds stays where it is. -/
theorem commands_isPrefix_afterAll (c : Console H) (acts : List (Act H)) :
    c.table.commands <+: (c.afterAll acts).table.commands := by
  rw [commands_afterAll]
  exact List.prefix_append _ _

/-- The free places are used up one by one. -/
theorem room_afterAll (c : Console H) (acts : List (Act H)) :
    (c.afterAll acts).room = c.room - (entries acts).length := by
  induction acts generalizing c with
  | nil => rfl
  | cons a acts ih =>
    show ((c.after a).afterAll acts).room = _
    rw [ih, room_after, entries_cons, List.length_append, Nat.sub_sub]

/-- As long as nobody else raises or clears a fault, the faults count what was refused. -/
theorem faults_afterAll (c : Console H) {acts : List (Act H)}
    (hleaves : ∀ a ∈ acts, a.leavesFaults = true) :
    (c.afterAll acts).board.faults =
      c.board.faults.overflow ((entries acts).length - c.room) := by
  induction acts generalizing c with
  | nil =>
    show c.board.faults = c.board.faults.overflow (0 - c.room)
    rw [Nat.zero_sub]
    rfl
  | cons a acts ih =>
    show ((c.after a).afterAll acts).board.faults = _
    rw [ih _ fun a' ha' => hleaves a' (List.mem_cons_of_mem a ha'),
      faults_after (hleaves a List.mem_cons_self), room_after, Fault.Latch.overflow_overflow,
      entries_cons, List.length_append]
    congr 1
    omega

/-! ## From the start -/

/-- What is known of a console by what was registered on it. -/
structure Registered (es : List (Command H)) (c : Console H) : Prop where
  commands : c.table.commands = .help :: es.take 21
  quiet : es.length ≤ 21 → c.board.faults.active = false ∧ c.board.faults.count = 0
  overflow : 21 < es.length →
    c.board.faults = ⟨true, .tableFull, .fatal, 22, UInt32.ofNat (es.length - 21)⟩
  halted : c.haltNotice?.isSome = true ↔ 22 ≤ es.length

theorem isSome_haltNotice? (c : Console H) :
    c.haltNotice?.isSome = c.board.faults.isFatal := by
  unfold haltNotice?
  cases c.board.faults.isFatal <;> rfl

theorem registered_afterAll {b : Board} (hfresh : b.faults = .quiet) {acts : List (Act H)}
    (hleaves : ∀ a ∈ acts, a.leavesFaults = true) :
    Registered (entries acts) ((fresh b).afterAll acts) := by
  have hfaults : ((fresh b).afterAll acts).board.faults =
      b.faults.overflow ((entries acts).length - 21) := faults_afterAll (fresh b) hleaves
  rw [hfresh] at hfaults
  refine ⟨commands_afterAll (fresh b) acts, ?_, ?_, ?_⟩
  · intro hle
    rw [hfaults, Nat.sub_eq_zero_of_le hle]
    exact ⟨rfl, rfl⟩
  · intro hlt
    rw [hfaults, Fault.Latch.overflow, if_neg (by omega), Fault.Latch.quiet, UInt32.zero_add]
  · rw [isSome_haltNotice?, hfaults, Fault.Latch.overflow]
    split
    · next h =>
      refine ⟨fun hfatal => ?_, fun hle => by omega⟩
      cases hfatal
    · next h => exact ⟨fun _ => by omega, fun _ => rfl⟩

/-- **The registration law.**  Whatever is registered on a console that was just started, and
whatever lines are answered in between, the table is `help` and the first 21 entries, and the faults
tell how many were refused; the console halts exactly if one was.  A full table stays as it is,
whatever happens, and no table ever loses, replaces or moves an entry. -/
theorem registration_law {b : Board} (hfresh : b.faults = .quiet) {acts : List (Act H)}
    (hleaves : ∀ a ∈ acts, a.leavesFaults = true) :
    Registered (entries acts) ((fresh b).afterAll acts) ∧
    (∀ a, 21 ≤ (entries acts).length →
      (((fresh b).afterAll acts).after a).table = ((fresh b).afterAll acts).table) ∧
    ∀ acts', ((fresh b).afterAll acts).table.commands <+:
      ((fresh b).afterAll (acts ++ acts')).table.commands := by
  refine ⟨registered_afterAll hfresh hleaves, ?_, ?_⟩
  · intro a hfull
    refine table_after_of_full ?_ a
    rw [room_afterAll]
    exact Nat.sub_eq_zero_of_le hfull
  · intro acts'
    rw [afterAll_append]
    exact commands_isPrefix_afterAll _ acts'

/-- Twenty-one commands of one name fill the table; the link that is attached after the next line
has no place any more. -/
theorem registration_law_full :
    ((fresh (H := Unit) .fresh).afterAll (List.replicate 21 (.register "temp" () "") ++
      [.answer (fun _ _ _ => .ok "") "temp", .attach ⟨0⟩])).board.faults =
        ⟨true, .tableFull, .fatal, 22, 1⟩ := by
  have hleaves : ∀ a ∈ (List.replicate 21 (.register "temp" () "") ++
      [.answer (fun _ _ _ => .ok "") "temp", .attach ⟨0⟩] : List (Act Unit)),
      a.leavesFaults = true := by
    intro a ha
    rcases List.mem_append.mp ha with h | h
    · rw [List.eq_of_mem_replicate h]
      rfl
    · simp only [List.mem_cons, List.not_mem_nil, or_false] at h
      rcases h with rfl | rfl <;> rfl
  exact (registration_law (b := .fresh) rfl hleaves).1.overflow (by decide)

end Console

end SerialConsole
