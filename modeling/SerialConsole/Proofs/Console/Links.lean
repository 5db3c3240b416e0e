import SerialConsole.Proofs.Console.Registrations
import SerialConsole.Proofs.Console.Rounds

/-!
# Links and the command that forwards to them

Attaching a link sets it first and then registers the command that forwards to it; the table may be
full by then.  Nothing else registers a command with that action, whatever names are taken.  So the
table holds such a command exactly if a link was attached in time, and then there is a link:

    (c.afterAll acts).link = (lastAttached acts).or c.link
    (c.afterAll acts).Forwards ↔ c.Forwards ∨ AttachedInTime c acts

Hence forwarding never fails for want of a link, and frames go to the link that was attached last.  If
there was no room, a fatal fault was raised.
-/

namespace SerialConsole

open Settings Text

namespace Console

variable {H : Type}

/-- The link that an act attaches. -/
def Act.attached : Act H → Option LinkId
  | .attach link => some link
  | _ => none

/-- The link that was attached last, if one was. -/
def lastAttached (acts : List (Act H)) : Option LinkId := (acts.filterMap Act.attached).getLast?

/-- The table holds a command that forwards to a link. -/
def Forwards (c : Console H) : Prop := ∃ e ∈ c.table.commands, e.action = .forward

/-- A link was attached while the table had room. -/
def AttachedInTime (c : Console H) (acts : List (Act H)) : Prop :=
  ∃ before link after, acts = before ++ .attach link :: after ∧ 0 < (c.afterAll before).room

/-! ## The link -/

theorem link_register (c : Console H) (e : Command H) : (c.register e).link = c.link := by
  rcases register_cases c e with ⟨-, table, -, h⟩ | ⟨-, log, h⟩
  · rw [h]
  · rw [h]

/-- Only attaching a link changes the link. -/
theorem link_after (c : Console H) (a : Act H) : (c.after a).link = a.attached.or c.link := by
  cases a with
  | register name handler description => exact link_register c _
  | attach link => exact link_register { c with link := some link } _
  | answer service raw =>
    obtain ⟨memory, log, h⟩ := answer_keeps service c raw
    rw [after, h]
    rfl
  | next service arrivals =>
    obtain ⟨board, memory, log, -, h⟩ := next_keeps service c arrivals
    rw [after, h]
    rfl
  | meanwhile event => rfl

theorem link_afterAll (c : Console H) (acts : List (Act H)) :
    (c.afterAll acts).link = (lastAttached acts).or c.link := by
  induction acts generalizing c with
  | nil => rfl
  | cons a acts ih =>
    show ((c.after a).afterAll acts).link = _
    rw [ih, link_after, ← Option.or_assoc]
    congr 1
    unfold lastAttached
    cases ha : a.attached with
    | none => rw [List.filterMap_cons_none ha, Option.or_none]
    | some link =>
      rw [List.filterMap_cons_some ha, List.getLast?_cons]
      cases (acts.filterMap Act.attached).getLast? <;> rfl

/-! ## The command that forwards -/

theorem attachedInTime_cons (c : Console H) (a : Act H) (acts : List (Act H)) :
    AttachedInTime c (a :: acts) ↔
      (∃ link, a = .attach link ∧ 0 < c.room) ∨ AttachedInTime (c.after a) acts := by
  constructor
  · rintro ⟨before, link, after, hacts, hroom⟩
    cases before with
    | nil =>
      rw [List.nil_append] at hacts
      cases hacts
      exact .inl ⟨link, rfl, hroom⟩
    | cons b before =>
      rw [List.cons_append] at hacts
      cases hacts
      exact .inr ⟨before, link, after, rfl, hroom⟩
  · rintro (⟨link, rfl, hroom⟩ | ⟨before, link, after, rfl, hroom⟩)
    · exact ⟨[], link, acts, rfl, hroom⟩
    · exact ⟨a :: before, link, after, rfl, hroom⟩

theorem not_attachedInTime_nil (c : Console H) : ¬ AttachedInTime c [] := by
  rintro ⟨before, link, after, hacts, -⟩
  exact List.append_ne_nil_of_right_ne_nil before (List.cons_ne_nil _ _) hacts.symm

/-- The command that forwards comes into the table by attaching a link, if there is room. -/
theorem forwards_after (c : Console H) (a : Act H) :
    (c.after a).Forwards ↔ c.Forwards ∨ ∃ link, a = .attach link ∧ 0 < c.room := by
  unfold Forwards
  rw [commands_after]
  simp only [List.mem_append, or_and_right, exists_or]
  refine or_congr_right ?_
  cases a with
  | attach link =>
    constructor
    · rintro ⟨e, he, -⟩
      have hlength := List.length_pos_of_mem he
      rw [List.length_take] at hlength
      exact ⟨link, rfl, Nat.lt_of_lt_of_le hlength (Nat.min_le_left _ _)⟩
    · rintro ⟨-, -, hroom⟩
      refine ⟨.forward, ?_, rfl⟩
      rw [List.take_of_length_le (Nat.succ_le_of_lt hroom)]
      exact List.mem_singleton_self _
  | register name handler description =>
    -- whatever its name is, the command is a contributed one
    constructor
    · rintro ⟨e, he, hforward⟩
      have hsame := List.mem_singleton.mp (List.mem_of_mem_take he)
      rw [hsame] at hforward
      cases hforward
    · rintro ⟨link, hattach, -⟩
      cases hattach
  | _ => simp [Act.entry]

theorem forwards_afterAll (c : Console H) (acts : List (Act H)) :
    (c.afterAll acts).Forwards ↔ c.Forwards ∨ AttachedInTime c acts := by
  induction acts generalizing c with
  | nil => exact (or_iff_left (not_attachedInTime_nil c)).symm
  | cons a acts ih =>
    show ((c.after a).afterAll acts).Forwards ↔ _
    rw [ih, forwards_after, attachedInTime_cons, or_assoc]

theorem not_forwards_fresh (b : Board) : ¬ (fresh (H := H) b).Forwards := by
  rintro ⟨e, he, hforward⟩
  rw [List.mem_singleton.mp he] at hforward
  cases hforward

/-- A link that was attached in time is still there, or another one that was attached later. -/
theorem link_ne_none_of_attachedInTime {c : Console H} {acts : List (Act H)}
    (h : AttachedInTime c acts) : lastAttached acts ≠ none := by
  obtain ⟨before, link, after, rfl, -⟩ := h
  intro hnone
  have hmem : link ∈ (before ++ Act.attach link :: after).filterMap Act.attached :=
    List.mem_filterMap.mpr ⟨.attach link, List.mem_append_right _ List.mem_cons_self, rfl⟩
  rw [List.getLast?_eq_none_iff.mp hnone] at hmem
  cases hmem

/-! ## What comes of it -/

/-- With a link, forwarding ends well. -/
theorem result_forward {c : Console H} (hlink : c.link ≠ none) (line : String) :
    (c.forward line).result = .ok () := by
  obtain ⟨link, h⟩ := Option.ne_none_iff_exists'.mp hlink
  rw [forward, h]
  dsimp only
  split <;> rfl

/-- A link is there if the table needs one. -/
def Linked (c : Console H) : Prop := c.Forwards → c.link ≠ none

/-- On a linked console only a contributed handler can say that there is no link. -/
theorem Linked.ended_noLink {c : Console H} (hc : c.Linked) {service : Service H} {raw : String}
    {e : Command H} (hd : c.dispatched? raw = some e)
    (hresult : (c.workOn service raw e).result = .error .noLink) :
    ∃ handler, e.action = .contributed handler ∧
      (service handler (c.calling raw e).board (c.lineFor raw)).result = .error .noLink := by
  unfold workOn at hresult
  cases ha : e.action with
  | help =>
    rw [ha] at hresult
    cases hresult
  | forward =>
    have hlink : (c.calling raw e).link ≠ none := by
      rw [link_calling]
      exact hc ⟨e, mem_of_dispatched hd, ha⟩
    rw [ha, perform, result_forward hlink] at hresult
    cases hresult
  | contributed handler =>
    rw [ha] at hresult
    exact ⟨handler, rfl, hresult⟩

theorem isFatal_overflow {l : Fault.Latch} {n : Nat} (h : l.isFatal = true ∨ 0 < n) :
    (l.overflow n).isFatal = true := by
  unfold Fault.Latch.overflow
  split
  · next hn =>
    subst hn
    exact h.resolve_right (Nat.lt_irrefl 0)
  · rfl

/-- A link for whose command there is no room raises a fatal fault, and that stays as long as nobody
clears it or raises another. -/
theorem isFatal_afterAll_attach {c : Console H} (hroom : c.room = 0) (link : LinkId)
    {acts : List (Act H)} (hacts : ∀ a ∈ acts, a.leavesFaults = true) :
    ((c.after (.attach link)).afterAll acts).board.faults.isFatal = true := by
  rw [faults_afterAll _ hacts, faults_after (a := .attach link) rfl, hroom]
  exact isFatal_overflow (.inl (isFatal_overflow (.inr Nat.one_pos)))

theorem linked_afterAll_fresh (b : Board) (acts : List (Act H)) :
    ((fresh b).afterAll acts).Linked := by
  intro hforwards
  have hin := ((forwards_afterAll (fresh b) acts).mp hforwards).resolve_left (not_forwards_fresh b)
  rw [link_afterAll]
  exact fun hnone => link_ne_none_of_attachedInTime hin (Option.or_eq_none_iff.mp hnone).1

/-- **The link law.**  Whatever happens to a console that was just started, its table holds a command
that forwards only if a link is attached; so a line that ends for want of a link was answered so by a
contributed handler.  Frames go to the link that was attached last.  The table holds a command that
forwards exactly if a link was attached while there was room; if none was, every attempt raised a
fatal fault, which stays as long as nobody clears it or raises another. -/
theorem link_law (b : Board) (acts : List (Act H)) :
    (((fresh b).afterAll acts).Forwards → ((fresh b).afterAll acts).link ≠ none) ∧
    (∀ (a : Act H) q e, a.question? ((fresh b).afterAll acts) = some q →
      q.ended? = some (e, .error .noLink) → ∃ handler, e.action = .contributed handler ∧
        (q.service handler (q.console.calling q.raw e).board
          (q.console.lineFor q.raw)).result = .error .noLink) ∧
    (∀ (a : Act H) t, a.turn? ((fresh b).afterAll acts) = some t →
      ∀ f ∈ t.frames, lastAttached acts = some f.link) ∧
    (((fresh b).afterAll acts).Forwards ↔ AttachedInTime (fresh b) acts) ∧
    (¬ AttachedInTime (fresh b) acts → ∀ before link after later,
      acts = before ++ .attach link :: after → later <+: after →
      (∀ a ∈ later, a.leavesFaults = true) →
      ((fresh b).afterAll (before ++ .attach link :: later)).board.faults.isFatal = true) := by
  have hlinked := linked_afterAll_fresh b acts
  refine ⟨hlinked, ?_, ?_, ?_, ?_⟩
  · intro a q e hq hended
    obtain ⟨board, hconsole⟩ := Act.console_question hq
    have hquestion : q.console.Linked := by
      rw [hconsole]
      exact hlinked
    obtain ⟨e', hd, he⟩ := Option.map_eq_some_iff.mp hended
    obtain ⟨rfl, hresult⟩ := Prod.mk.inj he
    exact hquestion.ended_noLink hd hresult
  · intro a t ht f hf
    rw [Act.turn?_eq] at ht
    obtain ⟨q, hq, rfl⟩ := Option.map_eq_some_iff.mp ht
    obtain ⟨board, hconsole⟩ := Act.console_question hq
    obtain ⟨-, -, -, hlink, -⟩ := mem_frames_answer hf
    rw [hconsole] at hlink
    have hlast : ((fresh b).afterAll acts).link = some f.link := hlink
    rw [link_afterAll] at hlast
    exact (Option.or_none).symm.trans hlast
  · rw [forwards_afterAll]
    exact or_iff_right (not_forwards_fresh b)
  · rintro hnot before link after later rfl - hlater
    have hroom : ((fresh b).afterAll before).room = 0 :=
      Nat.eq_zero_of_not_pos fun hpos => hnot ⟨before, link, after, rfl, hpos⟩
    rw [afterAll_append]
    exact isFatal_afterAll_attach hroom link hlater

/-- Of two links the second one gets the frame.  When the table is full of commands that others
registered under the same name, a link comes too late. -/
theorem link_law_late :
    let service : Service Unit := fun _ _ _ => .ok ""
    let c := (fresh .fresh).afterAll [.attach ⟨0⟩, .attach ⟨1⟩]
    let full := (fresh .fresh).afterAll
      (List.replicate 21 (.register "uartcmd" () "") ++ [.attach ⟨0⟩])
    (c.answer service "uart x").frames.length = 1 ∧
      (∀ f ∈ (c.answer service "uart x").frames, f.link = ⟨1⟩) ∧
      ¬ full.Forwards ∧ full.board.faults.isFatal = true := by
  intro service c full
  have hnot : ¬ full.Forwards := by
    unfold Forwards
    decide +kernel
  obtain ⟨-, -, -, hiff, hfatal⟩ := link_law .fresh
    (List.replicate 21 (.register "uartcmd" () "") ++ [.attach ⟨0⟩])
  have hlate : ¬ AttachedInTime (fresh .fresh)
      (List.replicate 21 (.register "uartcmd" () "") ++ [.attach ⟨0⟩]) := mt hiff.mpr hnot
  refine ⟨by decide +kernel, ?_, hnot, ?_⟩
  · intro f hf
    have hlink := (link_law .fresh [.attach ⟨0⟩, .attach ⟨1⟩]).2.2.1 (.answer service "uart x") _ rfl
    exact (Option.some_inj.mp (hlink f hf)).symm
  · have hlast := hfatal hlate (List.replicate 21 (.register "uartcmd" () "")) ⟨0⟩ [] [] rfl
      (List.prefix_refl []) fun a ha => nomatch ha
    -- else the two boards would be run to be compared
    with_reducible exact hlast

end Console

end SerialConsole
