import SerialConsole.Proofs.Console.Links
import SerialConsole.Proofs.Handoff.Wakeup

/-!
# Frames

A carriage return ends a line and is not stored in it.  So it stands in no line that is handed out, in
no text that is shown for such a line, and in nothing that is remembered of one:

    carriageReturn ∉ (r.feedAll bs).1.latest                         (Receiver.clean_feedAll)
    carriageReturn ∉ encode line      if `line` is what such a line stands for
                                                                     (not_mem_encode_of_standsFor)

What a frame carries follows the first space of a line, and a first word stands before that space.  So
it is at least two bytes shorter than a line may be, and with its carriage return it has 98 bytes at
most:

    f ∈ t.frames → WellFormed line f.bytes                           (frame_law)
-/

namespace SerialConsole

open Settings Text
open Receiver (carriageReturn)

/-! ## Carriage returns -/

/-- Neither the line in progress nor the last one holds a carriage return. -/
def Draft.Clean (d : Draft) : Prop := carriageReturn ∉ d.pending ∧ carriageReturn ∉ d.last

theorem Draft.Clean.feed {d : Draft} (hd : d.Clean) (keepsLineFeed : Bool) (b : UInt8) :
    (d.feed keepsLineFeed b).1.Clean := by
  unfold Draft.feed
  split
  · exact hd
  · split
    · exact ⟨List.not_mem_nil, hd.1⟩
    · next hend =>
      split
      · exact ⟨fun hmem => hd.1 (List.dropLast_subset _ hmem), hd.2⟩
      · refine ⟨fun hmem => ?_, hd.2⟩
        rcases List.mem_append.mp hmem with hmem | hmem
        · exact hd.1 hmem
        · exact hend (.inl (List.mem_singleton.mp hmem).symm)

theorem Draft.Clean.feedAll {d : Draft} (hd : d.Clean) (keepsLineFeed : Bool) (bs : Bytes) :
    (d.feedAll keepsLineFeed bs).1.Clean := by
  induction bs generalizing d with
  | nil => exact hd
  | cons b bs ih => exact ih (hd.feed keepsLineFeed b)

/-- No bytes bring a carriage return into a line. -/
theorem Receiver.clean_feedAll {r : Receiver} (hr : r.draft.Clean) (bs : Bytes) :
    (r.feedAll bs).1.draft.Clean := by
  rw [(r.feedAll_eq_draft bs).1]
  exact hr.feedAll _ bs

theorem not_mem_encode_legible {bs : Bytes} (h : carriageReturn ∉ bs) :
    carriageReturn ∉ encode (legible bs) := by
  rcases encode_legible bs with hbytes | hbytes
  · rw [hbytes]
    exact h
  · rw [hbytes]
    intro hmem
    obtain ⟨b, hb, hmask⟩ := List.mem_map.mp hmem
    unfold Line.maskByte at hmask
    split at hmask
    · exact h (hmask ▸ hb)
    · exact absurd hmask (by decide)

namespace Console

variable {H : Type}

theorem Reachable.clean {c : Console H} (hc : c.Reachable) (o : Origin) :
    (c.board.inbox.receiver o).draft.Clean := by
  obtain ⟨bs, h⟩ := hc.receiver o
  rw [h, Receiver.ofOrigin_eq_fresh]
  refine Receiver.clean_feedAll ?_ bs
  rw [Receiver.draft_fresh]
  exact ⟨List.not_mem_nil, List.not_mem_nil⟩

/-- No line that is handed out holds a carriage return. -/
theorem Reachable.not_mem_of_await {c : Console H} (hc : c.Reachable) {arrivals : List Batch}
    {p : Parcel} (hp : (c.board.await arrivals).parcel = some p) : carriageReturn ∉ p.bytes := by
  obtain ⟨bs, h⟩ := c.board.receiver_await arrivals p.origin
  rw [Board.eq_latest_of_await hp, h]
  exact (Receiver.clean_feedAll (hc.clean p.origin) bs).2

/-- An act that answers a line answers one that was handed out. -/
def Act.handsOut : Act H → Bool
  | .answer _ _ => false
  | _ => true

theorem Reachable.after {c : Console H} (hc : c.Reachable) (a : Act H) : (c.after a).Reachable := by
  obtain ⟨acts, rfl⟩ := hc
  exact ⟨acts ++ [a], (afterAll_append _ acts [a]).symm⟩

theorem Reachable.not_mem_lines {c : Console H} (hc : c.Reachable) {acts : List (Act H)}
    (hacts : ∀ a ∈ acts, a.handsOut = true) {raw : String} (hraw : raw ∈ c.lines acts) :
    carriageReturn ∉ encode raw := by
  induction acts generalizing c with
  | nil => cases hraw
  | cons a acts ih =>
    rw [lines, List.mem_append, Option.mem_toList] at hraw
    rcases hraw with hraw | hraw
    · cases a with
      | answer service raw' => exact absurd (hacts _ List.mem_cons_self) Bool.false_ne_true
      | next service arrivals =>
        obtain ⟨p, hp, rfl⟩ := Option.map_eq_some_iff.mp hraw
        exact not_mem_encode_legible (hc.not_mem_of_await hp)
      | _ => cases hraw
    · exact ih (hc.after a) (fun a' ha' => hacts a' (List.mem_cons_of_mem a ha')) hraw

/-- A byte that stands neither in `help`, nor in a line, nor in any line so far, does not stand in what
the line stands for. -/
theorem not_mem_encode_of_lines {b : Board} {acts : List (Act H)} {byte : UInt8}
    (hhelp : byte ∉ encode "help") (hlines : ∀ raw ∈ (fresh b).lines acts, byte ∉ encode raw)
    {raw line : String} (hraw : byte ∉ encode raw)
    (hline : ((fresh b).afterAll acts).StandsFor raw line) : byte ∉ encode line := by
  have hcut : ∀ {raw' n}, byte ∉ encode raw' → LongestFit n raw' line → byte ∉ encode line :=
    fun hraw' hcut hmem => hraw' ((encode_isPrefix_encode hcut.isPrefix).subset hmem)
  cases hline with
  | typed _ hfit => exact hcut hraw hfit
  | replayed hlast =>
    obtain ⟨raw', hraw', hshows⟩ := shows_last_afterAll hlast
    exact hcut (hlines raw' hraw') hshows.cut
  | help _ => exact hhelp

/-- What a line stands for holds no carriage return, if neither it nor any line so far does. -/
theorem not_mem_encode_of_standsFor {acts : List (Act H)} (hacts : ∀ a ∈ acts, a.handsOut = true)
    {raw line : String} (hraw : carriageReturn ∉ encode raw)
    (hline : ((fresh .fresh).afterAll acts).StandsFor raw line) :
    carriageReturn ∉ encode line :=
  not_mem_encode_of_lines (by decide)
    (fun _ hraw' => Reachable.not_mem_lines ⟨[], rfl⟩ hacts hraw') hraw hline

/-! ## What a frame carries -/

/-- A frame that a line sends: the whole of what follows the first space of the line, and a carriage
return behind it that is the only one. -/
structure WellFormed (line : String) (bytes : Bytes) : Prop where
  carries : ∃ before text, ' ' ∉ before.toList ∧ line = before ++ " " ++ text ∧ text ≠ "" ∧
    bytes = encode text ++ [carriageReturn]
  onlyLast : carriageReturn ∉ bytes.dropLast
  two_le : 2 ≤ bytes.length
  length_le : bytes.length ≤ 98

theorem WellFormed.of_carries {line : String} {bytes : Bytes}
    (hcarries : ∃ before text, ' ' ∉ before.toList ∧ line = before ++ " " ++ text ∧ text ≠ "" ∧
      bytes = encode text ++ [carriageReturn])
    (hfits : (encode line).length ≤ maxChars) (hhead : line.toList.head? ≠ some ' ')
    (hclean : carriageReturn ∉ encode line) : WellFormed line bytes := by
  obtain ⟨before, text, hspace, hline, htext, hframe⟩ := hcarries
  have hbytes : encode line = encode before ++ [0x20] ++ encode text := by
    rw [hline, encode_append, encode_append]
    rfl
  have hbefore : encode before ≠ [] := by
    rw [Ne, encode_eq_nil_iff]
    rintro rfl
    refine hhead ?_
    rw [hline, String.toList_append, String.toList_append]
    rfl
  have hlength := congrArg List.length hbytes
  rw [List.length_append, List.length_append, List.length_singleton] at hlength
  have hpos := List.length_pos_iff.mpr hbefore
  have hpos' := List.length_pos_iff.mpr (mt encode_eq_nil_iff.mp htext)
  have hmax : maxChars = 99 := rfl
  refine ⟨⟨before, text, hspace, hline, htext, hframe⟩, ?_, ?_, ?_⟩
  · rw [hframe, List.dropLast_concat]
    intro hmem
    rw [hbytes] at hclean
    exact hclean (List.mem_append_right _ hmem)
  · rw [hframe, List.length_append, List.length_singleton]
    omega
  · rw [hframe, List.length_append, List.length_singleton]
    omega

/-- A command that forwards is the one that attaching a link registers. -/
theorem eq_forward_of_mem {b : Board} {acts : List (Act H)} {e : Command H}
    (he : e ∈ ((fresh b).afterAll acts).table.commands) (hforward : e.action = .forward) :
    e = .forward := by
  rw [commands_afterAll] at he
  rcases List.mem_append.mp he with he | he
  · rw [List.mem_singleton.mp he] at hforward
    cases hforward
  · obtain ⟨a, -, ha⟩ := List.mem_filterMap.mp (List.mem_of_mem_take he)
    cases a with
    | register name handler description =>
      cases ha
      cases hforward
    | attach link =>
      cases ha
      rfl
    | _ => cases ha

/-- A line that leads to the command that forwards sends what follows its first space. -/
theorem frames_answer_of_forward (service : Service H) {c : Console H} {raw : String}
    {e : Command H} (hd : c.dispatched? raw = some e) (he : e.action = .forward) {link : LinkId}
    (hlink : c.link = some link) :
    (c.answer service raw).frames = sent link (payload (c.lineFor raw)) := by
  have hran := ran_of_dispatched service hd
  unfold Ran at hran
  rw [he, hlink] at hran
  exact hran.2.1.frames_eq

/-- A line that is handed out and leads to the command that forwards sends what follows its first
space. -/
theorem Reachable.frames_of_dispatches {c : Console H} (hc : c.Reachable) (service : Service H)
    (arrivals : List Batch) {p : Parcel} {before text : String} {link : LinkId}
    (hdispatches : c.Dispatches (legible p.bytes) (before ++ " " ++ text) .forward)
    (hlink : c.link = some link) (hspace : ' ' ∉ before.toList) (htext : text ≠ "") :
    ((c.handing arrivals p).answer service (legible p.bytes)).frames =
      [⟨link, encode text ++ [carriageReturn]⟩] := by
  obtain ⟨hline, hd⟩ := hc.dispatches_iff.mp hdispatches
  obtain ⟨board, hboard⟩ := c.handing_eq arrivals p
  have hhanding : (c.handing arrivals p).lineFor (legible p.bytes) = before ++ " " ++ text := by
    rw [hboard, hline]
    rfl
  have hlink' : (c.handing arrivals p).link = some link := by
    rw [hboard]
    exact hlink
  have hd' : (c.handing arrivals p).dispatched? (legible p.bytes) = some .forward := by
    rw [hboard]
    exact hd
  rw [frames_answer_of_forward service hd' rfl hlink', hhanding, payload_append hspace, sent,
    if_neg htext]

/-- **The frame law.**  As long as a console answers lines that were handed out, a line sends one
frame at most, and only if it leads to the command that forwards.  A frame that is sent is well
formed.  Such a line does send its frame, if a link is attached and there is something to send. -/
theorem frame_law {acts : List (Act H)} (hacts : ∀ a ∈ acts, a.handsOut = true)
    {service : Service H} {arrivals rest : List Batch} {t : Turn H}
    (hnext : ((fresh .fresh).afterAll acts).next service arrivals = .served t rest) :
    t.frames.length ≤ 1 ∧
    (∀ f ∈ t.frames, ∃ p line,
      (((fresh .fresh).afterAll acts).board.await arrivals).parcel = some p ∧
      ((fresh .fresh).afterAll acts).Dispatches (legible p.bytes) line .forward ∧
      ((fresh .fresh).afterAll acts).link = some f.link ∧ WellFormed line f.bytes) ∧
    (∀ p before text link,
      (((fresh .fresh).afterAll acts).board.await arrivals).parcel = some p →
      ((fresh .fresh).afterAll acts).Dispatches (legible p.bytes) (before ++ " " ++ text) .forward →
      ((fresh .fresh).afterAll acts).link = some link → ' ' ∉ before.toList → text ≠ "" →
      t.frames = [⟨link, encode text ++ [carriageReturn]⟩]) := by
  have hc : ((fresh .fresh).afterAll acts).Reachable := ⟨acts, rfl⟩
  obtain ⟨p, hp, rfl, -⟩ := next_eq_served_iff.mp hnext
  refine ⟨length_frames_answer _ _ _, ?_, ?_⟩
  · intro f hf
    obtain ⟨board, hboard⟩ := ((fresh .fresh).afterAll acts).handing_eq arrivals p
    obtain ⟨e, hd, haction, hlink, -, hcarries⟩ := mem_frames_answer hf
    rw [hboard] at hd hlink hcarries
    obtain rfl := eq_forward_of_mem (mem_of_dispatched hd) haction
    have hdispatches := hc.dispatches_iff.mpr ⟨rfl, hd⟩
    refine ⟨p, _, hp, hdispatches, hlink, ?_⟩
    refine .of_carries hcarries (fits_lineFor _ _) ?_ ?_
    · exact fun hhead => hdispatches.noReset (.inl (.inl hhead))
    · exact not_mem_encode_of_standsFor hacts (not_mem_encode_legible (hc.not_mem_of_await hp))
        hdispatches.standsFor
  · intro p' before text link hp' hdispatches hlink hspace htext
    obtain rfl := Option.some_inj.mp (hp'.symm.trans hp)
    exact hc.frames_of_dispatches service arrivals hdispatches hlink hspace htext

/-- What was forwarded for a line of the console is forwarded again for a blank one of the link. -/
theorem frame_law_replayed :
    let service : Service Unit := fun _ _ _ => .ok ""
    let acts : List (Act Unit) := .attach ⟨0⟩ ::
      [0x75, 0x61, 0x20, 0x41, 0x54, 0x0d].map (fun b => .meanwhile (.feed .console b)) ++
      [.next service [], .meanwhile (.feed .link 0x0d)]
    (∀ a ∈ acts, a.handsOut = true) ∧ ∃ t rest,
      ((fresh .fresh).afterAll acts).next service [] = .served t rest ∧
      t.frames = [⟨⟨0⟩, [0x41, 0x54, 0x0d]⟩] ∧
      ∃ line, ((fresh .fresh).afterAll acts).StandsFor "" line ∧
        WellFormed line [0x41, 0x54, 0x0d] := by
  intro service acts
  have hacts : ∀ a ∈ acts, a.handsOut = true := by decide
  have hp : (((fresh .fresh).afterAll acts).board.await []).parcel = some ⟨.link, []⟩ := by
    rw [Handoff.await_nil]
    decide +kernel
  have hnext := next_of_parcel service ((fresh .fresh).afterAll acts) hp
  have hblank : legible [] = "" := by decide +kernel
  have hframes : ((((fresh .fresh).afterAll acts).handing [] ⟨.link, []⟩).answer service
      (legible [])).frames = [⟨⟨0⟩, [0x41, 0x54, 0x0d]⟩] := by
    decide +kernel
  have hmem := hframes ▸ List.mem_singleton_self (⟨⟨0⟩, [0x41, 0x54, 0x0d]⟩ : Frame)
  obtain ⟨p, line, hp', hdispatches, -, hformed⟩ := (frame_law hacts hnext).2.1 _ hmem
  obtain rfl := Option.some_inj.mp (hp'.symm.trans hp)
  rw [hblank] at hdispatches
  exact ⟨hacts, _, _, hnext, hframes, line, hdispatches.standsFor, hformed⟩

end Console

end SerialConsole
