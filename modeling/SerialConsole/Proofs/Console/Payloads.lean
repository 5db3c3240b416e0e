import SerialConsole.Console.Basic
import SerialConsole.Proofs.Text.Fitting

/-!
# What is sent for a line

A line is forwarded without what stands before its first space, and without that space.  So the text
that is left is at least one byte shorter than the line, and with its carriage return it fits into a
frame:

    before ++ " " ++ text   one frame, `encode text ++ [carriageReturn]`, if no space is in `before`
    before ++ " "           nothing
    no space in the line    nothing

    (encode line).length ≤ maxChars → Sends line c.link (c.forward line).frames    (sends_forward)
-/

namespace SerialConsole

open Settings Text
open Receiver (carriageReturn)

namespace Text

/-- A text with a space splits at the first one. -/
theorem exists_append_of_space {s : String} (h : ' ' ∈ s.toList) :
    ∃ before text, ' ' ∉ before.toList ∧ s = before ++ " " ++ text := by
  obtain ⟨as, bs, hs, hnot⟩ := List.eq_append_cons_of_mem h
  refine ⟨String.ofList as, String.ofList bs, ?_, String.toList_inj.mp ?_⟩
  · rwa [String.toList_ofList]
  · simp only [hs, String.toList_append, String.toList_ofList, List.append_assoc]
    rfl

end Text

namespace Console

variable {H : Type}

/-! ## The payload of a line -/

/-- Characters in front of a text that are no spaces do not change what is forwarded. -/
theorem payload_append_of_no_space {before : String} (h : ' ' ∉ before.toList) (text : String) :
    payload (before ++ text) = payload text := by
  have hall : ∀ ch ∈ before.toList, (ch != ' ') = true :=
    fun ch hch => bne_iff_ne.mpr fun heq => h (heq ▸ hch)
  rw [payload, payload, String.toList_append, List.dropWhile_append_of_pos hall]

/-- What follows the first space of a line is its payload. -/
theorem payload_append {before : String} (h : ' ' ∉ before.toList) (text : String) :
    payload (before ++ " " ++ text) = text := by
  rw [String.append_assoc, payload_append_of_no_space h, payload, String.toList_append]
  exact String.ofList_toList

/-- A line without a space forwards nothing. -/
theorem payload_eq_empty {line : String} (h : ' ' ∉ line.toList) : payload line = "" := by
  have hpayload := payload_append_of_no_space h ""
  rwa [String.append_empty] at hpayload

/-- A payload follows the first space of its line. -/
theorem exists_append_payload {line : String} (h : payload line ≠ "") :
    ∃ before, ' ' ∉ before.toList ∧ line = before ++ " " ++ payload line := by
  by_cases hspace : ' ' ∈ line.toList
  · obtain ⟨before, text, hbefore, rfl⟩ := exists_append_of_space hspace
    exact ⟨before, hbefore, by rw [payload_append hbefore]⟩
  · exact absurd (payload_eq_empty hspace) h

/-! ## The frame of a payload -/

theorem bytes_frameBytes {s : String} (h : (encode s).length < lineSize) :
    frameBytes s = encode s ++ [carriageReturn] := by
  have hroom : (Row.blank : Scratch lineSize).used + (encode s).length ≤ lineSize := by
    rw [← Row.length_bytes, Row.bytes_blank, List.length_nil, Nat.zero_add]
    exact Nat.le_of_lt h
  have hwritten : ((Row.blank : Scratch lineSize).extend (encode s)).bytes = encode s := by
    rw [Row.bytes_extend hroom, Row.bytes_blank, List.nil_append]
  have hused : ((Row.blank : Scratch lineSize).extend (encode s)).used = (encode s).length := by
    rw [← Row.length_bytes, hwritten]
  rw [frameBytes, Row.bytes_push, hwritten, hused, List.take_of_length_le]
  exact Nat.sub_pos_of_lt h

/-- A frame has room for the payload of a line, whole, and for the carriage return. -/
theorem frameBytes_payload {line : String} (hfits : (encode line).length ≤ maxChars) :
    frameBytes (payload line) = encode (payload line) ++ [carriageReturn] := by
  refine bytes_frameBytes ?_
  by_cases hpayload : payload line = ""
  · rw [hpayload]
    decide
  · obtain ⟨before, -, hline⟩ := exists_append_payload hpayload
    have hlength := congrArg (fun s => (encode s).length) hline
    rw [encode_append, encode_append, List.length_append, List.length_append] at hlength
    have hspace : (encode " ").length = 1 := rfl
    have hmax : maxChars = 99 := rfl
    have hsize : lineSize = 100 := rfl
    omega

/-! ## What is sent -/

/-- What goes to a link for a text: one frame, or nothing for an empty text. -/
def sent (link : LinkId) (text : String) : List Frame :=
  if text = "" then [] else [⟨link, encode text ++ [carriageReturn]⟩]

theorem sent_empty (link : LinkId) : sent link "" = [] := rfl

/-- The frames that are sent for a line, if it is forwarded. -/
inductive Sends (line : String) : Option LinkId → List Frame → Prop where
  | noLink : Sends line none []
  | noSpace {link : Option LinkId} (hspace : ' ' ∉ line.toList) : Sends line link []
  | behindSpace {link : LinkId} {before text : String} (hspace : ' ' ∉ before.toList)
    (hline : line = before ++ " " ++ text) : Sends line (some link) (sent link text)

/-- A frame that is sent for a line is the only one.  It carries the text behind the first space. -/
theorem Sends.of_mem {line : String} {link : Option LinkId} {frames : List Frame}
    (h : Sends line link frames) {f : Frame} (hf : f ∈ frames) :
    link = some f.link ∧ frames = [f] ∧ ∃ before text, ' ' ∉ before.toList ∧
      line = before ++ " " ++ text ∧ text ≠ "" ∧ f.bytes = encode text ++ [carriageReturn] := by
  cases h with
  | noLink => cases hf
  | noSpace _ => cases hf
  | @behindSpace link before text hspace hline =>
    by_cases htext : text = ""
    · rw [htext, sent_empty] at hf
      cases hf
    · rw [sent, if_neg htext] at hf ⊢
      obtain rfl := List.mem_singleton.mp hf
      exact ⟨rfl, rfl, before, text, hspace, hline, htext, rfl⟩

theorem Sends.frames_eq {line : String} {link : LinkId} {frames : List Frame}
    (h : Sends line (some link) frames) : frames = sent link (payload line) := by
  cases h with
  | noSpace hspace => rw [payload_eq_empty hspace, sent_empty]
  | behindSpace hspace hline => rw [hline, payload_append hspace]

theorem frames_forward_eq_sent {c : Console H} {link : LinkId} (hlink : c.link = some link)
    {line : String} (hfits : (encode line).length ≤ maxChars) :
    (c.forward line).frames = sent link (payload line) := by
  have hbytes := frameBytes_payload hfits
  unfold forward sent
  rw [hlink]
  dsimp only
  split
  · rfl
  · rw [hbytes]

/-- What is sent is what the line says, if the line fits. -/
theorem sends_forward (c : Console H) {line : String} (hfits : (encode line).length ≤ maxChars) :
    Sends line c.link (c.forward line).frames := by
  cases hlink : c.link with
  | none =>
    have hframes : (c.forward line).frames = [] := by
      unfold forward
      rw [hlink]
    rw [hframes]
    exact .noLink
  | some link =>
    rw [frames_forward_eq_sent hlink hfits]
    by_cases hspace : ' ' ∈ line.toList
    · obtain ⟨before, text, hbefore, rfl⟩ := exists_append_of_space hspace
      rw [payload_append hbefore]
      exact .behindSpace hbefore rfl
    · rw [payload_eq_empty hspace, sent_empty]
      exact .noSpace hspace

end Console

end SerialConsole
