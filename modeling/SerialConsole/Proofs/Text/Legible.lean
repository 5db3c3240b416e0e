import SerialConsole.Proofs.Console.Changes

/-!
# Lines that are no text

A line that is handed out may hold any bytes.  If they are a text, that text is answered; if not,
each byte below 0x80 stands for its character and each other one for a question mark, so that no
place of the line is lost:

    c.answerParcel service p = (c.received p).answer service (legible p.bytes)
-/

namespace SerialConsole

open Settings

namespace Text

/-- The character that a byte shows in a line that is no text. -/
def shown (b : UInt8) : Char := if b < 0x80 then Char.ofNat b.toNat else '?'

/-- The text that stands for the bytes of a line. -/
def legible (bs : Bytes) : String :=
  match ofBytes? bs with
  | some s => s
  | none => String.ofList (bs.map shown)

theorem utf8EncodeChar_ascii :
    ∀ n, n < 128 → String.utf8EncodeChar (Char.ofNat n) = [UInt8.ofNat n] := by
  decide +kernel

theorem utf8EncodeChar_of_ascii {ch : Char} (h : ch.toNat < 128) :
    String.utf8EncodeChar ch = [UInt8.ofNat ch.toNat] := by
  have hchar := utf8EncodeChar_ascii ch.toNat h
  rwa [Char.ofNat_toNat] at hchar

theorem utf8EncodeChar_shown (b : UInt8) :
    String.utf8EncodeChar (shown b) = [Line.maskByte Console.substitute b] := by
  unfold shown Line.maskByte isAscii
  by_cases hb : b < 0x80
  · have h := utf8EncodeChar_ascii b.toNat hb
    rw [UInt8.ofNat_toNat] at h
    rw [if_pos hb, decide_eq_true hb, if_pos rfl, h]
  · rw [if_neg hb, decide_eq_false hb, if_neg Bool.false_ne_true]
    rfl

/-- Masked bytes are those of the text that they show. -/
theorem map_maskByte (bs : Bytes) :
    bs.map (Line.maskByte Console.substitute) = encode (String.ofList (bs.map shown)) := by
  rw [encode, String.toList_ofList]
  induction bs with
  | nil => rfl
  | cons b bs ih =>
    rw [List.map_cons, List.map_cons, List.flatMap_cons, utf8EncodeChar_shown, ih]
    rfl

/-- Masked bytes are a text, and nothing of it is lost. -/
theorem opening_map_maskByte (bs : Bytes) :
    opening (bs.map (Line.maskByte Console.substitute)) = String.ofList (bs.map shown) := by
  rw [map_maskByte, opening_encode]

/-- The text of a line has the bytes of the line, masked if they are no text. -/
theorem encode_legible (bs : Bytes) :
    encode (legible bs) = bs ∨
      encode (legible bs) = bs.map (Line.maskByte Console.substitute) := by
  unfold legible
  cases h : ofBytes? bs with
  | some s => exact .inl (ofBytes?_eq_some_iff.mp h)
  | none => exact .inr (map_maskByte bs).symm

theorem length_encode_legible (bs : Bytes) : (encode (legible bs)).length = bs.length := by
  rcases encode_legible bs with h | h
  · rw [h]
  · rw [h, List.length_map]

end Text

namespace Console

variable {H : Type}

/-- The console when the line that was handed out is noted, and not yet answered. -/
def received (c : Console H) (p : Parcel) : Console H :=
  let c := c.note .debug [p.origin.name, " line, ", toString p.bytes.length, " chars"]
  match Text.ofBytes? p.bytes with
  | some _ => c
  | none => c.note .warn [p.origin.name, " line has non-text bytes"]

/-- Noting a line changes the journal only. -/
theorem received_eq (c : Console H) (p : Parcel) : ∃ log, c.received p = c.withLog log := by
  unfold received
  dsimp only
  split <;> exact ⟨_, rfl⟩

/-- A line that was handed out is noted, and then answered like a text. -/
theorem answerParcel_eq (service : Service H) (c : Console H) {p : Parcel}
    (hlength : p.bytes.length ≤ maxChars) :
    c.answerParcel service p = (c.received p).answer service (Text.legible p.bytes) := by
  have hbytes : (Line.ofBytes p.bytes).bytes = p.bytes := by
    rw [Line.ofBytes, Line.bytes_assign, List.take_of_length_le hlength]
  have hused : (Line.ofBytes p.bytes).used = p.bytes.length := by
    rw [← Row.length_bytes, hbytes]
  cases h : Text.ofBytes? p.bytes with
  | some s =>
    have hmasked : (Line.ofBytes p.bytes).masked? substitute = none := by
      simp only [Line.masked?, hbytes, h]
    have htext : (Line.ofBytes p.bytes).text = s := by
      rw [Line.text, hbytes, ← Text.ofBytes?_eq_some_iff.mp h, Text.opening_encode]
    simp only [answerParcel, received, Text.legible, hused, hmasked, htext, h]
  | none =>
    obtain ⟨masked, hmasked⟩ : ∃ masked, (Line.ofBytes p.bytes).masked? substitute = some masked := by
      simp only [Line.masked?, hbytes, h, Option.some.injEq, exists_eq']
    have htext : masked.text = String.ofList (p.bytes.map Text.shown) := by
      rw [Line.text, Line.bytes_of_masked? hmasked, hbytes, Text.opening_map_maskByte]
    simp only [answerParcel, received, Text.legible, hused, hmasked, htext, h]

end Console

end SerialConsole
