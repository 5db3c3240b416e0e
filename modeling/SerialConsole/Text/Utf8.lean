/-!
# Texts as bytes

A text is sent as the encodings of its characters, one after the other.  Bytes that arrive need not
be a text: `opening` keeps the longest text that they open with, and `ofBytes?` answers only when
that is all of them.

    encode (opening bs) <+: bs                 (isPrefix_encode_opening)
    opening (encode s) = s                     (opening_encode)
    ofBytes? bs = some s ↔ encode s = bs       (ofBytes?_eq_some_iff)
-/

namespace SerialConsole

/-- A run of bytes, first to last. -/
abbrev Bytes := List UInt8

namespace Text

/-- The bytes of a text. -/
def encode (s : String) : Bytes := s.toList.flatMap String.utf8EncodeChar

/-- The character whose encoding opens the bytes, if there is one. -/
def leadChar? (bs : Bytes) : Option Char := bs.toByteArray.utf8DecodeChar? 0

theorem ne_nil_of_leadChar? {bs : Bytes} {c : Char} (h : leadChar? bs = some c) : bs ≠ [] := by
  rintro rfl
  have hlt := ByteArray.lt_size_of_isSome_utf8DecodeChar? (Option.isSome_of_eq_some h)
  simp at hlt

theorem length_sub_utf8Size_lt {bs : Bytes} {c : Char} (h : leadChar? bs = some c) :
    bs.length - c.utf8Size < bs.length := by
  have hpos := List.length_pos_iff.mpr (ne_nil_of_leadChar? h)
  have hsize := c.utf8Size_pos
  omega

/-- The characters of the longest text that the bytes open with. -/
def leadChars (bs : Bytes) : List Char :=
  match h : leadChar? bs with
  | none => []
  | some c =>
    have := length_sub_utf8Size_lt h
    c :: leadChars (bs.drop c.utf8Size)
termination_by bs.length

/-- The longest text that the bytes open with. -/
def opening (bs : Bytes) : String := String.ofList (leadChars bs)

/-- The text that the bytes are, if they are one. -/
def ofBytes? (bs : Bytes) : Option String :=
  if encode (opening bs) = bs then some (opening bs) else none

/-- Bytes below 0x80 stand for a character of their own in every text. -/
def isAscii (b : UInt8) : Bool := b < 0x80

/-! ## Reading what was encoded -/

theorem leadChar?_append (c : Char) (bs : Bytes) :
    leadChar? (String.utf8EncodeChar c ++ bs) = some c := by
  rw [leadChar?, List.toByteArray_append]
  exact ByteArray.utf8DecodeChar?_utf8EncodeChar_append

theorem eq_append_of_leadChar? {bs : Bytes} {c : Char} (h : leadChar? bs = some c) :
    bs = String.utf8EncodeChar c ++ bs.drop c.utf8Size := by
  obtain ⟨rest, hrest⟩ := ByteArray.exists_of_utf8DecodeChar?_eq_some h
  have hdata : rest = rest.data.toList.toByteArray :=
    ByteArray.ext (by rw [List.data_toByteArray, Array.toArray_toList])
  rw [hdata, ← List.toByteArray_append, List.toByteArray_inj] at hrest
  conv => lhs; rw [hrest]
  rw [hrest, ← String.length_utf8EncodeChar, List.drop_left]

theorem leadChars_of_eq_none {bs : Bytes} (h : leadChar? bs = none) : leadChars bs = [] := by
  rw [leadChars]
  split
  · rfl
  · next hc => rw [h] at hc; cases hc

@[simp] theorem leadChars_nil : leadChars [] = [] := leadChars_of_eq_none rfl

theorem leadChars_of_eq_some {bs : Bytes} {c : Char} (h : leadChar? bs = some c) :
    leadChars bs = c :: leadChars (bs.drop c.utf8Size) := by
  rw [leadChars]
  split
  · next hc => rw [h] at hc; cases hc
  · next d hd => rw [h] at hd; cases hd; rfl

/-- Whatever follows the bytes of a text, the text is read before it. -/
theorem leadChars_append (cs : List Char) (bs : Bytes) :
    leadChars (cs.flatMap String.utf8EncodeChar ++ bs) = cs ++ leadChars bs := by
  induction cs with
  | nil => rfl
  | cons c cs ih =>
    rw [List.flatMap_cons, List.append_assoc, leadChars_of_eq_some (leadChar?_append c _),
      ← String.length_utf8EncodeChar, List.drop_left, ih, List.cons_append]

/-- The bytes read as text are the first ones. -/
theorem isPrefix_encode_opening (bs : Bytes) : encode (opening bs) <+: bs := by
  rw [encode, opening, String.toList_ofList]
  fun_induction leadChars bs with
  | case1 => exact ⟨_, List.nil_append _⟩
  | case2 bs c h _ ih =>
    rw [List.flatMap_cons]
    conv => rhs; rw [eq_append_of_leadChar? h]
    exact (List.prefix_append_right_inj _).mpr ih

/-- Every text is read back from its bytes. -/
@[simp] theorem opening_encode (s : String) : opening (encode s) = s := by
  have h := leadChars_append s.toList []
  rw [List.append_nil, leadChars_nil, List.append_nil] at h
  rw [opening, encode, h, String.ofList_toList]

theorem ofBytes?_eq_some_iff {bs : Bytes} {s : String} : ofBytes? bs = some s ↔ encode s = bs := by
  unfold ofBytes?
  constructor
  · intro h
    split at h
    · next he => cases h; exact he
    · cases h
  · rintro rfl
    simp

end Text

end SerialConsole
