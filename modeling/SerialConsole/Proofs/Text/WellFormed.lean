import SerialConsole.Proofs.Text.Fitting

/-!
# Well-formed bytes

Bytes are well formed if they are sequences, one after the other, whose first byte tells how many bytes
follow it.  Every byte that follows is one of 80 .. BF, and some first bytes limit the next one further:

    first byte    bytes that follow    the next byte is
    00 .. 7F      none
    C2 .. DF      one
    E0 .. EF      two                  at least A0 after E0, at most 9F after ED
    F0 .. F4      three                at least 90 after F0, at most 8F after F4

The lower limits rule out sequences for a character that has a shorter one, and the upper limits rule
out surrogates and numbers beyond the last character.  What is left are the encodings of the characters,
so well-formed bytes are those of a text:

    WellFormed bs ↔ ∃ s, encode s = bs                  (wellFormed_iff)
-/

namespace SerialConsole.Text

/-- A byte that follows the first one of a sequence. -/
def Trailing (b : UInt8) : Prop := 0x80 ≤ b.toNat ∧ b.toNat ≤ 0xBF

/-- The sequences that stand for one character. -/
inductive Sequence : Bytes → Prop where
  | one {a : UInt8} (ha : a.toNat ≤ 0x7F) : Sequence [a]
  | two {a b : UInt8} (ha : 0xC2 ≤ a.toNat ∧ a.toNat ≤ 0xDF) (hb : Trailing b) : Sequence [a, b]
  | three {a b c : UInt8} (ha : 0xE0 ≤ a.toNat ∧ a.toNat ≤ 0xEF) (hb : Trailing b) (hc : Trailing c)
    (hshort : a.toNat = 0xE0 → 0xA0 ≤ b.toNat)
    (hsurrogate : a.toNat = 0xED → b.toNat ≤ 0x9F) : Sequence [a, b, c]
  | four {a b c d : UInt8} (ha : 0xF0 ≤ a.toNat ∧ a.toNat ≤ 0xF4) (hb : Trailing b)
    (hc : Trailing c) (hd : Trailing d) (hshort : a.toNat = 0xF0 → 0x90 ≤ b.toNat)
    (hbeyond : a.toNat = 0xF4 → b.toNat ≤ 0x8F) : Sequence [a, b, c, d]

/-- Sequences, one after the other. -/
inductive WellFormed : Bytes → Prop where
  | nil : WellFormed []
  | cons {s rest : Bytes} (hs : Sequence s) (hrest : WellFormed rest) : WellFormed (s ++ rest)

/-! ## Sequences and characters -/

theorem trailing_ofNat (n : Nat) : Trailing (UInt8.ofNat (n % 64 + 128)) := by
  rw [Trailing, UInt8.toNat_ofNat']
  omega

/-- The encoding of a character is a sequence. -/
theorem sequence_utf8EncodeChar (ch : Char) : Sequence (String.utf8EncodeChar ch) := by
  have hvalid : ch.val.toNat < 0xD800 ∨ 0xDFFF < ch.val.toNat ∧ ch.val.toNat < 0x110000 := ch.valid
  rw [String.utf8EncodeChar.eq_1]
  generalize ch.val.toNat = n at hvalid
  by_cases hone : n ≤ 127
  · rw [if_pos hone]
    refine .one ?_
    rw [UInt8.toNat_ofNat']
    omega
  by_cases htwo : n ≤ 2047
  · rw [if_neg hone, if_pos htwo]
    refine .two ?_ (trailing_ofNat _)
    rw [UInt8.toNat_ofNat']
    omega
  by_cases hthree : n ≤ 65535
  · rw [if_neg hone, if_neg htwo, if_pos hthree]
    refine .three ?_ (trailing_ofNat _) (trailing_ofNat _) ?_ ?_
    all_goals
      simp only [UInt8.toNat_ofNat']
      omega
  · rw [if_neg hone, if_neg htwo, if_neg hthree]
    refine .four ?_ (trailing_ofNat _) (trailing_ofNat _) (trailing_ofNat _) ?_ ?_
    all_goals
      simp only [UInt8.toNat_ofNat']
      omega

/-- A number that is no surrogate and not beyond the last character is that of a character. -/
theorem exists_char {n : Nat} (h : n < 0xD800 ∨ 0xDFFF < n ∧ n < 0x110000) :
    ∃ ch : Char, ch.val.toNat = n :=
  ⟨Char.ofNatAux n h, rfl⟩

/-- Every sequence is the encoding of a character. -/
theorem exists_utf8EncodeChar {s : Bytes} (h : Sequence s) :
    ∃ ch, String.utf8EncodeChar ch = s := by
  cases h with
  | @one a ha =>
    obtain ⟨ch, hch⟩ := exists_char (n := a.toNat) (by omega)
    refine ⟨ch, ?_⟩
    rw [String.utf8EncodeChar.eq_1, hch, if_pos ha, UInt8.ofNat_toNat]
  | @two a b ha hb =>
    obtain ⟨hb, hb'⟩ := hb
    obtain ⟨ch, hch⟩ := exists_char (n := (a.toNat - 0xC0) * 64 + (b.toNat - 0x80)) (by omega)
    refine ⟨ch, ?_⟩
    rw [String.utf8EncodeChar.eq_1, hch, if_neg (by omega), if_pos (by omega)]
    simp only [List.cons.injEq, ← UInt8.toNat_inj, UInt8.toNat_ofNat', and_true]
    omega
  | @three a b c ha hb hc hshort hsurrogate =>
    obtain ⟨hb, hb'⟩ := hb
    obtain ⟨hc, hc'⟩ := hc
    obtain ⟨ch, hch⟩ := exists_char
      (n := (a.toNat - 0xE0) * 4096 + (b.toNat - 0x80) * 64 + (c.toNat - 0x80)) (by omega)
    refine ⟨ch, ?_⟩
    rw [String.utf8EncodeChar.eq_1, hch, if_neg (by omega), if_neg (by omega), if_pos (by omega)]
    simp only [List.cons.injEq, ← UInt8.toNat_inj, UInt8.toNat_ofNat', and_true]
    omega
  | @four a b c d ha hb hc hd hshort hbeyond =>
    obtain ⟨hb, hb'⟩ := hb
    obtain ⟨hc, hc'⟩ := hc
    obtain ⟨hd, hd'⟩ := hd
    obtain ⟨ch, hch⟩ := exists_char
      (n := (a.toNat - 0xF0) * 262144 + (b.toNat - 0x80) * 4096 + (c.toNat - 0x80) * 64
        + (d.toNat - 0x80)) (by omega)
    refine ⟨ch, ?_⟩
    rw [String.utf8EncodeChar.eq_1, hch, if_neg (by omega), if_neg (by omega), if_neg (by omega)]
    simp only [List.cons.injEq, ← UInt8.toNat_inj, UInt8.toNat_ofNat', and_true]
    omega

/-! ## Well-formed bytes and texts -/

theorem wellFormed_encode (s : String) : WellFormed (encode s) := by
  rw [encode]
  induction s.toList with
  | nil => exact .nil
  | cons ch chs ih =>
    rw [List.flatMap_cons]
    exact .cons (sequence_utf8EncodeChar ch) ih

theorem exists_encode {bs : Bytes} (h : WellFormed bs) : ∃ s, encode s = bs := by
  induction h with
  | nil => exact ⟨"", rfl⟩
  | cons hs hrest ih =>
    obtain ⟨ch, rfl⟩ := exists_utf8EncodeChar hs
    obtain ⟨s, rfl⟩ := ih
    refine ⟨String.ofList (ch :: s.toList), ?_⟩
    rw [encode, String.toList_ofList, List.flatMap_cons]
    rfl

/-- Well-formed bytes are those of a text. -/
theorem wellFormed_iff {bs : Bytes} : WellFormed bs ↔ ∃ s, encode s = bs := by
  refine ⟨exists_encode, ?_⟩
  rintro ⟨s, rfl⟩
  exact wellFormed_encode s

/-- All bytes are read as text exactly if they are well formed. -/
theorem encode_opening_iff {bs : Bytes} : encode (opening bs) = bs ↔ WellFormed bs := by
  rw [wellFormed_iff]
  refine ⟨fun h => ⟨_, h⟩, ?_⟩
  rintro ⟨s, rfl⟩
  rw [opening_encode]

instance (bs : Bytes) : Decidable (WellFormed bs) := decidable_of_iff _ encode_opening_iff

end SerialConsole.Text
