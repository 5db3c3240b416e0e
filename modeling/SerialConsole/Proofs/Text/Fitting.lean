import SerialConsole.Line

/-!
# The longest text that fits

A text that is cut to a number of bytes keeps whole characters only.  What is kept is the longest
beginning that fits; that is so because bytes open with a text exactly if what is read off them does:

    encode t <+: bs  ↔  t.toList <+: (opening bs).toList        (encode_isPrefix_iff)
    LongestFit n s (opening ((encode s).take n))                (longestFit_opening_take)
-/

namespace SerialConsole.Text

open Settings

/-- The longest beginning of a text that has at most `n` bytes. -/
structure LongestFit (n : Nat) (s t : String) : Prop where
  isPrefix : t.toList <+: s.toList
  fits : (encode t).length ≤ n
  longest : ∀ u : String, u.toList <+: s.toList → (encode u).length ≤ n → u.toList <+: t.toList

theorem encode_append (s t : String) : encode (s ++ t) = encode s ++ encode t := by
  rw [encode, encode, encode, String.toList_append, List.flatMap_append]

theorem encode_eq_nil_iff {s : String} : encode s = [] ↔ s = "" := by
  constructor
  · intro h
    have hs := opening_encode s
    rw [h] at hs
    exact hs.symm.trans (opening_encode "")
  · rintro rfl
    rfl

theorem encode_isPrefix_encode {s t : String} (h : s.toList <+: t.toList) :
    encode s <+: encode t := by
  obtain ⟨rest, hrest⟩ := h
  refine ⟨rest.flatMap String.utf8EncodeChar, ?_⟩
  rw [encode, encode, ← hrest, List.flatMap_append]

/-- Bytes open with a text exactly if the text that is read off them does. -/
theorem encode_isPrefix_iff {t : String} {bs : Bytes} :
    encode t <+: bs ↔ t.toList <+: (opening bs).toList := by
  constructor
  · rintro ⟨rest, rfl⟩
    rw [opening, String.toList_ofList, encode, leadChars_append]
    exact List.prefix_append _ _
  · intro h
    exact (encode_isPrefix_encode h).trans (isPrefix_encode_opening bs)

theorem longestFit_opening_take (n : Nat) (s : String) :
    LongestFit n s (opening ((encode s).take n)) where
  isPrefix := by
    have h := (isPrefix_encode_opening ((encode s).take n)).trans (List.take_prefix n _)
    rwa [encode_isPrefix_iff, opening_encode] at h
  fits := by
    have h := (isPrefix_encode_opening ((encode s).take n)).length_le
    rw [List.length_take] at h
    omega
  longest := by
    intro u hu hfits
    rw [← encode_isPrefix_iff, List.prefix_take_iff]
    exact ⟨encode_isPrefix_encode hu, hfits⟩

theorem length_utf8EncodeChar_le (c : Char) : (String.utf8EncodeChar c).length ≤ 4 := by
  rw [String.length_utf8EncodeChar]
  exact c.utf8Size_le_four

/-- A text that fits is not cut. -/
theorem LongestFit.eq_of_length_le {n : Nat} {s t : String} (h : LongestFit n s t)
    (hs : (encode s).length ≤ n) : t = s := by
  have hts : s.toList <+: t.toList := h.longest s (List.prefix_refl _) hs
  exact String.toList_inj.mp (h.isPrefix.eq_of_length_le hts.length_le)

/-- There is only one longest beginning that fits. -/
theorem LongestFit.unique {n : Nat} {s t t' : String} (h : LongestFit n s t)
    (h' : LongestFit n s t') : t = t' := by
  have hle : t.toList <+: t'.toList := h'.longest t h.isPrefix h.fits
  have hge : t'.toList <+: t.toList := h.longest t' h'.isPrefix h'.fits
  exact String.toList_inj.mp (hle.eq_of_length_le hge.length_le)

/-- A cut takes off at most what the next character did not leave room for. -/
theorem LongestFit.le_length_add {n : Nat} {s t : String} (h : LongestFit n s t)
    (hs : n < (encode s).length) : n < (encode t).length + 4 := by
  obtain ⟨rest, hrest⟩ := h.isPrefix
  cases rest with
  | nil =>
    have hfits := h.fits
    rw [List.append_nil] at hrest
    rw [String.toList_inj.mp hrest] at hfits
    omega
  | cons c rest =>
    -- with the next character the text would no longer fit
    refine Nat.lt_of_not_le fun hle => ?_
    have hchar := length_utf8EncodeChar_le c
    have hbytes : (encode (String.ofList (t.toList ++ [c]))).length =
        (encode t).length + (String.utf8EncodeChar c).length := by
      rw [encode, String.toList_ofList, List.flatMap_append, List.length_append,
        List.flatMap_singleton]
      rfl
    have hlonger := h.longest (String.ofList (t.toList ++ [c])) ?_ (by omega)
    · have hlength := hlonger.length_le
      rw [String.toList_ofList, List.length_append, List.length_singleton] at hlength
      omega
    · rw [String.toList_ofList, ← hrest]
      exact ⟨rest, by rw [List.append_assoc, List.singleton_append]⟩

/-- A line that a text is put into shows as much of it as fits, whatever it held before. -/
theorem longestFit_assignText (l : Line) (s : String) :
    LongestFit maxChars s (l.assignText s).text := by
  have h : (l.assignText s).text = opening ((encode s).take maxChars) := by
    rw [Line.text, Line.assignText, Line.bytes_assign]
  rw [h]
  exact longestFit_opening_take maxChars s

theorem longestFit_ofText (s : String) : LongestFit maxChars s (Line.ofText s).text :=
  longestFit_assignText Line.empty s

end SerialConsole.Text
