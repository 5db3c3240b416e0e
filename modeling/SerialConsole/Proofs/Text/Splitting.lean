import SerialConsole.Proofs.Text.WellFormed
import SerialConsole.Proofs.Text.Words

/-!
# Splitting a line

A line is its first word, a gap and the rest.  No blank stands in the word, nothing but blanks stands
in the gap, the rest does not start with a blank, and the gap is empty only at the end of the line.
These conditions leave no choice:

    Split line word gap rest ↔ word = (splitWord line).1 ∧ gap = gapOf line ∧ rest = (splitWord line).2

A line may as well be split among its bytes, at the first byte of a blank and behind the last one that
follows it.  A byte below 80 is a character of its own, so both places are between two characters:

    encode (splitWord line).1 = (encode line).takeWhile (!isBlankByte ·)        (encode_splitWord)
-/

namespace SerialConsole.Text

/-- The line is a word, a gap and the rest, and a gap is as long as it can be. -/
structure Split (line word gap rest : String) : Prop where
  whole : line = word ++ gap ++ rest
  noBlank : ∀ c ∈ word.toList, isBlank c = false
  blanks : ∀ c ∈ gap.toList, isBlank c = true
  starts : ∀ c, rest.toList.head? = some c → isBlank c = false
  ends : gap = "" → rest = ""

/-- The blanks behind the first word. -/
def gapOf (line : String) : String :=
  String.ofList ((line.toList.dropWhile (!isBlank ·)).takeWhile isBlank)

/-- The byte of a space or a tab. -/
def isBlankByte (b : UInt8) : Bool := b == 0x20 || b == 0x09

/-! ## Characters -/

/-- What follows the word is nothing, or starts with a blank. -/
theorem Split.head_gap {line word gap rest : String} (h : Split line word gap rest) :
    ∀ c, (gap.toList ++ rest.toList).head? = some c → isBlank c = true := by
  intro c hc
  cases hgap : gap.toList with
  | nil =>
    have hrest : rest = "" := h.ends (String.toList_inj.mp hgap)
    rw [hgap, hrest] at hc
    cases hc
  | cons d ds =>
    rw [hgap] at hc
    cases hc
    exact h.blanks c (by rw [hgap]; exact List.mem_cons_self)

theorem Split.eq {line word gap rest : String} (h : Split line word gap rest) :
    word = (splitWord line).1 ∧ gap = gapOf line ∧ rest = (splitWord line).2 := by
  have hline : line.toList = word.toList ++ (gap.toList ++ rest.toList) := by
    rw [h.whole, String.toList_append, String.toList_append, List.append_assoc]
  obtain ⟨hword, hbehind⟩ := span_append (p := (!isBlank ·)) (l := word.toList)
    (r := gap.toList ++ rest.toList) (fun c hc => by rw [h.noBlank c hc]; rfl)
    (fun c hc => by rw [h.head_gap c hc]; rfl)
  obtain ⟨hgap, hrest⟩ := span_append h.blanks h.starts
  rw [← hline] at hword hbehind
  refine ⟨?_, ?_, ?_⟩
  · rw [splitWord, firstWord, hword, String.ofList_toList]
  · rw [gapOf, hbehind, hgap, String.ofList_toList]
  · rw [splitWord, afterWord, hbehind, hrest, String.ofList_toList]

theorem split_splitWord (line : String) :
    Split line (splitWord line).1 (gapOf line) (splitWord line).2 := by
  have hword : (splitWord line).1.toList = firstWord line.toList := String.toList_ofList
  have hgap : (gapOf line).toList = (line.toList.dropWhile (!isBlank ·)).takeWhile isBlank :=
    String.toList_ofList
  have hrest : (splitWord line).2.toList = afterWord line.toList := String.toList_ofList
  refine ⟨?_, ?_, ?_, ?_, ?_⟩
  · rw [← String.toList_inj, String.toList_append, String.toList_append, hword, hgap, hrest,
      List.append_assoc, afterWord, List.takeWhile_append_dropWhile, firstWord,
      List.takeWhile_append_dropWhile]
  · intro c hc
    rw [hword] at hc
    exact noBlank_of_mem_firstWord hc
  · intro c hc
    rw [hgap] at hc
    exact List.all_eq_true.mp List.all_takeWhile c hc
  · intro c hc
    have hstop := List.head?_dropWhile_not isBlank (line.toList.dropWhile (!isBlank ·))
    rw [hrest, afterWord] at hc
    rw [hc] at hstop
    simpa using hstop
  · -- if no blank ends the word, the word is the whole line
    intro hnil
    rw [← String.toList_inj, hgap] at hnil
    rw [← String.toList_inj, hrest, afterWord]
    cases hbehind : line.toList.dropWhile (!isBlank ·) with
    | nil => rfl
    | cons c cs =>
      have hc : isBlank c = true := isBlank_of_head?_dropWhile (by rw [hbehind]; rfl)
      rw [hbehind, List.takeWhile_cons_of_pos hc] at hnil
      cases hnil

theorem split_iff {line word gap rest : String} :
    Split line word gap rest ↔
      word = (splitWord line).1 ∧ gap = gapOf line ∧ rest = (splitWord line).2 := by
  refine ⟨Split.eq, ?_⟩
  rintro ⟨rfl, rfl, rfl⟩
  exact split_splitWord line

/-! ## Bytes -/

/-- A byte below 80 is a sequence of its own. -/
theorem Sequence.eq_of_mem {s : Bytes} (h : Sequence s) {b : UInt8} (hb : b ∈ s)
    (hascii : b.toNat < 0x80) : s = [b] := by
  cases h with
  | one _ =>
    rw [List.mem_singleton.mp hb]
  | two ha hb' =>
    obtain ⟨hb', -⟩ := hb'
    simp only [List.mem_cons, List.not_mem_nil, or_false] at hb
    rcases hb with rfl | rfl <;> omega
  | three ha hb' hc _ _ =>
    obtain ⟨hb', -⟩ := hb'
    obtain ⟨hc, -⟩ := hc
    simp only [List.mem_cons, List.not_mem_nil, or_false] at hb
    rcases hb with rfl | rfl | rfl <;> omega
  | four ha hb' hc hd _ _ =>
    obtain ⟨hb', -⟩ := hb'
    obtain ⟨hc, -⟩ := hc
    obtain ⟨hd, -⟩ := hd
    simp only [List.mem_cons, List.not_mem_nil, or_false] at hb
    rcases hb with rfl | rfl | rfl | rfl <;> omega

/-- The bytes of a blank are bytes of blanks, and no other character has one. -/
theorem isBlankByte_of_mem {c : Char} {b : UInt8} (hb : b ∈ String.utf8EncodeChar c) :
    isBlankByte b = isBlank c := by
  have hspace : String.utf8EncodeChar ' ' = [0x20] := rfl
  have htab : String.utf8EncodeChar '\t' = [0x09] := rfl
  rw [Bool.eq_iff_iff, isBlank_iff, isBlankByte, Bool.or_eq_true, beq_iff_eq, beq_iff_eq]
  constructor
  · -- the byte is the whole encoding, and that is the encoding of one character only
    rintro (rfl | rfl)
    · have hone := (sequence_utf8EncodeChar c).eq_of_mem hb (by decide)
      exact .inl (eq_of_utf8EncodeChar_isPrefix ⟨[], by rw [List.append_nil, hone, hspace]⟩)
    · have hone := (sequence_utf8EncodeChar c).eq_of_mem hb (by decide)
      exact .inr (eq_of_utf8EncodeChar_isPrefix ⟨[], by rw [List.append_nil, hone, htab]⟩)
  · rintro (rfl | rfl)
    · rw [hspace] at hb
      exact .inl (List.mem_singleton.mp hb)
    · rw [htab] at hb
      exact .inr (List.mem_singleton.mp hb)

theorem isBlankByte_of_mem_encode {s : String} {blank : Bool}
    (hs : ∀ c ∈ s.toList, isBlank c = blank) : ∀ b ∈ encode s, isBlankByte b = blank := by
  intro b hb
  obtain ⟨c, hc, hb⟩ := List.mem_flatMap.mp hb
  rw [isBlankByte_of_mem hb, hs c hc]

/-- The first byte of a text is one of its first character. -/
theorem isBlankByte_of_head? {cs : List Char} {blank : Bool}
    (hcs : ∀ c, cs.head? = some c → isBlank c = blank) :
    ∀ b, (cs.flatMap String.utf8EncodeChar).head? = some b → isBlankByte b = blank := by
  intro b hb
  cases cs with
  | nil => cases hb
  | cons c cs =>
    rw [List.flatMap_cons] at hb
    cases hbytes : String.utf8EncodeChar c with
    | nil =>
      have hpos := c.utf8Size_pos
      rw [← String.length_utf8EncodeChar, hbytes] at hpos
      exact absurd hpos (Nat.lt_irrefl 0)
    | cons a as =>
      rw [hbytes] at hb
      cases hb
      rw [isBlankByte_of_mem (c := c) (by rw [hbytes]; exact List.mem_cons_self), hcs c rfl]

/-- Splitting the bytes comes to the same as splitting the characters. -/
theorem encode_splitWord (line : String) :
    encode (splitWord line).1 = (encode line).takeWhile (!isBlankByte ·) ∧
      encode (splitWord line).2 = ((encode line).dropWhile (!isBlankByte ·)).dropWhile isBlankByte := by
  have h := split_splitWord line
  have hline : encode line = encode (splitWord line).1 ++
      (encode (gapOf line) ++ encode (splitWord line).2) := by
    conv => lhs; rw [h.whole]
    rw [encode_append, encode_append, List.append_assoc]
  have hfollows := isBlankByte_of_head? h.head_gap
  rw [List.flatMap_append] at hfollows
  obtain ⟨hword, hbehind⟩ := span_append (p := (!isBlankByte ·)) (l := encode (splitWord line).1)
    (r := encode (gapOf line) ++ encode (splitWord line).2)
    (fun b hb => by rw [isBlankByte_of_mem_encode h.noBlank b hb]; rfl)
    (fun b hb => by rw [hfollows b hb]; rfl)
  obtain ⟨-, hrest⟩ := span_append (isBlankByte_of_mem_encode h.blanks)
    (isBlankByte_of_head? h.starts)
  rw [← hline] at hword hbehind
  refine ⟨hword.symm, ?_⟩
  rw [hbehind]
  exact hrest.symm

/-- **The law of splitting.**  Every line has exactly one split into a word without blanks, a gap of
blanks that is empty only at the end of the line, and a rest that does not start with a blank; the word
and the rest are what the line is split into.  Both cuts are where the bytes of blanks begin and end, so
no character is cut. -/
theorem splitting_law (line : String) :
    (∀ word gap rest, Split line word gap rest ↔
      word = (splitWord line).1 ∧ gap = gapOf line ∧ rest = (splitWord line).2) ∧
    encode (splitWord line).1 = (encode line).takeWhile (!isBlankByte ·) ∧
    encode (splitWord line).2 =
      ((encode line).dropWhile (!isBlankByte ·)).dropWhile isBlankByte :=
  ⟨fun _ _ _ => split_iff, encode_splitWord line⟩

/-- A line that starts with a blank has the empty word, and blanks at its end are part of the rest. -/
example : splitWord "\t état  5 " = ("", "état  5 ") := by decide

end SerialConsole.Text
