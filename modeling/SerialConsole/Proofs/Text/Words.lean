import SerialConsole.Proofs.Text.Fitting
import SerialConsole.Text.Words

/-!
# First words and abbreviations

The first word of a line is what stands before its first blank.  There is exactly one, and it is the
one that a line is split at:

    FirstWord line word ↔ (splitWord line).1 = word                  (firstWord_iff)

Abbreviations are compared byte by byte, and that comes to the same as character by character, since
the bytes of a text open with those of another exactly if the text itself does:

    abbreviates typed name ↔ typed ≠ "" ∧ typed.toList <+: name.toList      (abbreviates_iff)

So abbreviating is an order on the texts that are not empty, and what abbreviates one name is a chain:
the beginnings of the name, from its first character to the whole of it.
-/

namespace SerialConsole.Text

/-- No blank stands in the word, and in the line there is nothing after it or a blank. -/
structure FirstWord (line word : String) : Prop where
  noBlank : ∀ c ∈ word.toList, isBlank c = false
  ends : ∃ rest, line.toList = word.toList ++ rest ∧ ∀ c, rest.head? = some c → isBlank c = true

/-- Behind elements that pass stands one that does not: there the list is cut. -/
theorem span_append {α : Type} {p : α → Bool} {l r : List α} (hl : ∀ a ∈ l, p a = true)
    (hr : ∀ a, r.head? = some a → p a = false) :
    (l ++ r).takeWhile p = l ∧ (l ++ r).dropWhile p = r := by
  rw [List.takeWhile_append_of_pos hl, List.dropWhile_append_of_pos hl]
  cases r with
  | nil => exact ⟨List.append_nil l, rfl⟩
  | cons a r =>
    have hstop : ¬ p a = true := by
      rw [hr a rfl]
      exact Bool.false_ne_true
    rw [List.takeWhile_cons_of_neg hstop, List.dropWhile_cons_of_neg hstop]
    exact ⟨List.append_nil l, rfl⟩

theorem isBlank_iff {c : Char} : isBlank c = true ↔ c = ' ' ∨ c = '\t' := by
  rw [isBlank, Bool.or_eq_true, beq_iff_eq, beq_iff_eq]

/-- What stands behind the first word starts with a blank. -/
theorem isBlank_of_head?_dropWhile {cs : List Char} {c : Char}
    (hc : (cs.dropWhile (!isBlank ·)).head? = some c) : isBlank c = true := by
  have hstop := List.head?_dropWhile_not (!isBlank ·) cs
  rw [hc] at hstop
  simpa using hstop

/-- A line is its first word and a rest that starts with a blank, or is empty. -/
theorem exists_eq_firstWord_append (cs : List Char) :
    ∃ rest, cs = firstWord cs ++ rest ∧ (∀ c, rest.head? = some c → isBlank c = true) ∧
      afterWord cs = rest.dropWhile isBlank :=
  ⟨_, List.takeWhile_append_dropWhile.symm, fun _ => isBlank_of_head?_dropWhile, rfl⟩

theorem noBlank_of_mem_firstWord {cs : List Char} {c : Char} (hc : c ∈ firstWord cs) :
    isBlank c = false := by
  have hkept := List.all_eq_true.mp List.all_takeWhile c hc
  rwa [Bool.not_eq_true'] at hkept

theorem firstWord_splitWord (line : String) : FirstWord line (splitWord line).1 := by
  obtain ⟨rest, hline, hrest, -⟩ := exists_eq_firstWord_append line.toList
  have hword : (splitWord line).1.toList = firstWord line.toList := String.toList_ofList
  refine ⟨?_, rest, ?_, hrest⟩
  · intro c hc
    rw [hword] at hc
    exact noBlank_of_mem_firstWord hc
  · rw [hword]
    exact hline

theorem FirstWord.splitWord_eq {line word : String} (h : FirstWord line word) :
    (splitWord line).1 = word := by
  obtain ⟨rest, hline, hrest⟩ := h.ends
  obtain ⟨hword, -⟩ := span_append (p := (!isBlank ·)) (l := word.toList) (r := rest)
    (fun c hc => by rw [h.noBlank c hc]; rfl) (fun c hc => by rw [hrest c hc]; rfl)
  rw [splitWord, firstWord, hline, hword, String.ofList_toList]

theorem firstWord_iff {line word : String} :
    FirstWord line word ↔ (splitWord line).1 = word := by
  refine ⟨FirstWord.splitWord_eq, ?_⟩
  rintro rfl
  exact firstWord_splitWord line

/-- A line that is not empty has an empty first word exactly if it starts with a blank. -/
theorem FirstWord.eq_empty_iff {line word : String} (h : FirstWord line word) (hline : line ≠ "") :
    word = "" ↔ line.toList.head? = some ' ' ∨ line.toList.head? = some '\t' := by
  obtain ⟨rest, hrest, hblank⟩ := h.ends
  cases hword : word.toList with
  | nil =>
    have hempty : word = "" := String.toList_inj.mp hword
    rw [hword, List.nil_append] at hrest
    cases hchars : rest with
    | nil =>
      rw [hchars] at hrest
      exact absurd (String.toList_inj.mp hrest) hline
    | cons c cs =>
      have hc := isBlank_iff.mp (hblank c (by rw [hchars]; rfl))
      simp only [hempty, hrest, hchars, List.head?_cons, Option.some.injEq, hc]
  | cons c cs =>
    have hne : word ≠ "" := by
      rintro rfl
      cases hword
    have hc : isBlank c = false := h.noBlank c (by rw [hword]; exact List.mem_cons_self)
    have hnot : ¬ (c = ' ' ∨ c = '\t') := by
      rw [← isBlank_iff, hc]
      exact Bool.false_ne_true
    simp only [hne, hrest, hword, List.cons_append, List.head?_cons, Option.some.injEq, hnot]

theorem FirstWord.isPrefix {line word : String} (h : FirstWord line word) :
    word.toList <+: line.toList := by
  obtain ⟨rest, hline, -⟩ := h.ends
  exact ⟨rest, hline.symm⟩

/-- A beginning of a line without a blank does not go beyond the first word. -/
theorem FirstWord.isPrefix_of_noBlank {line word u : String} (h : FirstWord line word)
    (hu : u.toList <+: line.toList) (hblank : ∀ c ∈ u.toList, isBlank c = false) :
    u.toList <+: word.toList := by
  obtain ⟨rest, hline, hrest⟩ := h.ends
  rcases List.prefix_or_prefix_of_prefix hu h.isPrefix with hle | ⟨more, hmore⟩
  · exact hle
  · -- what goes beyond the word would start with the blank that ends it
    rw [hline, ← hmore, List.prefix_append_right_inj] at hu
    cases more with
    | nil =>
      have hsame : u.toList = word.toList := hmore.symm.trans (List.append_nil _)
      exact ⟨[], (List.append_nil _).trans hsame⟩
    | cons c cs =>
      obtain ⟨rest', rfl⟩ := hu
      have hends : isBlank c = true := hrest c rfl
      have hin : isBlank c = false := by
        apply hblank
        rw [← hmore]
        simp
      rw [hends] at hin
      cases hin

/-- Of two texts one opens with the other exactly if its bytes do. -/
theorem encode_isPrefix_encode_iff {s t : String} :
    encode s <+: encode t ↔ s.toList <+: t.toList := by
  rw [encode_isPrefix_iff, opening_encode]

theorem abbreviates_iff {typed name : String} :
    abbreviates typed name = true ↔ typed ≠ "" ∧ typed.toList <+: name.toList := by
  rw [abbreviates, Bool.and_eq_true, bne_iff_ne, List.isPrefixOf_iff_prefix,
    encode_isPrefix_encode_iff]

/-! ## The order of abbreviations -/

/-- The bytes of a character do not open with those of another one. -/
theorem eq_of_utf8EncodeChar_isPrefix {c d : Char}
    (h : String.utf8EncodeChar c <+: String.utf8EncodeChar d) : c = d := by
  obtain ⟨rest, hrest⟩ := h
  have hc := leadChar?_append c rest
  have hd := leadChar?_append d []
  rw [List.append_nil, ← hrest, hc] at hd
  exact Option.some_inj.mp hd

theorem abbreviates_self_iff {word : String} : abbreviates word word = true ↔ word ≠ "" := by
  rw [abbreviates_iff]
  exact and_iff_left (List.prefix_refl _)

theorem abbreviates_trans {s t u : String} (hst : abbreviates s t = true)
    (htu : abbreviates t u = true) : abbreviates s u = true := by
  rw [abbreviates_iff] at hst htu ⊢
  exact ⟨hst.1, hst.2.trans htu.2⟩

theorem abbreviates_antisymm {s t : String} (hst : abbreviates s t = true)
    (hts : abbreviates t s = true) : s = t := by
  rw [abbreviates_iff] at hst hts
  exact String.toList_inj.mp (hst.2.eq_of_length_le hts.2.length_le)

/-- Of two abbreviations of one name the shorter one abbreviates the other. -/
theorem abbreviates_or_abbreviates {s t name : String} (hs : abbreviates s name = true)
    (ht : abbreviates t name = true) : abbreviates s t = true ∨ abbreviates t s = true := by
  rw [abbreviates_iff] at hs ht
  rcases List.prefix_or_prefix_of_prefix hs.2 ht.2 with hle | hle
  · exact .inl (abbreviates_iff.mpr ⟨hs.1, hle⟩)
  · exact .inr (abbreviates_iff.mpr ⟨ht.1, hle⟩)

/-- **The order of abbreviations.**  Bytes open with those of a text exactly where characters do: no
character is mistaken for the beginning of another one.  So a text abbreviates the names that begin with
its characters, unless it is empty.  On texts that are not empty that is an order, and what abbreviates
one name is comparable. -/
theorem abbreviates_order :
    (∀ c d : Char, String.utf8EncodeChar c <+: String.utf8EncodeChar d → c = d) ∧
    (∀ s t : String, encode s <+: encode t ↔ s.toList <+: t.toList) ∧
    (∀ typed name : String, abbreviates typed name = true ↔
      typed ≠ "" ∧ typed.toList <+: name.toList) ∧
    (∀ word : String, word ≠ "" → abbreviates word word = true) ∧
    (∀ s t u : String, abbreviates s t = true → abbreviates t u = true → abbreviates s u = true) ∧
    (∀ s t : String, abbreviates s t = true → abbreviates t s = true → s = t) ∧
    ∀ s t name : String, abbreviates s name = true → abbreviates t name = true →
      abbreviates s t = true ∨ abbreviates t s = true := by
  refine ⟨fun c d => eq_of_utf8EncodeChar_isPrefix, fun s t => encode_isPrefix_encode_iff,
    fun typed name => abbreviates_iff, fun word => abbreviates_self_iff.mpr, ?_, ?_, ?_⟩
  · intro s t u
    exact abbreviates_trans
  · intro s t
    exact abbreviates_antisymm
  · intro s t name
    exact abbreviates_or_abbreviates

/-- Two characters that share their first byte are told apart, whatever follows them. -/
theorem abbreviates_order_accents :
    abbreviates "é" "état" = true ∧ abbreviates "ét" "état" = true ∧
      (abbreviates "é" "ét" = true ∨ abbreviates "ét" "é" = true) ∧
      abbreviates "è" "état" = false := by
  obtain ⟨-, -, -, -, -, -, hcomparable⟩ := abbreviates_order
  have hone : abbreviates "é" "état" = true := by decide
  have htwo : abbreviates "ét" "état" = true := by decide
  exact ⟨hone, htwo, hcomparable "é" "ét" "état" hone htwo, by decide⟩

end SerialConsole.Text
