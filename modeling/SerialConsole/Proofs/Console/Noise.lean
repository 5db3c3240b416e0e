import SerialConsole.Proofs.Console.Rounds
import SerialConsole.Proofs.Handoff.Wakeup

/-!
# Noise

A serial line that is not driven well delivers bytes at random.  If a byte that is not ASCII stands in
the first word of a line, then the first word of its text has a character that no name of plain
characters has, whether the bytes are a text or not:

    the bytes are a text       that byte belongs to a character that is not ASCII
    they are none              a question mark is shown for that byte

So as long as all names are plain, such a line leads to no command.  It does not reset the board
either, and it is not blank, so it repeats nothing: it is reported, with as many bytes as there were.
-/

namespace SerialConsole

open Settings

namespace Text

/-- All characters are ASCII, and none is the one that is shown for a byte that is no text. -/
def Plain (s : String) : Prop := ∀ ch ∈ s.toList, ch.toNat < 128 ∧ ch ≠ '?'

instance (s : String) : Decidable (Plain s) := List.decidableBAll _ _

/-- A byte that is not ASCII stands before the first space or tab. -/
def Noisy (bs : Bytes) : Prop :=
  ∃ before b after, bs = before ++ b :: after ∧ 0x80 ≤ b ∧ ∀ x ∈ before, x ≠ 0x20 ∧ x ≠ 0x09

/-- A byte of plain characters. -/
def IsPlainByte (b : UInt8) : Prop := b < 0x80 ∧ b ≠ 0x3f

instance (b : UInt8) : Decidable (IsPlainByte b) := inferInstanceAs (Decidable (_ ∧ _))

theorem isPlainByte_of_mem_encode {s : String} (hs : Plain s) {b : UInt8} (hb : b ∈ encode s) :
    IsPlainByte b := by
  obtain ⟨ch, hch, hb⟩ := List.mem_flatMap.mp hb
  obtain ⟨hascii, hne⟩ := hs ch hch
  rw [utf8EncodeChar_of_ascii hascii, List.mem_singleton] at hb
  subst hb
  have hnat : (UInt8.ofNat ch.toNat).toNat = ch.toNat := by
    rw [UInt8.toNat_ofNat']
    omega
  refine ⟨?_, fun hq => hne ?_⟩
  · rw [UInt8.lt_iff_toNat_lt, hnat]
    exact hascii
  · have hchar : ch.toNat = 63 := by
      rw [← hnat, hq]
      rfl
    rw [← Char.ofNat_toNat ch, hchar]

/-- What follows the first word of a line is nothing, or starts with the byte of a blank. -/
theorem FirstWord.encode_ends {line word : String} (h : FirstWord line word) :
    ∃ rest, encode line = encode word ++ rest ∧
      ∀ x, rest.head? = some x → x = 0x20 ∨ x = 0x09 := by
  obtain ⟨rest, hline, hblank⟩ := h.ends
  refine ⟨rest.flatMap String.utf8EncodeChar, ?_, ?_⟩
  · rw [encode, encode, hline, List.flatMap_append]
  · intro x hx
    cases rest with
    | nil => cases hx
    | cons ch cs =>
      rcases isBlank_iff.mp (hblank ch rfl) with rfl | rfl
      · cases hx
        exact .inl rfl
      · cases hx
        exact .inr rfl

/-- A byte that is not plain, and stands before all blanks, is one of the first word. -/
theorem FirstWord.not_plain {line word : String} (h : FirstWord line word) {before after : Bytes}
    {b : UInt8} (hline : encode line = before ++ b :: after)
    (hbefore : ∀ x ∈ before, x ≠ 0x20 ∧ x ≠ 0x09) (hb : ¬ IsPlainByte b) : ¬ Plain word := by
  intro hplain
  obtain ⟨rest, hrest, hblank⟩ := h.encode_ends
  -- the byte of a blank would be plain, and stands nowhere before `b`
  have hnot : ∀ x xs, b :: after = x :: xs → rest ≠ x :: xs := by
    rintro x xs hcons rfl
    cases hcons
    rcases hblank b rfl with rfl | rfl
    · exact hb (by decide)
    · exact hb (by decide)
  rw [hline] at hrest
  rcases List.append_eq_append_iff.mp hrest with ⟨l, hword, htail⟩ | ⟨l, rfl, htail⟩
  · cases l with
    | nil => exact hnot b after rfl htail.symm
    | cons x l =>
      rw [List.cons_append] at htail
      cases htail
      refine hb (isPlainByte_of_mem_encode hplain ?_)
      rw [hword]
      exact List.mem_append_right _ List.mem_cons_self
  · cases l with
    | nil => exact hnot b after rfl htail
    | cons x l =>
      rw [List.cons_append] at htail
      obtain ⟨hspace, htab⟩ := hbefore x (List.mem_append_right _ List.mem_cons_self)
      rcases hblank x (by rw [htail]; rfl) with hx | hx
      · exact hspace hx
      · exact htab hx

theorem Plain.of_isPrefix {s t : String} (ht : Plain t) (h : s.toList <+: t.toList) : Plain s :=
  fun ch hch => ht ch (h.subset hch)

/-- The first word of a noisy line is not plain. -/
theorem Noisy.not_plain {bs : Bytes} (h : Noisy bs) {word : String}
    (hword : FirstWord (legible bs) word) : ¬ Plain word := by
  obtain ⟨before, b, after, rfl, hb, hbefore⟩ := h
  rcases encode_legible (before ++ b :: after) with hbytes | hbytes
  · exact hword.not_plain hbytes hbefore fun hplain => UInt8.not_lt.mpr hb hplain.1
  · rw [List.map_append, List.map_cons] at hbytes
    have hmask : Line.maskByte Console.substitute b = 0x3f := by
      rw [Line.maskByte, isAscii, decide_eq_false (UInt8.not_lt.mpr hb)]
      rfl
    rw [hmask] at hbytes
    refine hword.not_plain hbytes ?_ (by decide)
    intro x hx
    obtain ⟨y, hy, rfl⟩ := List.mem_map.mp hx
    unfold Line.maskByte
    split
    · exact hbefore y hy
    · decide

theorem Noisy.legible_ne_empty {bs : Bytes} (h : Noisy bs) : legible bs ≠ "" := by
  intro hempty
  have hlength := length_encode_legible bs
  obtain ⟨before, b, after, rfl, -, -⟩ := h
  rw [hempty, List.length_append, List.length_cons] at hlength
  exact absurd hlength.symm (Nat.succ_ne_zero _)

/-- The text of a line starts with a hash sign only if its bytes do. -/
theorem head?_of_head?_legible {bs : Bytes} (h : (legible bs).toList.head? = some '#') :
    bs.head? = some 0x23 := by
  have hhead : (encode (legible bs)).head? = some 0x23 := by
    obtain ⟨rest, hrest⟩ := List.head?_eq_some_iff.mp h
    rw [encode, hrest]
    rfl
  rcases encode_legible bs with hbytes | hbytes
  · rw [hbytes] at hhead
    exact hhead
  · rw [hbytes, List.head?_map] at hhead
    obtain ⟨x, hx, hmask⟩ := Option.map_eq_some_iff.mp hhead
    unfold Line.maskByte at hmask
    split at hmask
    · rw [hx, hmask]
    · exact absurd hmask (by decide)

end Text

open Text

namespace Console

variable {H : Type}

theorem not_asksForReset_of_not_plain {word : String} (h : ¬ Plain word) :
    ¬ asksForReset word = true := by
  rw [asksForReset, Bool.or_eq_true, beq_iff_eq, abbreviates_iff]
  rintro (rfl | ⟨-, hreset⟩)
  · exact h (by decide)
  · exact h (Plain.of_isPrefix (t := resetWord) (by decide) hreset)

theorem find?_of_not_plain {t : CommandTable H} (hnames : ∀ e ∈ t.commands, Plain e.name)
    {word : String} (h : ¬ Plain word) : t.find? word = none := by
  have hne : word ≠ "" := by
    rintro rfl
    exact h (by decide)
  rw [t.find?_eq_none_iff hne]
  rintro ⟨e, he, hbegins⟩
  exact h ((hnames e he).of_isPrefix hbegins)

/-- The turn turns the bytes of a line down.  Their text is not blank, so nothing is repeated; it is
reported, as many bytes as there were, and the console goes on. -/
structure TurnedDown (c : Console H) (bytes : Bytes) (t : Turn H) : Prop where
  step : t.step = .proceed
  isTyped : legible bytes ≠ ""
  reported : Reported c (legible bytes) t
  length : (encode (legible bytes)).length = bytes.length

/-- **The noise law.**  As long as the names of all commands are plain, a line that is handed out with
a byte beyond ASCII in its first word, and that is no comment, is turned down: no command runs, no
frame is sent, nothing is repeated and the board is not reset. -/
theorem noise_law (service : Service H) {c : Console H}
    (hnames : ∀ e ∈ c.table.commands, Plain e.name) {arrivals : List Batch} {p : Parcel}
    (hp : (c.board.await arrivals).parcel = some p) (hcomment : p.bytes.head? ≠ some 0x23)
    (hnoise : Noisy p.bytes) :
    ∃ t, c.next service arrivals = .served t (c.board.await arrivals).arrivals ∧
      TurnedDown c p.bytes t := by
  refine ⟨_, next_of_parcel service c hp, ?_⟩
  have hlength := length_encode_legible p.bytes
  have hfits : (encode (legible p.bytes)).length ≤ maxChars := by
    rw [hlength]
    exact Board.length_await_le hp
  have hline : (c.handing arrivals p).lineFor (legible p.bytes) = legible p.bytes :=
    lineFor_of_fits _ hnoise.legible_ne_empty hfits
  have hword := firstWord_splitWord (legible p.bytes)
  have hplain := hnoise.not_plain hword
  rcases answer_cases service (c.handing arrivals p) (legible p.bytes) with
    ⟨h, -⟩ | ⟨-, h, -⟩ | ⟨-, -, memory, h⟩
  · exact absurd (head?_of_head?_legible ((LastCommand.isComment_iff _).mp h)) hcomment
  · rw [hline] at h
    exact absurd h (not_asksForReset_of_not_plain hplain)
  · obtain ⟨board, hboard⟩ := c.handing_eq arrivals p
    rw [hline, hboard] at h
    have hreported : Reported { c with board := board } (legible p.bytes) _ :=
      reported_dispatch service _ memory (find?_of_not_plain hnames hplain)
    rw [hboard, h]
    exact ⟨step_dispatch service _ _ _, hnoise.legible_ne_empty,
      ⟨hreported.calls, hreported.frames, hreported.output⟩, hlength⟩

/-- An `h` would be `help`, but with half of a character behind it the line is reported as `h?`. -/
theorem noise_law_split :
    let service : Service Unit := fun _ _ _ => .ok ""
    let c : Console Unit := { fresh .fresh with
      board := (Board.fresh.feedAll .link [0x68, 0xc3, 0x0d]).1 }
    (∀ e ∈ c.table.commands, Plain e.name) ∧ Noisy [0x68, 0xc3] ∧
      ∃ t rest, c.next service [] = .served t rest ∧ t.step = .proceed ∧ Reported c "h?" t := by
  intro service c
  have hnames : ∀ e ∈ c.table.commands, Plain e.name := by decide
  have hnoise : Noisy [0x68, 0xc3] :=
    ⟨[0x68], 0xc3, [], rfl, by decide, List.forall_mem_singleton.mpr (by decide)⟩
  have hp : (c.board.await []).parcel = some ⟨.link, [0x68, 0xc3]⟩ := by
    rw [Handoff.await_nil]
    decide +kernel
  have htext : legible [0x68, 0xc3] = "h?" := by decide +kernel
  obtain ⟨t, hnext, hdown⟩ := noise_law service hnames hp (by decide) hnoise
  refine ⟨hnames, hnoise, t, _, hnext, hdown.step, ?_⟩
  rw [← htext]
  exact hdown.reported

end Console

end SerialConsole
