import SerialConsole.Proofs.Text.WellFormed

/-!
# The text of a line

A line shows the longest text that its bytes open with, and what follows a byte that fits nowhere is not
shown.  Masking a line brings all of it back, at the price of the characters that are not ASCII ones:

    the bytes are        masking                               the text afterwards
    well formed          changes nothing                       stands for all bytes
    not well formed      puts the mask for all from 80 on      stands for all bytes

So a line is masked at most once.  The mask has to be an ASCII byte itself.
-/

namespace SerialConsole

open Settings Text

namespace Text

/-- The bytes open with the text, and with no longer well-formed bytes. -/
structure LongestText (bs : Bytes) (s : String) : Prop where
  isPrefix : encode s <+: bs
  longest : ∀ vs, WellFormed vs → vs <+: bs → vs <+: encode s

theorem longestText_opening (bs : Bytes) : LongestText bs (opening bs) := by
  refine ⟨isPrefix_encode_opening bs, fun vs hvs hle => ?_⟩
  obtain ⟨t, rfl⟩ := exists_encode hvs
  exact encode_isPrefix_encode (encode_isPrefix_iff.mp hle)

theorem ofBytes?_eq_none_iff {bs : Bytes} : ofBytes? bs = none ↔ ¬ WellFormed bs := by
  rw [wellFormed_iff, Option.eq_none_iff_forall_not_mem, not_exists]
  exact forall_congr' fun s => not_congr ofBytes?_eq_some_iff

/-- ASCII bytes are well formed, whatever their order. -/
theorem wellFormed_of_ascii {bs : Bytes} (h : ∀ b ∈ bs, b < 0x80) : WellFormed bs := by
  induction bs with
  | nil => exact .nil
  | cons b bs ih =>
    obtain ⟨hb, hbs⟩ := List.forall_mem_cons.mp h
    have hone : b.toNat ≤ 0x7F := Nat.le_of_lt_succ hb
    exact .cons (.one hone) (ih hbs)

end Text

namespace Line

/-- Masks the line if its bytes are no text, and tells whether it did. -/
def mask (l : Line) (w : UInt8) : Line × Bool :=
  match l.masked? w with
  | some m => (m, true)
  | none => (l, false)

theorem mask_of_wellFormed {l : Line} (h : WellFormed l.bytes) (w : UInt8) :
    l.mask w = (l, false) := by
  obtain ⟨s, hs⟩ := exists_encode h
  rw [mask, masked?, ofBytes?_eq_some_iff.mpr hs]

theorem mask_of_not_wellFormed {l : Line} (h : ¬ WellFormed l.bytes) (w : UInt8) :
    l.mask w = (l.mapUsed (maskByte w), true) := by
  rw [mask, masked?, ofBytes?_eq_none_iff.mpr h]

theorem snd_mask_iff (l : Line) (w : UInt8) : (l.mask w).2 = true ↔ ¬ WellFormed l.bytes := by
  by_cases h : WellFormed l.bytes
  · rw [mask_of_wellFormed h]
    exact ⟨fun hmasked => (nomatch hmasked), fun hnot => absurd h hnot⟩
  · rw [mask_of_not_wellFormed h]
    exact ⟨fun _ => h, fun _ => rfl⟩

theorem maskByte_eq (w b : UInt8) : maskByte w b = if 0x80 ≤ b then w else b := by
  unfold maskByte isAscii
  by_cases hb : b < 0x80
  · rw [if_pos (decide_eq_true hb), if_neg (UInt8.not_le.mpr hb)]
  · rw [if_neg (fun h => hb (of_decide_eq_true h)), if_pos (UInt8.not_lt.mp hb)]

theorem maskByte_lt {w : UInt8} (hw : w < 0x80) (b : UInt8) : maskByte w b < 0x80 := by
  rw [maskByte_eq]
  by_cases hb : 0x80 ≤ b
  · rwa [if_pos hb]
  · rw [if_neg hb]
    exact UInt8.not_le.mp hb

/-- The second line is the first one with a mask for every byte that is not ASCII. -/
structure Masked (w : UInt8) (l m : Line) : Prop where
  bytes : m.bytes = l.bytes.map fun b => if 0x80 ≤ b then w else b
  used : m.used = l.used
  /-- The cells that are not in use are what they were. -/
  behind : ∀ i (h : i < maxChars + 1), l.used ≤ i → m.cells[i] = l.cells[i]
  wellFormed : WellFormed m.bytes
  /-- Nothing of the line is hidden any more. -/
  whole : encode m.text = m.bytes
  /-- Masking once is enough, whatever the next mask is. -/
  again : ∀ w', m.mask w' = (m, false)

theorem masked_mapUsed {w : UInt8} (hw : w < 0x80) (l : Line) :
    Masked w l (l.mapUsed (maskByte w)) := by
  have hbytes : (l.mapUsed (maskByte w)).bytes = l.bytes.map (maskByte w) := Row.bytes_mapUsed _ l
  have hwell : WellFormed (l.mapUsed (maskByte w)).bytes := by
    rw [hbytes]
    apply wellFormed_of_ascii
    intro b hb
    obtain ⟨b', -, rfl⟩ := List.mem_map.mp hb
    exact maskByte_lt hw b'
  refine ⟨?_, rfl, ?_, hwell, encode_opening_iff.mpr hwell, mask_of_wellFormed hwell⟩
  · rw [hbytes]
    exact List.map_congr_left fun b _ => maskByte_eq w b
  · intro i h hbehind
    simp only [Row.mapUsed, Vector.getElem_mapIdx]
    exact if_neg (Nat.not_lt.mpr hbehind)

/-- **The law of texts.**  A line shows the longest well-formed bytes that it opens with, and after a text
was put into it the whole characters of the text that fit.  Masking it with an ASCII byte changes it
exactly if its bytes are not well formed; then every byte from 80 on becomes the mask and no other byte
changes, and the line shows all of its bytes from then on.  Otherwise masking leaves the line as it is. -/
theorem text_law (l : Line) :
    LongestText l.bytes l.text ∧
    (∀ s, LongestFit maxChars s (l.assignText s).text) ∧
    ∀ w, w < 0x80 →
      ((l.mask w).2 = true ↔ ¬ WellFormed l.bytes) ∧
      ((l.mask w).2 = true → Masked w l (l.mask w).1) ∧
      ((l.mask w).2 = false → (l.mask w).1 = l) := by
  refine ⟨longestText_opening l.bytes, longestFit_assignText l, fun w hw => ?_⟩
  refine ⟨snd_mask_iff l w, fun hmasked => ?_, fun hsame => ?_⟩
  · rw [mask_of_not_wellFormed ((snd_mask_iff l w).mp hmasked)]
    exact masked_mapUsed hw l
  · have hwell : WellFormed l.bytes := by
      refine Decidable.byContradiction fun hnot => ?_
      rw [(snd_mask_iff l w).mpr hnot] at hsame
      cases hsame
    rw [mask_of_wellFormed hwell]

/-- A surrogate between two letters hides the second one, and three masks bring it back. -/
theorem text_law_surrogate :
    let l := Line.ofBytes [0x61, 0xED, 0xA0, 0x80, 0x62]
    l.text = "a" ∧ (l.mask 0x3F).2 = true ∧ Masked 0x3F l (l.mask 0x3F).1 ∧
      (l.mask 0x3F).1.text = "a???b" := by
  intro l
  have hmasked : (l.mask 0x3F).2 = true := by decide +kernel
  obtain ⟨-, -, hmask⟩ := text_law l
  obtain ⟨-, hlaw, -⟩ := hmask 0x3F (by decide)
  refine ⟨by decide +kernel, hmasked, hlaw hmasked, by decide +kernel⟩

end Line

end SerialConsole
