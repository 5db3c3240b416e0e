import SerialConsole.Proofs.Text.Fitting
import SerialConsole.Proofs.Text.Legible
import SerialConsole.Text.Column

/-!
# Line breaks

A text is well broken if each of its line feeds stands right behind a carriage return.  Texts that are
well broken can be put together.  A line feed behind any other byte cannot be mended from outside:

    WellBroken s → WellBroken t → WellBroken (s ++ t)        (WellBroken.append)
    Bare s → Bare (t ++ s) ∧ Bare (s ++ t)                   (Bare.prepend, Bare.append)
    Bare s → ¬ WellBroken s                                  (Bare.not_wellBroken)

Numerals and the cells of a column have no line feed of their own.
-/

namespace SerialConsole.Text

open Settings
open Receiver (carriageReturn lineFeed)

/-- Every line feed stands right behind a carriage return. -/
def WellBroken (s : String) : Prop :=
  ∀ before after, encode s = before ++ lineFeed :: after → before.getLast? = some carriageReturn

/-- A line feed stands behind a byte that is no carriage return. -/
def Bare (s : String) : Prop :=
  ∃ before b after, encode s = before ++ b :: lineFeed :: after ∧ b ≠ carriageReturn

/-- The text has no line feed. -/
def Unbroken (s : String) : Prop := lineFeed ∉ encode s

instance (s : String) : Decidable (Unbroken s) := inferInstanceAs (Decidable (¬ _))

/-! ## Texts without line feeds -/

theorem unbroken_iff {s : String} : Unbroken s ↔ lineFeed ∉ encode s := Iff.rfl

theorem Unbroken.append {s t : String} (hs : Unbroken s) (ht : Unbroken t) : Unbroken (s ++ t) := by
  rw [unbroken_iff, encode_append, List.mem_append]
  exact fun hmem => hmem.elim hs ht

/-- A cell of a column is as unbroken as its text. -/
theorem Unbroken.alignLeft {s : String} (hs : Unbroken s) (width : Nat) :
    Unbroken (alignLeft width s) := by
  rw [unbroken_iff, encode, Text.alignLeft, String.toList_ofList, List.flatMap_append,
    List.mem_append]
  rintro (hmem | hmem)
  · exact hs hmem
  · obtain ⟨ch, hch, hmem⟩ := List.mem_flatMap.mp hmem
    rw [List.eq_of_mem_replicate hch] at hmem
    exact absurd hmem (by decide)

/-- The bytes of a numeral are those of digits. -/
theorem le_of_mem_encode_toString {n : Nat} {b : UInt8} (hb : b ∈ encode (toString n)) :
    0x30 ≤ b := by
  rw [Nat.toString_eq_ofList_toDigits, encode, String.toList_ofList] at hb
  obtain ⟨ch, hch, hb⟩ := List.mem_flatMap.mp hb
  have hdigit := Nat.isDigit_of_mem_toDigits (by decide) (by decide) hch
  rw [Char.isDigit_iff_toNat] at hdigit
  obtain ⟨hlow, hhigh⟩ := hdigit
  rw [utf8EncodeChar_of_ascii (Nat.lt_of_le_of_lt hhigh (by decide)), List.mem_singleton] at hb
  rw [hb, UInt8.le_iff_toNat_le, UInt8.toNat_ofNat', Nat.mod_eq_of_lt]
  · exact hlow
  · exact Nat.lt_of_le_of_lt hhigh (by decide)

theorem unbroken_toString (n : Nat) : Unbroken (toString n) :=
  fun hmem => absurd (le_of_mem_encode_toString hmem) (by decide)

/-! ## Well-broken texts -/

theorem Unbroken.wellBroken {s : String} (hs : Unbroken s) : WellBroken s := by
  intro before after hsplit
  refine absurd ?_ hs
  rw [hsplit]
  exact List.mem_append_right _ List.mem_cons_self

theorem WellBroken.append {s t : String} (hs : WellBroken s) (ht : WellBroken t) :
    WellBroken (s ++ t) := by
  intro before after hsplit
  rw [encode_append] at hsplit
  rcases List.append_eq_append_iff.mp hsplit with ⟨l, rfl, hleft⟩ | ⟨l, hleft, hright⟩
  · rw [List.getLast?_append, ht l after hleft]
    rfl
  · cases l with
    | nil =>
      -- the line feed is the first byte of `t`, where no carriage return can stand before it
      rw [List.nil_append] at hright
      exact absurd (ht [] after hright.symm) (by decide)
    | cons b l =>
      rw [List.cons_append] at hright
      cases hright
      exact hs before l hleft

theorem wellBroken_newline : WellBroken newline := by
  intro before after hsplit
  have hbytes : encode newline = [carriageReturn, lineFeed] := rfl
  rw [hbytes] at hsplit
  rcases before with _ | ⟨b, _ | ⟨b', before⟩⟩
  · cases hsplit
  · cases hsplit
    rfl
  · have hnil : [] = before ++ lineFeed :: after := (List.cons.inj (List.cons.inj hsplit).2).2
    exact absurd hnil.symm (List.append_ne_nil_of_right_ne_nil before (List.cons_ne_nil _ _))

theorem wellBroken_join {l : List String} (h : ∀ s ∈ l, WellBroken s) :
    WellBroken (String.join l) := by
  induction l with
  | nil =>
    rw [String.join_nil]
    exact Unbroken.wellBroken (by decide)
  | cons s l ih =>
    rw [String.join_cons]
    obtain ⟨hs, hl⟩ := List.forall_mem_cons.mp h
    exact hs.append (ih hl)

/-! ## Bare line feeds -/

theorem Bare.not_wellBroken {s : String} (hs : Bare s) : ¬ WellBroken s := by
  obtain ⟨before, b, after, hsplit, hb⟩ := hs
  intro h
  have hlast := h (before ++ [b]) after (by rw [hsplit, List.append_assoc]; rfl)
  rw [List.getLast?_append, List.getLast?_singleton] at hlast
  exact hb (Option.some_inj.mp hlast)

theorem Bare.append {s : String} (hs : Bare s) (t : String) : Bare (s ++ t) := by
  obtain ⟨before, b, after, hsplit, hb⟩ := hs
  refine ⟨before, b, after ++ encode t, ?_, hb⟩
  rw [encode_append, hsplit, List.append_assoc]
  rfl

theorem Bare.prepend {s : String} (hs : Bare s) (t : String) : Bare (t ++ s) := by
  obtain ⟨before, b, after, hsplit, hb⟩ := hs
  refine ⟨encode t ++ before, b, after, ?_, hb⟩
  rw [encode_append, hsplit, List.append_assoc]

theorem bare_join {l : List String} {s : String} (hmem : s ∈ l) (hs : Bare s) :
    Bare (String.join l) := by
  obtain ⟨before, after, rfl⟩ := List.append_of_mem hmem
  rw [String.join_append, String.join_cons]
  exact (hs.append _).prepend _

/-- A line feed alone does not end a text well, unless a carriage return is there already. -/
theorem bare_lineFeed {s : String} {b : UInt8} (hlast : (encode s).getLast? = some b)
    (hb : b ≠ carriageReturn) : Bare (s ++ "\n") := by
  obtain ⟨before, hsplit⟩ := List.getLast?_eq_some_iff.mp hlast
  refine ⟨before, b, [], ?_, hb⟩
  rw [encode_append, hsplit, List.append_assoc]
  rfl

end SerialConsole.Text
