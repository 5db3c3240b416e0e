import SerialConsole.Proofs.Console.Frames
import SerialConsole.Proofs.Console.Replay

/-!
# Single keys

A stray key is not meant to replace the last command.  The memory measures a line in bytes, though, so
what becomes of a line of one character depends on how many bytes its encoding has:

    the character is     its encoding has     the last command afterwards
    ASCII                one byte             is what it was
    any other            two to four bytes    is the character

So a blank line after a stray key repeats the last command if the key is an ASCII one, and the key if it
is not.
-/

namespace SerialConsole

open Settings Text

namespace Text

theorem encode_singleton (ch : Char) :
    encode (String.singleton ch) = String.utf8EncodeChar ch := by
  rw [encode, String.toList_singleton, List.flatMap_singleton]

theorem length_encode_singleton (ch : Char) :
    (encode (String.singleton ch)).length = ch.utf8Size := by
  rw [encode_singleton, String.length_utf8EncodeChar]

end Text

/-- A character is a line to remember exactly if it is not an ASCII one. -/
theorem memorable_singleton_iff (ch : Char) :
    Memorable (String.singleton ch) ↔ 128 ≤ ch.toNat := by
  have hlong : 1 < (encode (String.singleton ch)).length ↔ 128 ≤ ch.toNat := by
    have hpos := ch.utf8Size_pos
    have hone : ch.utf8Size = 1 ↔ ch.toNat ≤ 127 := ch.utf8Size_eq_one_iff
    rw [length_encode_singleton]
    omega
  rw [Memorable, hlong]
  refine ⟨fun h => h.2.2, fun hwide => ⟨?_, ?_, hwide⟩⟩
  · exact fun hempty => absurd (congrArg String.toList hempty) (by simp)
  · rw [String.toList_singleton, List.head?_cons]
    rintro h
    cases h
    exact absurd hwide (by decide)

/-- After a character that is not an ASCII one the memory shows just that character. -/
theorem LastCommand.get?_hear_singleton (m : LastCommand) {ch : Char} (hwide : 128 ≤ ch.toNat) :
    (m.hear (String.singleton ch)).get? = some (String.singleton ch) := by
  obtain ⟨l, hshows⟩ := m.hear_of_memorable ((memorable_singleton_iff ch).mpr hwide)
  have hfits : (encode (String.singleton ch)).length ≤ maxChars := by
    have hfour := ch.utf8Size_le_four
    have hmax : maxChars = 99 := rfl
    rw [length_encode_singleton]
    omega
  rw [hshows.get?, hshows.cut.eq_of_length_le hfits]

namespace Console

variable {H : Type}

/-- The last command is what it was, and a blank line repeats it. -/
structure KeepsLast (c after : Console H) : Prop where
  memory : after.lastCommand = c.lastCommand
  replays : ∀ l, c.last? = some l → ∀ service, after.answer service "" = after.answer service l

/-- The last command is the line now, and a blank line repeats that. -/
structure TakesOver (after : Console H) (line : String) : Prop where
  last? : after.last? = some line
  replays : ∀ service, after.answer service "" = after.answer service line

theorem lastCommand_answer_singleton_of_ascii (service : Service H) (c : Console H) {ch : Char}
    (hascii : ch.toNat < 128) :
    (c.answer service (String.singleton ch)).console.lastCommand = c.lastCommand := by
  rw [lastCommand_answer]
  apply LastCommand.hear_of_not_memorable
  rw [memorable_singleton_iff]
  omega

theorem last?_answer_singleton_of_wide (service : Service H) (c : Console H) {ch : Char}
    (hwide : 128 ≤ ch.toNat) :
    (c.answer service (String.singleton ch)).console.last? = some (String.singleton ch) := by
  rw [last?, lastCommand_answer, LastCommand.get?_hear_singleton _ hwide]

/-- **The law of single keys.**  A line of one ASCII character, whatever it does, leaves the last
command as it is, and a blank line after it repeats that command.  A line of any other character becomes
the last command itself, and a blank line repeats the character.  So a key leaves the last command alone
exactly if it is an ASCII one, or was the last command before. -/
theorem single_key_law (service : Service H) {c : Console H} (hc : c.Reachable) (ch : Char) :
    (ch.toNat < 128 → KeepsLast c (c.answer service (String.singleton ch)).console) ∧
    (128 ≤ ch.toNat →
      TakesOver (c.answer service (String.singleton ch)).console (String.singleton ch)) ∧
    ((c.answer service (String.singleton ch)).console.last? = c.last? ↔
      ch.toNat < 128 ∨ c.last? = some (String.singleton ch)) := by
  have hafter : (c.answer service (String.singleton ch)).console.Reachable :=
    hc.after (.answer service (String.singleton ch))
  refine ⟨fun hascii => ?_, fun hwide => ?_, ?_⟩
  · have hmemory := lastCommand_answer_singleton_of_ascii service c hascii
    refine ⟨hmemory, fun l hlast service' => ?_⟩
    rw [last?, ← hmemory] at hlast
    exact (hafter.answer_blank_of_some service' hlast).1
  · have hlast := last?_answer_singleton_of_wide service c hwide
    exact ⟨hlast, fun service' => (hafter.answer_blank_of_some service' hlast).1⟩
  · by_cases hascii : ch.toNat < 128
    · have hsame : (c.answer service (String.singleton ch)).console.last? = c.last? :=
        congrArg LastCommand.get? (lastCommand_answer_singleton_of_ascii service c hascii)
      exact ⟨fun _ => .inl hascii, fun _ => hsame⟩
    · rw [last?_answer_singleton_of_wide service c (Nat.not_lt.mp hascii), or_iff_right hascii,
        eq_comm]

/-- After `temp on` a stray `t` is forgotten, and a stray `°` is not. -/
theorem single_key_law_degree :
    let service : Service Unit := fun _ _ line => .ok line
    let c := (fresh .fresh).afterAll [.register "temp" () "", .answer service "temp on"]
    KeepsLast c (c.answer service (String.singleton 't')).console ∧
      TakesOver (c.answer service (String.singleton '°')).console (String.singleton '°') := by
  intro service c
  have hc : c.Reachable := ⟨_, rfl⟩
  exact ⟨(single_key_law service hc 't').1 (by decide),
    (single_key_law service hc '°').2.1 (by decide)⟩

/-- A key that takes two bytes replaces the last command. -/
theorem single_key_replaces_last :
    let service : Service Unit := fun _ _ line => .ok line
    let c := (fresh .fresh).afterAll [.answer service "help"]
    c.last? = some "help" ∧ "é".length = 1 ∧ (c.answer service "é").console.last? = some "é" := by
  decide +kernel

end Console

end SerialConsole
