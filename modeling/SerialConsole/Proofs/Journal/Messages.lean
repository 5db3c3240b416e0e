import SerialConsole.Proofs.Journal.Reports
import SerialConsole.Proofs.Text.Assembling
import SerialConsole.Proofs.Text.Words

/-!
# What an entry shows of its message

A message is put together from parts, and an entry has room for its first `maxMessage` bytes.  Where
the parts meet does not matter, but the cut is made between bytes and not between characters.  If it
falls inside a character the bytes that were kept are no text, and the entry shows a remark in place of
all of them:

    the message has                            its entry shows
    at most maxMessage bytes                   the message
    more, and a character ends at the cut      the first maxMessage bytes of it
    more, and the cut is inside a character    <invalid utf8>

So the text of an entry is a beginning of the message exactly if the message was not torn.
-/

namespace SerialConsole

open Settings

namespace Text

theorem toList_isPrefix_append (s t : String) : s.toList <+: (s ++ t).toList := by
  rw [String.toList_append]
  exact List.prefix_append _ _

/-- The first bytes of a text are a text exactly if a character ends there, or the text does. -/
theorem ofBytes?_take_eq_some_iff {n : Nat} {s t : String} :
    ofBytes? ((encode s).take n) = some t ↔
      t.toList <+: s.toList ∧ (encode t).length = min n (encode s).length := by
  rw [ofBytes?_eq_some_iff]
  constructor
  · intro h
    refine ⟨encode_isPrefix_encode_iff.mp ?_, ?_⟩
    · rw [h]
      exact List.take_prefix n _
    · rw [h, List.length_take]
  · rintro ⟨hbegins, hlength⟩
    have htake := List.prefix_iff_eq_take.mp (encode_isPrefix_encode_iff.mpr hbegins)
    rw [htake, hlength]
    rcases Nat.le_total n (encode s).length with hle | hle
    · rw [Nat.min_eq_left hle]
    · rw [Nat.min_eq_right hle, List.take_length, List.take_of_length_le hle]

end Text

namespace Journal

open Text

/-! ## Cut messages -/

/-- A character of the message begins before the cut and ends behind it. -/
def Torn (s : String) : Prop :=
  ∃ before ch after, s = before ++ String.singleton ch ++ after ∧
    (encode before).length < maxMessage ∧
    maxMessage < (encode (before ++ String.singleton ch)).length

/-- The text is a beginning of the message, and as much of it as there is room for. -/
structure Shows (s t : String) : Prop where
  isPrefix : t.toList <+: s.toList
  length : (encode t).length = min maxMessage (encode s).length

/-- What stands for a message in a journal. -/
structure Excerpt (s t : String) : Prop where
  whole : (encode s).length ≤ maxMessage → t = s
  shows_iff : Shows s t ↔ ¬ Torn s
  remark : Torn s → t = "<invalid utf8>"

/-- No beginning of a torn message ends at the cut. -/
theorem Torn.length_ne {s : String} (h : Torn s) {t : String} (ht : t.toList <+: s.toList) :
    (encode t).length ≠ maxMessage := by
  obtain ⟨before, ch, after, rfl, hbefore, hbehind⟩ := h
  have hstart := toList_isPrefix_append (before ++ String.singleton ch) after
  rcases List.prefix_or_prefix_of_prefix ht hstart with hle | hge
  · rw [String.toList_append, String.toList_singleton, List.prefix_concat_iff] at hle
    rcases hle with heq | hle
    · have hsame : t = before ++ String.singleton ch := String.toList_inj.mp (by
        rw [heq, String.toList_append, String.toList_singleton])
      rw [hsame]
      omega
    · have hshort := (encode_isPrefix_encode hle).length_le
      omega
  · have hlong := (encode_isPrefix_encode hge).length_le
    omega

/-- A message that is too long is torn, unless a beginning of it ends at the cut. -/
theorem torn_of_forall_ne {s : String} (hlong : maxMessage < (encode s).length)
    (h : ∀ t : String, t.toList <+: s.toList → (encode t).length ≠ maxMessage) : Torn s := by
  -- the longest beginning that fits ends before the cut, and the next character behind it
  have hfit := longestFit_opening_take maxMessage s
  generalize opening ((encode s).take maxMessage) = t at hfit
  have hlt : (encode t).length < maxMessage := Nat.lt_of_le_of_ne hfit.fits (h t hfit.isPrefix)
  obtain ⟨rest, hrest⟩ := hfit.isPrefix
  cases rest with
  | nil =>
    rw [List.append_nil] at hrest
    rw [String.toList_inj.mp hrest] at hlt
    omega
  | cons ch after =>
    have hsplit : s = t ++ String.singleton ch ++ String.ofList after := by
      apply String.toList_inj.mp
      rw [← hrest, String.toList_append, String.toList_append, String.toList_singleton,
        String.toList_ofList, List.append_assoc, List.singleton_append]
    refine ⟨t, ch, String.ofList after, hsplit, hlt, Nat.lt_of_not_le fun hfits => ?_⟩
    have hlonger := (hfit.longest (t ++ String.singleton ch) ?_ hfits).length_le
    · rw [String.toList_append, List.length_append, String.toList_singleton,
        List.length_singleton] at hlonger
      omega
    · rw [hsplit]
      exact toList_isPrefix_append _ _

/-- A message is torn exactly if the bytes that are kept of it are no text. -/
theorem torn_iff {s : String} : Torn s ↔ ofBytes? ((encode s).take maxMessage) = none := by
  rw [Option.eq_none_iff_forall_ne_some]
  constructor
  · intro htorn t hkept
    obtain ⟨hbegins, hlength⟩ := ofBytes?_take_eq_some_iff.mp hkept
    have hne := htorn.length_ne hbegins
    obtain ⟨before, ch, after, rfl, -, hbehind⟩ := htorn
    rw [encode_append (before ++ String.singleton ch), List.length_append] at hlength
    omega
  · intro hnone
    have hlong : maxMessage < (encode s).length := by
      refine Nat.lt_of_not_le fun hfits => hnone s (ofBytes?_take_eq_some_iff.mpr ?_)
      exact ⟨List.prefix_refl _, (Nat.min_eq_right hfits).symm⟩
    refine torn_of_forall_ne hlong fun t hbegins hlength => hnone t ?_
    refine ofBytes?_take_eq_some_iff.mpr ⟨hbegins, ?_⟩
    rw [hlength, Nat.min_eq_left (Nat.le_of_lt hlong)]

/-- A message that fits is shown whole. -/
theorem Shows.eq_of_fits {s t : String} (h : Shows s t) (hfits : (encode s).length ≤ maxMessage) :
    t = s := by
  have hlength := h.length
  rw [Nat.min_eq_right hfits] at hlength
  have hbytes := (encode_isPrefix_encode_iff.mpr h.isPrefix).eq_of_length hlength
  rw [← opening_encode t, hbytes, opening_encode]

theorem excerpt_getD (s : String) :
    Excerpt s ((ofBytes? ((encode s).take maxMessage)).getD "<invalid utf8>") := by
  cases hkept : ofBytes? ((encode s).take maxMessage) with
  | some t =>
    obtain ⟨hbegins, hlength⟩ := ofBytes?_take_eq_some_iff.mp hkept
    have hshows : Shows s t := ⟨hbegins, hlength⟩
    have hnot : ¬ Torn s := by
      rw [torn_iff, hkept]
      exact Option.some_ne_none t
    exact ⟨hshows.eq_of_fits, iff_of_true hshows hnot, fun htorn => absurd htorn hnot⟩
  | none =>
    have htorn : Torn s := torn_iff.mpr hkept
    refine ⟨fun hfits => ?_, iff_of_false (fun hshows => ?_) (not_not_intro htorn), fun _ => rfl⟩
    · rw [List.take_of_length_le hfits, ofBytes?_eq_some_iff.mpr rfl] at hkept
      cases hkept
    · rw [ofBytes?_take_eq_some_iff.mpr ⟨hshows.isPrefix, hshows.length⟩] at hkept
      cases hkept

/-! ## Entries -/

/-- A message is the first bytes of its parts, one after the other. -/
theorem message_eq (parts : List String) :
    Scratch.message maxMessage parts = (encode (String.join parts)).take maxMessage := by
  rw [Scratch.message, Scratch.bytes_assemble, encode_join]

theorem excerpt_made (stamp : Int) (level : Level) (tag : String) (parts : List String) :
    Excerpt (String.join parts)
      (Record.made stamp level tag (Scratch.message maxMessage parts)).text := by
  have htext : (Record.made stamp level tag (Scratch.message maxMessage parts)).text =
      (ofBytes? ((encode (String.join parts)).take maxMessage)).getD "<invalid utf8>" := by
    rw [Record.made, message_eq, List.take_take, Nat.min_self]
  rw [htext]
  exact excerpt_getD _

variable {size : Nat} [HasSlots size]

/-- An entry that is added is the last one to be taken, behind all that were there. -/
theorem drainAll_push (h : RingSize size) {j : Journal size} (hroom : j.pending.toNat < size)
    (stamp : Int) (level : Level) (tag : String) (message : Bytes) :
    ∃ k before e, j.push stamp level tag message = (k, true) ∧ k.drainAll.1 = before ++ [e] ∧
      before.map Entry.shown = j.drainAll.1.map Entry.shown ∧
      e.shown = Record.made stamp level tag message := by
  obtain ⟨k, hpush, hqueue⟩ := queue_of_room h hroom stamp level tag message
  have hshown : k.drainAll.1.map Entry.shown =
      j.drainAll.1.map Entry.shown ++ [Record.made stamp level tag message] := by
    rw [(drainAll_eq k).1, (drainAll_eq j).1, hqueue]
  obtain ⟨before, last, hsplit, hbefore, hlast⟩ := List.map_eq_append_iff.mp hshown
  obtain ⟨e, rfl, he⟩ := List.map_eq_singleton_iff.mp hlast
  exact ⟨k, before, e, hpush, hsplit, hbefore, he⟩

/-- **The message law.**  A message that finds room in a journal is taken from it behind all that were
there before, with its stamp, level and tag.  Whatever parts it was put together from, it is shown
whole if it fits; if it does not, what is shown is a beginning of it that fills the room there is,
exactly if a character ends there.  Otherwise a remark stands for it, and nothing of it is shown. -/
theorem message_law (h : RingSize size) {j : Journal size} (hroom : j.pending.toNat < size)
    (stamp : Int) (level : Level) (tag : String) (parts : List String) :
    ∃ k before e, j.push stamp level tag (Scratch.message maxMessage parts) = (k, true) ∧
      k.drainAll.1 = before ++ [e] ∧ before.map Entry.shown = j.drainAll.1.map Entry.shown ∧
      e.stamp = stamp ∧ e.level = level ∧ e.tag = tag ∧ Excerpt (String.join parts) e.text := by
  obtain ⟨k, before, e, hpush, hdrain, hbefore, he⟩ :=
    drainAll_push h hroom stamp level tag (Scratch.message maxMessage parts)
  refine ⟨k, before, e, hpush, hdrain, hbefore, congrArg Record.stamp he, congrArg Record.level he,
    congrArg Record.tag he, ?_⟩
  have htext : e.text = (Record.made stamp level tag (Scratch.message maxMessage parts)).text :=
    congrArg Record.text he
  rw [htext]
  exact excerpt_made stamp level tag parts

/-- A message that is cut behind a character is shown up to there. -/
theorem message_law_filled :
    let x := String.ofList (List.replicate 94 'x')
    RingSize 2 ∧ ∃ k before e,
      (empty : Journal 2).push 7 .warn "RX" (Scratch.message maxMessage [x, "é", " and more"]) =
        (k, true) ∧
      k.drainAll.1 = before ++ [e] ∧ e.level = .warn ∧ (encode e.text).length = 96 ∧
      e.text.toList <+: (x ++ "é" ++ " and more").toList := by
  intro x
  have h : RingSize 2 := ⟨⟨1, rfl⟩, by decide⟩
  have hroom : (empty : Journal 2).pending.toNat < 2 := by rw [pending_empty]; decide
  have hjoin : String.join [x, "é", " and more"] = x ++ "é" ++ " and more" := by
    simp only [String.join_cons, String.join_nil, String.append_empty, String.append_assoc]
  have hlength : (encode (x ++ "é")).length = 96 := by
    rw [encode_append, encode, String.toList_ofList]
    decide
  obtain ⟨k, before, e, hpush, hdrain, -, -, hlevel, -, hexcerpt⟩ :=
    message_law h hroom 7 .warn "RX" [x, "é", " and more"]
  rw [hjoin] at hexcerpt
  have hwhole : ¬ Torn (x ++ "é" ++ " and more") :=
    fun htorn => htorn.length_ne (toList_isPrefix_append _ _) hlength
  have hshows := hexcerpt.shows_iff.mpr hwhole
  have hlong : maxMessage ≤ (encode (x ++ "é" ++ " and more")).length := by
    rw [encode_append, List.length_append, hlength]
    exact Nat.le_add_right _ _
  have hshown : (encode e.text).length = 96 := hshows.length.trans (Nat.min_eq_left hlong)
  exact ⟨h, k, before, e, hpush, hdrain, hlevel, hshown, hshows.isPrefix⟩

/-- If the ninety-sixth byte is the first one of a character, the other ninety-five are not shown
either. -/
theorem torn_message_is_hidden :
    let x := String.ofList (List.replicate 95 'x')
    ∃ k e, (empty : Journal 1).push 0 .info "CMD" (Scratch.message maxMessage [x, "é"]) = (k, true) ∧
      k.drainAll.1 = [e] ∧ e.text = "<invalid utf8>" ∧ ¬ e.text.toList <+: (x ++ "é").toList := by
  intro x
  have h : RingSize 1 := ⟨⟨0, rfl⟩, by decide⟩
  have hroom : (empty : Journal 1).pending.toNat < 1 := by rw [pending_empty]; decide
  have hjoin : String.join [x, "é"] = x ++ "é" ++ "" := by
    simp only [String.join_cons, String.join_nil, String.append_empty]
  obtain ⟨k, before, e, hpush, hdrain, hbefore, he⟩ :=
    drainAll_push h hroom 0 .info "CMD" (Scratch.message maxMessage [x, "é"])
  have hnone : (empty : Journal 1).drainAll.1 = [] := by
    rw [← List.length_eq_zero_iff, length_drainAll, queue_empty]
    rfl
  rw [hnone, List.map_nil, List.map_eq_nil_iff] at hbefore
  subst hbefore
  have hlength : (encode x).length = 95 := by
    rw [encode, String.toList_ofList]
    decide
  have hbehind : (encode (x ++ "é")).length = 97 := by
    rw [encode_append, List.length_append, hlength]
    decide
  have htorn : Torn (String.join [x, "é"]) := by
    refine ⟨x, 'é', "", hjoin, ?_, ?_⟩
    · rw [hlength]
      decide
    · show maxMessage < (encode (x ++ "é")).length
      rw [hbehind]
      decide
  have htext : e.text = "<invalid utf8>" :=
    (congrArg Record.text he).trans ((excerpt_made 0 .info "CMD" [x, "é"]).remark htorn)
  refine ⟨k, e, hpush, hdrain, htext, ?_⟩
  rw [htext, String.toList_append, String.toList_ofList]
  decide

end Journal

end SerialConsole
