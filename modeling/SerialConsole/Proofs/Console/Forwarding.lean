import SerialConsole.Proofs.Console.Frames

/-!
# What a line forwards

Two searches look for the end of the first word of a line.  The one that selects the command stops at
the first space or tab; the one that forwards a text stops at the first space only.  They agree as long
as the word is ended by a space.  A tab does not end it for the second one, so what is sent then begins
after the next space, wherever that stands:

    word                               nothing
    word ++ " " ++ text                text
    word ++ "\t" ++ x ++ " " ++ text   text, if there is no space in x
    word ++ "\t" ++ text               nothing, if there is no space in text

An empty text is not sent.  So a line is forwarded without its first word and the blank behind it
exactly if that blank is no tab, or nothing follows it (`forwarding_law`).
-/

namespace SerialConsole

open Settings Text

namespace Text

theorem FirstWord.no_space {line word : String} (h : FirstWord line word) : ' ' ∉ word.toList := by
  intro hmem
  have hblank := h.noBlank ' ' hmem
  cases hblank

/-- A line is its first word, or a space or a tab and a text follow it. -/
theorem FirstWord.split_cases {line word : String} (h : FirstWord line word) :
    line = word ∨ (∃ text, line = word ++ " " ++ text) ∨ ∃ text, line = word ++ "\t" ++ text := by
  obtain ⟨rest, hline, hblank⟩ := h.ends
  cases rest with
  | nil =>
    rw [List.append_nil] at hline
    exact .inl (String.toList_inj.mp hline)
  | cons ch cs =>
    have happend : ∀ blank : String, blank.toList = [ch] →
        line = word ++ blank ++ String.ofList cs := by
      intro blank hch
      apply String.toList_inj.mp
      rw [hline, String.toList_append, String.toList_append, hch, String.toList_ofList,
        List.append_assoc]
      rfl
    rcases isBlank_iff.mp (hblank ch rfl) with rfl | rfl
    · exact .inr (.inl ⟨String.ofList cs, happend " " rfl⟩)
    · exact .inr (.inr ⟨String.ofList cs, happend "\t" rfl⟩)

end Text

namespace Console

variable {H : Type}

/-- The text that is forwarded of a line with a first word. -/
inductive Forwarded (line word : String) : String → Prop where
  | alone (hline : line = word) : Forwarded line word ""
  | space {text : String} (hline : line = word ++ " " ++ text) : Forwarded line word text
  /-- The tab is passed over, and whatever stands before the next space with it. -/
  | tab {before text : String} (hspace : ' ' ∉ before.toList)
    (hline : line = word ++ "\t" ++ (before ++ " " ++ text)) : Forwarded line word text
  | hidden {text : String} (hspace : ' ' ∉ text.toList) (hline : line = word ++ "\t" ++ text) :
    Forwarded line word ""

/-- The frames are those of a line without its first word and the blank that ended the word. -/
def WordStripped (line word : String) (link : LinkId) (frames : List Frame) : Prop :=
  (line = word → frames = []) ∧
    ∀ blank text, isBlank blank = true → line = word ++ String.singleton blank ++ text →
      frames = sent link text

/-! ## What is sent for a text -/

theorem sent_inj {link : LinkId} {s t : String} (h : sent link s = sent link t) : s = t := by
  unfold sent at h
  by_cases hs : s = ""
  · by_cases ht : t = ""
    · rw [hs, ht]
    · rw [if_pos hs, if_neg ht] at h
      cases h
  · by_cases ht : t = ""
    · rw [if_neg hs, if_pos ht] at h
      cases h
    · rw [if_neg hs, if_neg ht, List.singleton_inj, Frame.mk.injEq] at h
      have hbytes := List.append_cancel_right h.2
      rw [← opening_encode s, hbytes, opening_encode]

/-- No text is what it forwards, but the empty one. -/
theorem payload_ne_self {text : String} (h : text ≠ "") : payload text ≠ text := by
  intro heq
  have hpayload : payload text ≠ "" := by
    rw [heq]
    exact h
  obtain ⟨before, -, htext⟩ := exists_append_payload hpayload
  have hlength := congrArg (fun s => s.toList.length) htext
  simp only [String.toList_append, List.length_append, heq] at hlength
  have hspace : " ".toList.length = 1 := rfl
  omega

theorem payload_tab {line word : String} (hword : FirstWord line word) (text : String) :
    payload (word ++ "\t" ++ text) = payload text := by
  refine payload_append_of_no_space ?_ text
  rw [String.toList_append, List.mem_append]
  rintro (hmem | hmem)
  · exact hword.no_space hmem
  · exact absurd hmem (by decide)

/-! ## What a line sends -/

theorem exists_forwarded {line word : String} (hword : FirstWord line word) :
    ∃ text, Forwarded line word text := by
  rcases hword.split_cases with hline | ⟨text, hline⟩ | ⟨text, hline⟩
  · exact ⟨"", .alone hline⟩
  · exact ⟨text, .space hline⟩
  · by_cases hspace : ' ' ∈ text.toList
    · obtain ⟨before, text', hbefore, htext⟩ := exists_append_of_space hspace
      exact ⟨text', .tab hbefore (hline.trans (congrArg _ htext))⟩
    · exact ⟨"", .hidden hspace hline⟩

theorem Forwarded.payload_eq {line word text : String} (h : Forwarded line word text)
    (hword : FirstWord line word) : payload line = text := by
  cases h with
  | alone hline =>
    rw [hline]
    exact payload_eq_empty hword.no_space
  | space hline =>
    rw [hline]
    exact payload_append hword.no_space text
  | tab hspace hline =>
    rw [hline, payload_tab hword]
    exact payload_append hspace text
  | hidden hspace hline =>
    rw [hline, payload_tab hword]
    exact payload_eq_empty hspace

/-- What is sent leaves out the first word and the blank behind it, unless a tab hides a text. -/
theorem wordStripped_iff {line word : String} (hword : FirstWord line word) (link : LinkId) :
    WordStripped line word link (sent link (payload line)) ↔
      ¬ ∃ text, text ≠ "" ∧ line = word ++ "\t" ++ text := by
  constructor
  · rintro ⟨-, hstripped⟩ ⟨text, hne, hline⟩
    have hsent := hstripped '\t' text rfl hline
    rw [hline, payload_tab hword] at hsent
    exact payload_ne_self hne (sent_inj hsent)
  · intro hnot
    refine ⟨?_, ?_⟩
    · intro hline
      rw [(Forwarded.alone hline).payload_eq hword, sent_empty]
    · intro blank text hblank hline
      rcases isBlank_iff.mp hblank with rfl | rfl
      · rw [(Forwarded.space hline).payload_eq hword]
      · by_cases hempty : text = ""
        · subst hempty
          rw [(Forwarded.hidden List.not_mem_nil hline).payload_eq hword]
        · exact absurd ⟨text, hempty, hline⟩ hnot

/-- **The forwarding law.**  A line that leads to the command that forwards sends one frame at most.
If its first word is ended by a space, that is the text behind the space; if it is ended by a tab, the
text behind the next space, if there is one; and nothing if nothing ends it.  So the first word and the
blank behind it are all that is left out, exactly if the blank is no tab or no text follows it. -/
theorem forwarding_law (service : Service H) {c : Console H} (hc : c.Reachable)
    {raw line word : String} {link : LinkId} (hline : c.Dispatches raw line .forward)
    (hword : FirstWord line word) (hlink : c.link = some link) :
    (∃ text, Forwarded line word text) ∧
    (∀ text, Forwarded line word text → (c.answer service raw).frames = sent link text) ∧
    (WordStripped line word link (c.answer service raw).frames ↔
      ¬ ∃ text, text ≠ "" ∧ line = word ++ "\t" ++ text) := by
  obtain ⟨hfor, hd⟩ := hc.dispatches_iff.mp hline
  have hframes := frames_answer_of_forward service hd rfl hlink
  rw [← hfor] at hframes
  rw [hframes]
  refine ⟨exists_forwarded hword, ?_, wordStripped_iff hword link⟩
  intro text htext
  rw [htext.payload_eq hword]

/-- Of a text behind a tab the link gets what follows the first space. -/
theorem forwarding_law_tab :
    let service : Service Unit := fun _ _ _ => .ok ""
    let c := (fresh .fresh).afterAll [.attach ⟨0⟩]
    c.Dispatches "uart\tAT x" "uart\tAT x" .forward ∧ FirstWord "uart\tAT x" "uart" ∧
      c.link = some ⟨0⟩ ∧ (c.answer service "uart\tAT x").frames = [⟨⟨0⟩, [0x78, 0x0d]⟩] := by
  intro service c
  have hc : c.Reachable := ⟨_, rfl⟩
  have hline : c.Dispatches "uart\tAT x" "uart\tAT x" .forward :=
    hc.dispatches_iff.mpr ⟨by decide +kernel, by decide +kernel⟩
  have hword : FirstWord "uart\tAT x" "uart" := firstWord_iff.mpr (by decide)
  have hbefore : ' ' ∉ "AT".toList := by decide
  have htext : Forwarded "uart\tAT x" "uart" "x" := .tab hbefore (by decide)
  obtain ⟨-, hframes, -⟩ := forwarding_law service hc hline hword rfl
  exact ⟨hline, hword, rfl, hframes "x" htext⟩

/-- A text behind a tab is not sent, though the word before it is that of the command. -/
theorem tab_hides_text :
    let service : Service Unit := fun _ _ _ => .ok ""
    let c := (fresh .fresh).afterAll [.attach ⟨0⟩]
    c.Reachable ∧ c.Dispatches "uartcmd\tAT" "uartcmd\tAT" .forward ∧
      FirstWord "uartcmd\tAT" "uartcmd" ∧ (c.answer service "uartcmd\tAT").frames = [] ∧
      ¬ WordStripped "uartcmd\tAT" "uartcmd" ⟨0⟩ (c.answer service "uartcmd\tAT").frames := by
  intro service c
  have hc : c.Reachable := ⟨_, rfl⟩
  have hline : c.Dispatches "uartcmd\tAT" "uartcmd\tAT" .forward :=
    hc.dispatches_iff.mpr ⟨by decide +kernel, by decide +kernel⟩
  have hframes : (c.answer service "uartcmd\tAT").frames = [] := by decide +kernel
  refine ⟨hc, hline, firstWord_iff.mpr (by decide), hframes, ?_⟩
  rintro ⟨-, hstripped⟩
  have hsent := hstripped '\t' "AT" rfl (by decide)
  rw [hframes] at hsent
  cases hsent

end Console

end SerialConsole
