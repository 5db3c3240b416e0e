import SerialConsole.Proofs.Console.Acts
import SerialConsole.Proofs.Text.Fitting
import SerialConsole.Proofs.Text.Legible

/-!
# The memory of the last command over whole runs

A line is memorable if it is not blank, no comment, and longer than one byte.  The memory is known
from the lines that were answered: it shows the last memorable one, as much of it as fits into a line,
and nothing if there was none yet:

    (c.afterAll acts).lastCommand = (c.lines acts).foldl LastCommand.hear c.lastCommand

What came of a line does not matter.  An unknown command, a handler that fails and a reset are
remembered like any other line, and no line that is not memorable changes the memory.
-/

namespace SerialConsole

open Settings

/-- Not blank, no comment, and longer than one byte. -/
def Memorable (raw : String) : Prop :=
  raw ≠ "" ∧ raw.toList.head? ≠ some '#' ∧ 1 < (Text.encode raw).length

instance (raw : String) : Decidable (Memorable raw) := inferInstanceAs (Decidable (_ ∧ _))

/-- The last memorable line among some. -/
def lastMemorable (raws : List String) : Option String :=
  (raws.filter fun raw => Memorable raw).getLast?

namespace LastCommand

/-- The memory after a line: comments and blank lines are not even offered to it. -/
def hear (m : LastCommand) (raw : String) : LastCommand :=
  if Console.isComment raw = true ∨ raw = "" then m
  else (m.remember (Line.ofText raw).text).1

/-- The memory shows `l`, which is as much of the line `raw` as fits. -/
structure Shows (m : LastCommand) (raw l : String) : Prop where
  get? : m.get? = some l
  cut : Text.LongestFit maxChars raw l
  two_le : 2 ≤ (Text.encode l).length
  isNoComment : l.toList.head? ≠ some '#'
  /-- The memory holds the bytes of a text, and all of them. -/
  bytes : m.line.bytes = Text.encode l

theorem isComment_iff (raw : String) :
    Console.isComment raw = true ↔ raw.toList.head? = some '#' :=
  beq_iff_eq

/-- What fits of a line is longer than one byte exactly if the line is. -/
theorem one_lt_length_cut {raw l : String} (h : Text.LongestFit maxChars raw l) :
    1 < (Text.encode l).length ↔ 1 < (Text.encode raw).length := by
  by_cases hfits : (Text.encode raw).length ≤ maxChars
  · rw [h.eq_of_length_le hfits]
  · have hcut : maxChars < (Text.encode l).length + 4 := h.le_length_add (by omega)
    have hmax : maxChars = 99 := rfl
    omega

theorem hear_of_not_memorable (m : LastCommand) {raw : String} (h : ¬ Memorable raw) :
    m.hear raw = m := by
  unfold hear
  split
  · rfl
  · next hline =>
    obtain ⟨hcomment, hblank⟩ := not_or.mp hline
    have hshort : ¬ 1 < (Text.encode (Line.ofText raw).text).length := by
      rw [one_lt_length_cut (Text.longestFit_ofText raw)]
      exact fun hlong => h ⟨hblank, fun hhead => hcomment ((isComment_iff raw).mpr hhead), hlong⟩
    rw [remember, if_neg hshort]

theorem hear_of_memorable (m : LastCommand) {raw : String} (h : Memorable raw) :
    ∃ l, (m.hear raw).Shows raw l := by
  obtain ⟨hblank, hcomment, hlong⟩ := h
  have hline : ¬ (Console.isComment raw = true ∨ raw = "") :=
    not_or.mpr ⟨fun hc => hcomment ((isComment_iff raw).mp hc), hblank⟩
  have hcut := Text.longestFit_ofText raw
  have htwo := (one_lt_length_cut hcut).mpr hlong
  have hhear : m.hear raw = ⟨m.line.assignText (Line.ofText raw).text⟩ := by
    rw [hear, if_neg hline, remember, if_pos htwo]
  have hbytes : (m.hear raw).line.bytes = Text.encode (Line.ofText raw).text := by
    rw [hhear]
    show (m.line.assign _).bytes = _
    rw [Line.bytes_assign, List.take_of_length_le hcut.fits]
  refine ⟨(Line.ofText raw).text, ?_, hcut, htwo, ?_, hbytes⟩
  · have hused : (m.hear raw).line.used ≠ 0 := by
      rw [← Row.length_bytes, hbytes]
      omega
    rw [get?, if_neg hused, Line.text, hbytes, Text.opening_encode]
  · -- the line begins with the first character of the raw one, as it is not empty
    obtain ⟨rest, hrest⟩ := hcut.isPrefix
    cases hl : (Line.ofText raw).text.toList with
    | nil => exact Option.some_ne_none _ ∘ Eq.symm
    | cons c cs =>
      rw [hl, List.cons_append] at hrest
      rw [← hrest] at hcomment
      exact hcomment

theorem foldl_hear (m : LastCommand) (raws : List String) :
    raws.foldl hear m = (raws.filter fun raw => Memorable raw).foldl hear m := by
  rw [List.foldl_filter]
  congr 1
  funext m raw
  by_cases h : Memorable raw
  · rw [if_pos (decide_eq_true h)]
  · rw [decide_eq_false h, if_neg Bool.false_ne_true, hear_of_not_memorable m h]

/-- After some lines the memory shows the last memorable one, or is what it was. -/
theorem shows_foldl_hear (m : LastCommand) (raws : List String) :
    match lastMemorable raws with
    | some raw => ∃ l, (raws.foldl hear m).Shows raw l
    | none => raws.foldl hear m = m := by
  rw [foldl_hear, lastMemorable]
  cases hlast : (raws.filter fun raw => Memorable raw).getLast? with
  | none => rw [List.getLast?_eq_none_iff.mp hlast, List.foldl_nil]
  | some raw =>
    have hmem := List.mem_of_getLast? hlast
    have hraw : Memorable raw := of_decide_eq_true (List.mem_filter.mp hmem).2
    obtain ⟨before, hbefore⟩ := List.getLast?_eq_some_iff.mp hlast
    rw [hbefore, List.foldl_append]
    exact hear_of_memorable _ hraw

end LastCommand

namespace Console

variable {H : Type}

/-- The line that an act answers, if it answers one. -/
def Act.line? (c : Console H) : Act H → Option String
  | .answer _ raw => some raw
  | .next _ arrivals => (c.board.await arrivals).parcel.map fun p => Text.legible p.bytes
  | _ => none

/-- The lines that acts answer, in their order. -/
def lines (c : Console H) : List (Act H) → List String
  | [] => []
  | a :: acts => (a.line? c).toList ++ (c.after a).lines acts

theorem lastCommand_recalling (c : Console H) (raw : String) :
    (c.recalling raw).lastCommand = c.lastCommand.hear raw := by
  unfold recalling LastCommand.hear
  by_cases hcomment : isComment raw = true
  · rw [if_pos hcomment, if_pos (Or.inl hcomment)]
  · rw [if_neg hcomment, remember]
    by_cases hblank : raw = ""
    · rw [if_pos hblank, if_pos (Or.inr hblank)]
    · rw [if_neg hblank, if_neg (not_or.mpr ⟨hcomment, hblank⟩), lineFor, if_neg hblank]

theorem lastCommand_answer (service : Service H) (c : Console H) (raw : String) :
    (c.answer service raw).console.lastCommand = c.lastCommand.hear raw := by
  obtain ⟨log, h⟩ := console_answer service c raw
  rw [h, ← lastCommand_recalling]
  rfl

theorem lastCommand_received (c : Console H) (p : Parcel) :
    (c.received p).lastCommand = c.lastCommand := by
  obtain ⟨log, h⟩ := received_eq c p
  rw [h]
  rfl

theorem lastCommand_after (c : Console H) (a : Act H) :
    (c.after a).lastCommand = (a.line? c).toList.foldl LastCommand.hear c.lastCommand := by
  cases a with
  | register name handler description => rfl
  | attach link => rfl
  | answer service raw => exact lastCommand_answer service c raw
  | next service arrivals =>
    simp only [after, next, Act.line?]
    cases hp : (c.board.await arrivals).parcel with
    | none => rfl
    | some p =>
      simp only [Round.console, answerParcel_eq service _ (Board.length_await_le hp),
        lastCommand_answer, lastCommand_received]
      rfl
  | meanwhile event => rfl

theorem lastCommand_afterAll (c : Console H) (acts : List (Act H)) :
    (c.afterAll acts).lastCommand = (c.lines acts).foldl LastCommand.hear c.lastCommand := by
  induction acts generalizing c with
  | nil => rfl
  | cons a acts ih =>
    show ((c.after a).afterAll acts).lastCommand = _
    rw [ih, lastCommand_after, lines, List.foldl_append]

/-- Lines that are answered one after the other are the lines of these acts. -/
theorem lines_map_answer (c : Console H) (service : Service H) (raws : List String) :
    c.lines (raws.map (.answer service)) = raws := by
  induction raws generalizing c with
  | nil => rfl
  | cons raw raws ih =>
    rw [List.map_cons, lines, ih]
    rfl

/-- **The memory law.**  Whatever happens to a console that was just started, there is no last
command before the first memorable line; from then on it is the last memorable line, cut to the whole
characters that fit.  A line that is not memorable, and an act that answers none, leave the memory as
it is, and what comes of a line never matters. -/
theorem memory_law (b : Board) (acts : List (Act H)) :
    (lastMemorable ((fresh b).lines acts) = none → ((fresh b).afterAll acts).last? = none) ∧
    (∀ raw, lastMemorable ((fresh b).lines acts) = some raw →
      ∃ l, ((fresh b).afterAll acts).lastCommand.Shows raw l ∧
        ((fresh b).afterAll acts).last? = some l) ∧
    (∀ (c : Console H) (a : Act H), (∀ raw, a.line? c = some raw → ¬ Memorable raw) →
      (c.after a).lastCommand = c.lastCommand) ∧
    ∀ (service : Service H) (c : Console H) (raw : String),
      (c.answer service raw).console.lastCommand = c.lastCommand.hear raw := by
  have hshows := LastCommand.empty.shows_foldl_hear ((fresh b).lines acts)
  have hmemory : ((fresh b).afterAll acts).lastCommand =
      ((fresh b).lines acts).foldl LastCommand.hear .empty := lastCommand_afterAll (fresh b) acts
  rw [← hmemory] at hshows
  refine ⟨?_, ?_, ?_, lastCommand_answer⟩
  · intro hnone
    rw [hnone] at hshows
    rw [last?, hshows]
    rfl
  · intro raw hraw
    rw [hraw] at hshows
    obtain ⟨l, hl⟩ := hshows
    exact ⟨l, hl, hl.get?⟩
  · intro c a ha
    rw [lastCommand_after]
    cases hline : a.line? c with
    | none => rfl
    | some raw => exact c.lastCommand.hear_of_not_memorable (ha raw hline)

/-- A command that nobody knows is remembered; a blank line, a comment and a single key after it
change nothing. -/
theorem memory_law_unknown :
    ((fresh (H := Unit) .fresh).afterAll (["temp on", "", "#off", "h"].map
      (.answer fun _ _ _ => .ok ""))).last? = some "temp on" := by
  have hlast : lastMemorable ((fresh (H := Unit) .fresh).lines (["temp on", "", "#off", "h"].map
      (.answer fun _ _ _ => .ok ""))) = some "temp on" := by
    rw [lines_map_answer]
    decide
  obtain ⟨l, hl, hshown⟩ := (memory_law .fresh _).2.1 _ hlast
  rw [hl.cut.eq_of_length_le (by decide)] at hshown
  exact hshown

end Console

end SerialConsole
