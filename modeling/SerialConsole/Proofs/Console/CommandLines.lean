import SerialConsole.CommandLine
import SerialConsole.Proofs.Console.Turns
import SerialConsole.Proofs.Text.Runs

/-!
# Command lines

A command line has the words of its text: the first one is the command, the next ones are the arguments,
as many as are kept.  A handler that reads its line as a command line finds the word there that it was
called by, unless the line starts with a blank:

    (splitWord line).1 = (CommandLine.ofText line).command        (splitWord_eq_command)
-/

namespace SerialConsole

open Settings

/-- The command line has the words: the first one is the command, and as many of the others as it keeps
are the arguments. -/
structure CommandLine.Has (c : CommandLine) (ws : List String) : Prop where
  command : c.command = ws.head?.getD ""
  arguments : c.arguments = (ws.drop 1).take maxArguments
  count : c.count = min maxArguments (ws.length - 1)
  argument : ∀ i w, c.argument? i = some w ↔ i < c.count ∧ ws[i + 1]? = some w
  beyond : ∀ i, c.argument? i = none ↔ c.count ≤ i

theorem CommandLine.has_ofText (line : String) : (ofText line).Has (Text.words line) := by
  have harguments : (ofText line).arguments = ((Text.words line).drop 1).take maxArguments := by
    rw [ofText]
    cases Text.words line with
    | nil => rfl
    | cons w ws => rfl
  have hcount : (ofText line).count = min maxArguments ((Text.words line).length - 1) := by
    rw [count, harguments, List.length_take, List.length_drop]
  have hargument (i : Nat) : (ofText line).argument? i =
      if i < maxArguments then (Text.words line)[i + 1]? else none := by
    rw [argument?, harguments, List.getElem?_take, List.getElem?_drop, Nat.add_comm 1 i]
  refine ⟨?_, harguments, hcount, fun i w => ?_, fun i => ?_⟩
  · rw [ofText]
    cases Text.words line with
    | nil => rfl
    | cons w ws => rfl
  · rw [hargument, hcount]
    by_cases hi : i < maxArguments
    · rw [if_pos hi]
      refine ⟨fun hw => ⟨?_, hw⟩, And.right⟩
      obtain ⟨hlt, -⟩ := List.getElem?_eq_some_iff.mp hw
      omega
    · rw [if_neg hi]
      exact iff_of_false (fun hw => (nomatch hw)) (fun hw => by omega)
  · rw [argument?, List.getElem?_eq_none_iff]
    rfl

/-- A line that does not start with a blank is split behind the command. -/
theorem CommandLine.splitWord_eq_command {line : String}
    (hline : ∀ c, line.toList.head? = some c → Text.isBlank c = false) :
    (Text.splitWord line).1 = (ofText line).command := by
  rw [(has_ofText line).command, Text.words_split]
  by_cases hempty : line = ""
  · rw [hempty]
    rfl
  · have hword : (Text.splitWord line).1 ≠ "" := by
      rw [Ne, (Text.firstWord_splitWord line).eq_empty_iff hempty]
      rintro (hspace | htab)
      · exact nomatch hline _ hspace
      · exact nomatch hline _ htab
    rw [if_neg hword]
    rfl

/-- The console answers the line by the word: it resets the board if the word asks for it, and runs what
the word leads to if not. -/
def Console.AnswersBy {H : Type} (service : Service H) (c : Console H) (raw word line : String) : Prop :=
  if asksForReset word then (c.answer service raw).step = .reset
  else ∃ memory, c.answer service raw = { c with lastCommand := memory }.dispatch service word line

theorem Console.answersBy_splitWord {H : Type} (service : Service H) (c : Console H) {raw : String}
    (hraw : ¬ isComment raw = true) :
    c.AnswersBy service raw (Text.splitWord (c.lineFor raw)).1 (c.lineFor raw) := by
  unfold AnswersBy
  rcases answer_cases service c raw with ⟨hcomment, -⟩ | ⟨-, hreset, after, h⟩ | ⟨-, hreset, h⟩
  · exact absurd hcomment hraw
  · rw [if_pos hreset, h]
  · rw [if_neg hreset]
    exact h

/-- **The law of command lines.**  A line that is split again and again until nothing is left always
comes to an end, and to the same words as the line is cut into at its blanks: to its maximal runs of
characters that are no blanks.  The first of them is the command and the next ones are the arguments, as
many as are kept.  If the line does not start with a blank, the command is the word that the console
answers it by. -/
theorem CommandLine.command_line_law (line : String) :
    (∀ ws, Text.Peels line ws ↔ Text.words line = ws) ∧
    Text.RunsOf line (Text.words line) ∧
    (ofText line).Has (Text.words line) ∧
    ((∀ c, line.toList.head? = some c → Text.isBlank c = false) →
      (Text.splitWord line).1 = (ofText line).command ∧
      ∀ {H : Type} (service : Service H) (c : Console H) (raw : String),
        ¬ Console.isComment raw = true → c.lineFor raw = line →
        c.AnswersBy service raw (ofText line).command line) := by
  refine ⟨fun ws => Text.peels_iff, Text.runsOf_words line, has_ofText line, fun hline => ?_⟩
  have hword := splitWord_eq_command hline
  refine ⟨hword, ?_⟩
  rintro H service c raw hraw rfl
  rw [← hword]
  exact c.answersBy_splitWord service hraw

/-- The command and eleven more words, of which ten are kept. -/
theorem CommandLine.command_line_law_eleven :
    let line := "x 1 2\t 3 4 5 6  7 8 9 10 11 "
    Text.Peels line ["x", "1", "2", "3", "4", "5", "6", "7", "8", "9", "10", "11"] ∧
      (ofText line).argument? 9 = some "10" ∧ (ofText line).argument? 10 = none ∧
      (Text.splitWord line).1 = (ofText line).command := by
  intro line
  obtain ⟨hpeels, -, hhas, hdispatch⟩ := command_line_law line
  have hwords : Text.words line =
      ["x", "1", "2", "3", "4", "5", "6", "7", "8", "9", "10", "11"] := by decide
  have hcount : (ofText line).count = 10 := by
    rw [hhas.count, hwords]
    rfl
  refine ⟨(hpeels _).mpr hwords, (hhas.argument 9 "10").mpr ⟨?_, ?_⟩,
    (hhas.beyond 10).mpr (Nat.le_of_eq hcount), (hdispatch ?_).1⟩
  · rw [hcount]
    decide
  · rw [hwords]
    rfl
  · intro c hc
    have hx : line.toList.head? = some 'x' := by decide
    obtain rfl : 'x' = c := Option.some_inj.mp (hx.symm.trans hc)
    rfl

end SerialConsole
