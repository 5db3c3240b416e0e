import SerialConsole.Proofs.Text.Words

/-!
# All words of a line

There are two ways to the words of a line.  It can be cut at every blank, and the empty pieces left out;
or its first word is split off, again and again until nothing is left.  Both come to the same, and that
is the maximal runs of characters that are no blanks, first to last:

    Peels line ws ↔ words line = ws            (peels_iff)
    RunsOf line (words line)                   (runsOf_words)

A run is told by its places: the first one, and the one behind the last.
-/

namespace SerialConsole.Text

/-- No word goes on at the place: a blank is there, or the line has ended. -/
def isGap (cs : List Char) (i : Nat) : Bool := cs[i]?.all isBlank

/-- From place `i` up to place `k` there is no blank, and the run cannot be longer on either side. -/
structure MaximalRun (cs : List Char) (i k : Nat) : Prop where
  lt : i < k
  noGap : ∀ l, i ≤ l → l < k → isGap cs l = false
  starts : ∀ l, l + 1 = i → isGap cs l = true
  ends : isGap cs k = true

/-- The characters from the first place up to the second one. -/
def slice (cs : List Char) (span : Nat × Nat) : List Char := (cs.drop span.1).take (span.2 - span.1)

/-- The words are the maximal runs of the line, all of them, first to last. -/
def RunsOf (line : String) (ws : List String) : Prop :=
  ∃ spans : List (Nat × Nat), spans.Pairwise (fun p q => p.2 < q.1) ∧
    (∀ i k, (i, k) ∈ spans ↔ MaximalRun line.toList i k) ∧
    ws = spans.map fun p => String.ofList (slice line.toList p)

/-- The words that come off a line, if it is split until nothing is left and empty words are left
out. -/
inductive Peels : String → List String → Prop where
  | done : Peels "" []
  | split {line : String} {ws : List String} (hline : line ≠ "") (hrest : Peels (splitWord line).2 ws) :
    Peels line (if (splitWord line).1 = "" then ws else (splitWord line).1 :: ws)

theorem isGap_zero_iff {cs : List Char} :
    isGap cs 0 = true ↔ ∀ c, cs.head? = some c → isBlank c = true := by
  cases cs with
  | nil => exact iff_of_true rfl fun c hc => nomatch hc
  | cons c cs =>
    refine ⟨fun hgap c' hc => ?_, fun hblank => hblank c rfl⟩
    obtain rfl : c = c' := Option.some_inj.mp hc
    exact hgap

/-! ## Pieces that are not empty -/

/-- The pieces of a line that are not empty. -/
def tokens (cs : List Char) : List (List Char) := (pieces cs).filter (· ≠ [])

theorem words_eq (line : String) : words line = (tokens line.toList).map String.ofList := rfl

theorem tokens_blank {c : Char} (hc : isBlank c = true) (cs : List Char) :
    tokens (c :: cs) = tokens cs := by
  rw [tokens, pieces, if_pos hc]
  rfl

theorem tokens_dropWhile (cs : List Char) : tokens (cs.dropWhile isBlank) = tokens cs := by
  induction cs with
  | nil => rfl
  | cons c cs ih =>
    by_cases hc : isBlank c = true
    · rw [List.dropWhile_cons_of_pos hc, ih, tokens_blank hc]
    · rw [List.dropWhile_cons_of_neg hc]

/-- The first piece is what stands before the first blank. -/
theorem pieces_append {w rest : List Char} (hw : ∀ c ∈ w, isBlank c = false)
    (hrest : isGap rest 0 = true) :
    ∃ ps, pieces (w ++ rest) = w :: ps ∧ tokens rest = ps.filter (· ≠ []) := by
  induction w with
  | nil =>
    cases rest with
    | nil => exact ⟨[], rfl, rfl⟩
    | cons c cs =>
      have hc : isBlank c = true := hrest
      refine ⟨pieces cs, ?_, tokens_blank hc cs⟩
      rw [List.nil_append, pieces, if_pos hc]
  | cons c w ih =>
    obtain ⟨hc, hw⟩ := List.forall_mem_cons.mp hw
    obtain ⟨ps, hps, htokens⟩ := ih hw
    refine ⟨ps, ?_, htokens⟩
    rw [List.cons_append, pieces, if_neg (by rw [hc]; exact Bool.false_ne_true), hps]

theorem tokens_append {w rest : List Char} (hne : w ≠ []) (hw : ∀ c ∈ w, isBlank c = false)
    (hrest : isGap rest 0 = true) : tokens (w ++ rest) = w :: tokens rest := by
  obtain ⟨ps, hps, htokens⟩ := pieces_append hw hrest
  rw [tokens, hps, List.filter_cons, if_pos (decide_eq_true hne), htokens]

/-! ## Splitting again and again -/

theorem tokens_eq (cs : List Char) :
    tokens cs = if firstWord cs = [] then tokens (afterWord cs)
      else firstWord cs :: tokens (afterWord cs) := by
  obtain ⟨rest, hcs, hrest, hafter⟩ := exists_eq_firstWord_append cs
  rw [hafter, tokens_dropWhile]
  split
  · next hnil => rw [← List.nil_append rest, ← hnil, ← hcs]
  · next hne =>
    conv => lhs; rw [hcs]
    exact tokens_append hne (fun c => noBlank_of_mem_firstWord) (isGap_zero_iff.mpr hrest)

/-- What is left behind the first word is shorter, so the splitting ends. -/
theorem length_afterWord_lt {cs : List Char} (hne : cs ≠ []) : (afterWord cs).length < cs.length := by
  obtain ⟨rest, hcs, hrest, hafter⟩ := exists_eq_firstWord_append cs
  have hlength : cs.length = (firstWord cs).length + rest.length := by
    rw [← List.length_append, ← hcs]
  have hle : (rest.dropWhile isBlank).length ≤ rest.length :=
    (List.dropWhile_suffix isBlank).length_le
  rw [hafter]
  by_cases hword : firstWord cs = []
  · -- the line starts with a blank, and that is dropped at least
    rw [hword, List.nil_append] at hcs
    cases rest with
    | nil => exact absurd hcs hne
    | cons c rest =>
      have hc : isBlank c = true := hrest c rfl
      have hle' : (rest.dropWhile isBlank).length ≤ rest.length :=
        (List.dropWhile_suffix isBlank).length_le
      rw [List.length_cons] at hlength
      rw [List.dropWhile_cons_of_pos hc]
      omega
  · have hpos := List.length_pos_iff.mpr hword
    omega

theorem words_split (line : String) :
    words line = if (splitWord line).1 = "" then words (splitWord line).2
      else (splitWord line).1 :: words (splitWord line).2 := by
  have hempty : (splitWord line).1 = "" ↔ firstWord line.toList = [] := by
    rw [← String.toList_inj, splitWord, String.toList_ofList]
    rfl
  have hrest : words (splitWord line).2 = (tokens (afterWord line.toList)).map String.ofList := by
    rw [words_eq, splitWord, String.toList_ofList]
  rw [words_eq, tokens_eq, hrest]
  by_cases hword : firstWord line.toList = []
  · rw [if_pos hword, if_pos (hempty.mpr hword)]
  · rw [if_neg hword, if_neg (mt hempty.mp hword)]
    rfl

/-- A line that is split again and again comes to its words, and to nothing else. -/
theorem peels_iff {line : String} {ws : List String} : Peels line ws ↔ words line = ws := by
  constructor
  · intro h
    induction h with
    | done => rfl
    | split _ _ ih => rw [words_split, ih]
  · rintro rfl
    induction hn : line.toList.length using Nat.strongRecOn generalizing line with
    | ind n ih =>
      by_cases hline : line = ""
      · rw [hline]
        exact .done
      · have hchars : line.toList ≠ [] := fun hnil => hline (String.toList_inj.mp hnil)
        have hshorter : (splitWord line).2.toList.length < n := by
          rw [splitWord, String.toList_ofList, ← hn]
          exact length_afterWord_lt hchars
        rw [words_split]
        exact .split hline (ih _ hshorter rfl)

/-! ## Maximal runs -/

/-- Each line is empty, or starts with a blank, or with a run that ends at a gap. -/
theorem word_induction {P : List Char → Prop} (nil : P [])
    (blank : ∀ c cs, isBlank c = true → P cs → P (c :: cs))
    (word : ∀ w rest, w ≠ [] → (∀ c ∈ w, isBlank c = false) → isGap rest 0 = true → P rest →
      P (w ++ rest)) (cs : List Char) : P cs := by
  induction hn : cs.length using Nat.strongRecOn generalizing cs with
  | ind n ih =>
    obtain ⟨rest, hcs, hrest, -⟩ := exists_eq_firstWord_append cs
    have hlength : cs.length = (firstWord cs).length + rest.length := by
      rw [← List.length_append, ← hcs]
    by_cases hne : firstWord cs = []
    · rw [hne, List.nil_append] at hcs
      subst hcs
      cases cs with
      | nil => exact nil
      | cons c cs =>
        rw [List.length_cons] at hn
        exact blank c cs (hrest c rfl) (ih cs.length (by omega) cs rfl)
    · have hpos := List.length_pos_iff.mpr hne
      rw [hcs]
      exact word _ rest hne (fun c => noBlank_of_mem_firstWord) (isGap_zero_iff.mpr hrest)
        (ih rest.length (by omega) rest rfl)

theorem isGap_append_right (w rest : List Char) (l : Nat) :
    isGap (w ++ rest) (w.length + l) = isGap rest l := by
  rw [isGap, isGap, List.getElem?_append_right (Nat.le_add_right _ _), Nat.add_sub_cancel_left]

theorem isGap_append_left {w : List Char} (hw : ∀ c ∈ w, isBlank c = false) (rest : List Char)
    {l : Nat} (hl : l < w.length) : isGap (w ++ rest) l = false := by
  rw [isGap, List.getElem?_append_left hl, List.getElem?_eq_getElem hl]
  exact hw _ (List.getElem_mem hl)

/-- A run that begins behind some characters is a run without them, unless they take away its start. -/
theorem maximalRun_append_right {w rest : List Char} {i k : Nat}
    (h : isGap rest 0 = true ∨ ∀ l, l + 1 = w.length → isGap (w ++ rest) l = true) :
    MaximalRun (w ++ rest) (w.length + i) (w.length + k) ↔ MaximalRun rest i k := by
  constructor
  · intro hrun
    have hlt := hrun.lt
    refine ⟨Nat.lt_of_add_lt_add_left hlt, fun l hil hlk => ?_, fun l hl => ?_, ?_⟩
    · rw [← isGap_append_right w]
      exact hrun.noGap _ (by omega) (by omega)
    · rw [← isGap_append_right w]
      exact hrun.starts _ (by omega)
    · rw [← isGap_append_right w]
      exact hrun.ends
  · intro hrun
    have hlt := hrun.lt
    refine ⟨Nat.add_lt_add_left hlt _, fun l hil hlk => ?_, fun l hl => ?_, ?_⟩
    · obtain ⟨m, rfl⟩ : ∃ m, l = w.length + m := ⟨l - w.length, by omega⟩
      rw [isGap_append_right]
      exact hrun.noGap m (by omega) (by omega)
    · cases i with
      | zero =>
        rcases h with hgap | hgap
        · have hnone := hrun.noGap 0 (Nat.le_refl 0) hlt
          rw [hgap] at hnone
          cases hnone
        · exact hgap l hl
      | succ i =>
        obtain rfl : l = w.length + i := by omega
        rw [isGap_append_right]
        exact hrun.starts i rfl
    · rw [isGap_append_right]
      exact hrun.ends

/-- The run that a line starts with is its first word. -/
theorem maximalRun_append_left {w rest : List Char} (hw : ∀ c ∈ w, isBlank c = false)
    (hrest : isGap rest 0 = true) {i k : Nat} (hi : i < w.length) :
    MaximalRun (w ++ rest) i k ↔ i = 0 ∧ k = w.length := by
  have hend : isGap (w ++ rest) w.length = true := by
    rw [← Nat.add_zero w.length, isGap_append_right]
    exact hrest
  constructor
  · intro hrun
    have hlt := hrun.lt
    refine ⟨?_, ?_⟩
    · -- a place before it would be in the word as well
      cases i with
      | zero => rfl
      | succ i =>
        have hgap := hrun.starts i rfl
        rw [isGap_append_left hw rest (by omega)] at hgap
        cases hgap
    · rcases Nat.lt_trichotomy k w.length with hshort | hsame | hlong
      · have hgap := hrun.ends
        rw [isGap_append_left hw rest hshort] at hgap
        cases hgap
      · exact hsame
      · have hnone := hrun.noGap w.length (by omega) hlong
        rw [hend] at hnone
        cases hnone
  · rintro ⟨rfl, rfl⟩
    exact ⟨hi, fun l _ hl => isGap_append_left hw rest hl, fun l hl => (nomatch hl), hend⟩

/-- Places that are counted from farther ahead. -/
def shifted (n : Nat) (spans : List (Nat × Nat)) : List (Nat × Nat) :=
  spans.map fun p => (n + p.1, n + p.2)

theorem mem_shifted {n i k : Nat} {spans : List (Nat × Nat)} :
    (i, k) ∈ shifted n spans ↔ ∃ i' k', i = n + i' ∧ k = n + k' ∧ (i', k') ∈ spans := by
  rw [shifted, List.mem_map]
  constructor
  · rintro ⟨⟨i', k'⟩, hmem, heq⟩
    cases heq
    exact ⟨i', k', rfl, rfl, hmem⟩
  · rintro ⟨i', k', rfl, rfl, hmem⟩
    exact ⟨(i', k'), hmem, rfl⟩

theorem pairwise_shifted {spans : List (Nat × Nat)} (h : spans.Pairwise fun p q => p.2 < q.1)
    (n : Nat) : (shifted n spans).Pairwise fun p q => p.2 < q.1 :=
  List.pairwise_map.mpr (h.imp fun hlt => Nat.add_lt_add_left hlt n)

theorem slices_shifted (w rest : List Char) (spans : List (Nat × Nat)) :
    (shifted w.length spans).map (slice (w ++ rest)) = spans.map (slice rest) := by
  rw [shifted, List.map_map]
  apply List.map_congr_left
  intro p _
  show ((w ++ rest).drop (w.length + p.1)).take (w.length + p.2 - (w.length + p.1)) = _
  rw [← List.drop_drop, List.drop_left, Nat.add_sub_add_left]
  rfl

/-- Runs that begin behind some characters are runs of the rest, counted from farther ahead. -/
theorem mem_shifted_iff {w rest : List Char} {spans : List (Nat × Nat)}
    (hmem : ∀ i k, (i, k) ∈ spans ↔ MaximalRun rest i k)
    (h : isGap rest 0 = true ∨ ∀ l, l + 1 = w.length → isGap (w ++ rest) l = true) {i k : Nat}
    (hi : w.length ≤ i) : (i, k) ∈ shifted w.length spans ↔ MaximalRun (w ++ rest) i k := by
  rw [mem_shifted]
  constructor
  · rintro ⟨i', k', rfl, rfl, hspan⟩
    exact (maximalRun_append_right h).mpr ((hmem i' k').mp hspan)
  · intro hrun
    have hlt := hrun.lt
    obtain ⟨i', rfl⟩ : ∃ i', i = w.length + i' := ⟨i - w.length, by omega⟩
    obtain ⟨k', rfl⟩ : ∃ k', k = w.length + k' := ⟨k - w.length, by omega⟩
    exact ⟨i', k', rfl, rfl, (hmem i' k').mpr ((maximalRun_append_right h).mp hrun)⟩

/-- The places of all maximal runs, first to last. -/
structure SpansOf (cs : List Char) (spans : List (Nat × Nat)) : Prop where
  ordered : spans.Pairwise fun p q => p.2 < q.1
  mem : ∀ i k, (i, k) ∈ spans ↔ MaximalRun cs i k

theorem spansOf_nil : SpansOf [] [] := by
  refine ⟨.nil, fun i k => iff_of_false List.not_mem_nil fun hrun => ?_⟩
  exact nomatch hrun.noGap i (Nat.le_refl i) hrun.lt

/-- A blank in front moves the runs on by one place. -/
theorem SpansOf.blank {c : Char} {cs : List Char} {spans : List (Nat × Nat)} (h : SpansOf cs spans)
    (hc : isBlank c = true) : SpansOf (c :: cs) (shifted 1 spans) := by
  refine ⟨pairwise_shifted h.ordered 1, fun i k => ?_⟩
  cases i with
  | zero =>
    refine iff_of_false (fun hspan => ?_) (fun hrun => ?_)
    · obtain ⟨i', k', hi, -, -⟩ := mem_shifted.mp hspan
      omega
    · have hnone := hrun.noGap 0 (Nat.le_refl 0) hrun.lt
      exact nomatch hc.symm.trans hnone
  | succ i =>
    have hgap : ∀ l, l + 1 = [c].length → isGap ([c] ++ cs) l = true := by
      intro l hl
      obtain rfl : l = 0 := Nat.succ.inj hl
      exact hc
    exact mem_shifted_iff h.mem (.inr hgap) (Nat.le_add_left 1 i)

/-- A word in front of a gap is one more run, and comes before the others. -/
theorem SpansOf.word {w rest : List Char} {spans : List (Nat × Nat)} (h : SpansOf rest spans)
    (hne : w ≠ []) (hw : ∀ c ∈ w, isBlank c = false) (hrest : isGap rest 0 = true) :
    SpansOf (w ++ rest) ((0, w.length) :: shifted w.length spans) := by
  have hfirst : ∀ p ∈ spans, 0 < p.1 := by
    intro p hp
    refine Nat.pos_of_ne_zero fun hzero => ?_
    have hrun := (h.mem p.1 p.2).mp hp
    have hnone := hrun.noGap 0 (by omega) (by have := hrun.lt; omega)
    rw [hrest] at hnone
    cases hnone
  refine ⟨List.pairwise_cons.mpr ⟨?_, pairwise_shifted h.ordered _⟩, fun i k => ?_⟩
  · rintro ⟨i, k⟩ hp
    obtain ⟨i', k', rfl, -, hp'⟩ := mem_shifted.mp hp
    have hpos := hfirst _ hp'
    show w.length < w.length + i'
    exact Nat.lt_add_of_pos_right hpos
  · rw [List.mem_cons]
    by_cases hi : i < w.length
    · rw [maximalRun_append_left hw hrest hi, Prod.mk.injEq]
      refine or_iff_left fun hspan => ?_
      obtain ⟨i', k', rfl, -, -⟩ := mem_shifted.mp hspan
      omega
    · have hpos := List.length_pos_iff.mpr hne
      rw [mem_shifted_iff h.mem (.inl hrest) (Nat.le_of_not_lt hi), Prod.mk.injEq]
      exact or_iff_right fun hzero => by omega

/-- The tokens of a line are its maximal runs. -/
theorem exists_spansOf (cs : List Char) :
    ∃ spans, SpansOf cs spans ∧ tokens cs = spans.map (slice cs) := by
  induction cs using word_induction with
  | nil => exact ⟨[], spansOf_nil, rfl⟩
  | blank c cs hc ih =>
    obtain ⟨spans, hspans, htokens⟩ := ih
    refine ⟨shifted 1 spans, hspans.blank hc, ?_⟩
    rw [tokens_blank hc, htokens]
    exact (slices_shifted [c] cs spans).symm
  | word w rest hne hw hrest ih =>
    obtain ⟨spans, hspans, htokens⟩ := ih
    refine ⟨_, hspans.word hne hw hrest, ?_⟩
    rw [tokens_append hne hw hrest, List.map_cons, slices_shifted, htokens]
    congr 1
    exact (List.take_left).symm

theorem runsOf_words (line : String) : RunsOf line (words line) := by
  obtain ⟨spans, hspans, htokens⟩ := exists_spansOf line.toList
  refine ⟨spans, hspans.ordered, hspans.mem, ?_⟩
  rw [words_eq, htokens, List.map_map]
  rfl

end SerialConsole.Text
