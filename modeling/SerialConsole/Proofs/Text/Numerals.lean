import Mathlib.Algebra.Ring.Nat
import SerialConsole.CommandLine

/-!
# The numbers that texts open with

A numeral is read digit by digit into 32 bits, which wrap around again and again; the outcome is the
number that the digits denote, reduced once:

    the text                       is read as
    `0x`, a run, no digit          the number of the run, base 16, modulo 2^32; 0 for an empty run
    a run, no digit                the number of the run, base 10, modulo 2^32
    anything else                  an error

In a run each digit counts as often as its place says (`Denotes`), and a run is as long as can be
(`Opens`).  Both are said without the reading, and there is exactly one such number for each text
(`exists_opens`, `Opens.unique`).
-/

namespace SerialConsole.Text

/-- The character is the digit `d` of the base; letters count in either case. -/
def IsDigit (base : Nat) (c : Char) (d : Nat) : Prop :=
  d < base ∧ (c = d.digitChar ∨ c = d.digitChar.toUpper)

/-- The characters do not begin with a digit of the base. -/
def NoDigit (base : Nat) (cs : List Char) : Prop :=
  ∀ c, cs.head? = some c → ∀ d, ¬ IsDigit base c d

/-- The number that digits denote, the first one counting most. -/
inductive Denotes (base : Nat) : List Char → Nat → Prop where
  | nil : Denotes base [] 0
  | cons {c : Char} {cs : List Char} {d n : Nat} (hdigit : IsDigit base c d)
    (hrest : Denotes base cs n) : Denotes base (c :: cs) (d * base ^ cs.length + n)

/-- The characters open with a run of digits that cannot be longer, and the run denotes a number. -/
structure Opens (base : Nat) (cs run : List Char) (n : Nat) : Prop where
  denotes : Denotes base run n
  ends : ∃ rest, cs = run ++ rest ∧ NoDigit base rest

/-- What a text is read as. -/
inductive Reads : String → Except CommandError UInt32 → Prop where
  | hexadecimal {s : String} {cs run : List Char} {n : Nat} (hs : s.toList = '0' :: 'x' :: cs)
    (hopens : Opens 16 cs run n) : Reads s (.ok (UInt32.ofNat n))
  | decimal {s : String} {run : List Char} {n : Nat} (hs : ¬ ['0', 'x'] <+: s.toList)
    (hdigit : ¬ NoDigit 10 s.toList) (hopens : Opens 10 s.toList run n) :
    Reads s (.ok (UInt32.ofNat n))
  | invalid {s : String} (hs : ¬ ['0', 'x'] <+: s.toList) (hdigit : NoDigit 10 s.toList) :
    Reads s (.error .invalidValue)

variable {base : Nat}

/-! ## Digits -/

theorem digit?_digitChar : ∀ base ≤ 16, ∀ d < base,
    digit? base d.digitChar = some d ∧ digit? base d.digitChar.toUpper = some d := by
  decide

theorem toNat_digitChar : ∀ d < 16,
    d.digitChar.toNat = (if d < 10 then d + 48 else d + 87) ∧
      (10 ≤ d → d.digitChar.toUpper.toNat = d + 55) := by
  decide

theorem toUpper_toUpper_digitChar : ∀ d < 16,
    d.digitChar.toUpper.toUpper = d.digitChar.toUpper := by
  decide

theorem isDigit_of_digit? (hbase : base ≤ 16) {c : Char} {d : Nat} (h : digit? base c = some d) :
    IsDigit base c d := by
  unfold digit? at h
  obtain ⟨hvalue, hlt⟩ := Option.filter_eq_some_iff.mp h
  have hd : d < base := of_decide_eq_true hlt
  obtain ⟨hlower, hupper⟩ := toNat_digitChar d (by omega)
  refine ⟨hd, ?_⟩
  rw [← Char.toNat_inj, ← Char.toNat_inj]
  -- the three ranges: figures, small letters and capital letters
  split at hvalue
  · next hc =>
    have h0 : 48 ≤ c.toNat := hc.1
    have h9 : c.toNat ≤ 57 := hc.2
    have hfigure : c.toNat - 48 = d := Option.some_inj.mp hvalue
    rw [if_pos (by omega)] at hlower
    exact .inl (by omega)
  · split at hvalue
    · next hc =>
      have ha : 97 ≤ c.toNat := hc.1
      have hletter : c.toNat - 97 + 10 = d := Option.some_inj.mp hvalue
      rw [if_neg (by omega)] at hlower
      exact .inl (by omega)
    · split at hvalue
      · next hc =>
        have hA : 65 ≤ c.toNat := hc.1
        have hletter : c.toNat - 65 + 10 = d := Option.some_inj.mp hvalue
        have hcapital := hupper (by omega)
        exact .inr (by omega)
      · cases hvalue

theorem digit?_eq_some_iff (hbase : base ≤ 16) {c : Char} {d : Nat} :
    digit? base c = some d ↔ IsDigit base c d := by
  refine ⟨isDigit_of_digit? hbase, ?_⟩
  rintro ⟨hlt, rfl | rfl⟩
  · exact (digit?_digitChar base hbase d hlt).1
  · exact (digit?_digitChar base hbase d hlt).2

theorem leadingDigits_cons (hbase : base ≤ 16) {c : Char} {d : Nat} (hd : IsDigit base c d)
    (cs : List Char) : leadingDigits base (c :: cs) = d :: leadingDigits base cs := by
  rw [leadingDigits, (digit?_eq_some_iff hbase).mpr hd]

theorem leadingDigits_eq_nil_iff (hbase : base ≤ 16) {cs : List Char} :
    leadingDigits base cs = [] ↔ NoDigit base cs := by
  cases cs with
  | nil => exact iff_of_true rfl fun c hc => nomatch hc
  | cons c cs =>
    constructor
    · intro hnil c' hc d hd
      obtain rfl : c = c' := Option.some_inj.mp hc
      rw [leadingDigits_cons hbase hd] at hnil
      cases hnil
    · intro hnone
      cases hc : digit? base c with
      | none => rw [leadingDigits, hc]
      | some d => exact absurd (isDigit_of_digit? hbase hc) (hnone c rfl d)

/-! ## Runs of digits -/

theorem Denotes.concat {cs : List Char} {c : Char} {n d : Nat} (h : Denotes base cs n)
    (hd : IsDigit base c d) : Denotes base (cs ++ [c]) (base * n + d) := by
  induction h with
  | nil =>
    have hone := Denotes.cons hd .nil
    rwa [List.length_nil, Nat.pow_zero, Nat.mul_one, Nat.add_zero, ← Nat.zero_add d] at hone
  | @cons c' cs d' n hdigit hrest ih =>
    have hnext := Denotes.cons hdigit ih
    rw [List.length_append, List.length_singleton, Nat.pow_succ] at hnext
    have hsame : d' * (base ^ cs.length * base) + (base * n + d) =
        base * (d' * base ^ cs.length + n) + d := by
      grind
    rwa [hsame] at hnext

theorem Denotes.isDigit {run : List Char} {n : Nat} (h : Denotes base run n) {c : Char}
    (hc : c ∈ run) : ∃ d, IsDigit base c d := by
  induction h with
  | nil => cases hc
  | cons hdigit _ ih =>
    rcases List.mem_cons.mp hc with rfl | hc
    · exact ⟨_, hdigit⟩
    · exact ih hc

theorem Denotes.not_noDigit {run : List Char} {n : Nat} (h : Denotes base run n) (hne : run ≠ [])
    (rest : List Char) : ¬ NoDigit base (run ++ rest) := by
  cases h with
  | nil => exact absurd rfl hne
  | cons hdigit _ => exact fun hnone => hnone _ rfl _ hdigit

/-- No run of digits that the characters open with is longer. -/
theorem Opens.longest {cs run run' : List Char} {n n' : Nat} (h : Opens base cs run n)
    (hbegins : run' <+: cs) (hdenotes : Denotes base run' n') : run' <+: run := by
  obtain ⟨rest, rfl, hrest⟩ := h.ends
  rcases List.prefix_or_prefix_of_prefix hbegins (List.prefix_append run rest) with
    hle | ⟨more, rfl⟩
  · exact hle
  · rw [List.prefix_append_right_inj] at hbegins
    cases more with
    | nil => exact ⟨[], (List.append_nil _).trans (List.append_nil run)⟩
    | cons c more =>
      -- what goes beyond the run would start with a digit
      obtain ⟨rest', rfl⟩ := hbegins
      obtain ⟨d, hd⟩ := hdenotes.isDigit (c := c) (by simp)
      exact absurd hd (hrest c rfl d)

theorem IsDigit.unique (hbase : base ≤ 16) {c : Char} {d d' : Nat} (h : IsDigit base c d)
    (h' : IsDigit base c d') : d = d' := by
  rw [← digit?_eq_some_iff hbase] at h h'
  exact Option.some_inj.mp (h.symm.trans h')

theorem Denotes.unique (hbase : base ≤ 16) {run : List Char} {n n' : Nat} (h : Denotes base run n)
    (h' : Denotes base run n') : n = n' := by
  induction h generalizing n' with
  | nil =>
    cases h'
    rfl
  | cons hdigit _ ih =>
    cases h' with
    | cons hdigit' hrest' => rw [hdigit.unique hbase hdigit', ih hrest']

/-- The number that characters open with is the only one. -/
theorem Opens.unique (hbase : base ≤ 16) {cs run run' : List Char} {n n' : Nat}
    (h : Opens base cs run n) (h' : Opens base cs run' n') : n = n' := by
  obtain ⟨rest, hcs, -⟩ := h.ends
  obtain ⟨rest', hcs', -⟩ := h'.ends
  have hle := h'.longest ⟨rest, hcs.symm⟩ h.denotes
  have hge := h.longest ⟨rest', hcs'.symm⟩ h'.denotes
  obtain rfl : run = run' := hle.eq_of_length_le hge.length_le
  exact h.denotes.unique hbase h'.denotes

theorem exists_opens (hbase : base ≤ 16) (cs : List Char) : ∃ run n, Opens base cs run n := by
  induction cs with
  | nil => exact ⟨[], 0, .nil, [], rfl, fun c hc => nomatch hc⟩
  | cons c cs ih =>
    cases hc : digit? base c with
    | none =>
      refine ⟨[], 0, .nil, c :: cs, rfl, ?_⟩
      rw [← leadingDigits_eq_nil_iff hbase, leadingDigits, hc]
    | some d =>
      obtain ⟨run, n, hdenotes, rest, rfl, hrest⟩ := ih
      exact ⟨c :: run, _, .cons (isDigit_of_digit? hbase hc) hdenotes, rest, rfl, hrest⟩

/-! ## Reading -/

/-- Digits that are read behind a number move it up by as many places as there are, and wrapping around
at every digit comes to the same as reducing the outcome. -/
theorem foldl_leadingDigits (hbase : base ≤ 16) {run rest : List Char} {n : Nat}
    (h : Denotes base run n) (hrest : NoDigit base rest) (acc : Nat) :
    (leadingDigits base (run ++ rest)).foldl (fun acc d => acc * base.toUInt32 + d.toUInt32)
      (UInt32.ofNat acc) = UInt32.ofNat (acc * base ^ run.length + n) := by
  induction h generalizing acc with
  | nil =>
    rw [List.nil_append, (leadingDigits_eq_nil_iff hbase).mpr hrest, List.length_nil, Nat.pow_zero,
      Nat.mul_one, Nat.add_zero]
    rfl
  | @cons c cs d n hdigit _ ih =>
    have hstep : UInt32.ofNat acc * base.toUInt32 + d.toUInt32 = UInt32.ofNat (acc * base + d) := by
      rw [UInt32.ofNat_add, UInt32.ofNat_mul]
    have hplaces : (acc * base + d) * base ^ cs.length + n =
        acc * base ^ (cs.length + 1) + (d * base ^ cs.length + n) := by
      rw [Nat.pow_succ]
      grind
    rw [List.cons_append, leadingDigits_cons hbase hdigit, List.foldl_cons, hstep, ih, hplaces]
    rfl

theorem ofDigits_leadingDigits (hbase : base ≤ 16) {cs run : List Char} {n : Nat}
    (h : Opens base cs run n) : ofDigits base (leadingDigits base cs) = UInt32.ofNat n := by
  obtain ⟨rest, rfl, hrest⟩ := h.ends
  have hfold := foldl_leadingDigits hbase h.denotes hrest 0
  rwa [Nat.zero_mul, Nat.zero_add] at hfold

theorem value?_hexadecimal {s : String} {cs : List Char} (hs : s.toList = '0' :: 'x' :: cs) :
    value? s = some (ofDigits 16 (leadingDigits 16 cs)) := by
  rw [value?, hs]
  rfl

theorem value?_decimal {s : String} (hs : ¬ ['0', 'x'] <+: s.toList) :
    value? s = if leadingDigits 10 s.toList = [] then none
      else some (ofDigits 10 (leadingDigits 10 s.toList)) := by
  unfold value?
  split
  · next cs hcs =>
    rw [hcs] at hs
    exact absurd ⟨cs, rfl⟩ hs
  · split
    · next hnil => rw [if_pos hnil]
    · next hne => rw [if_neg hne]

/-- A text is read as exactly one thing, and this is it. -/
theorem reads_iff {s : String} {result : Except CommandError UInt32} :
    Reads s result ↔ CommandLine.readValue s = result := by
  have hnil : leadingDigits 10 s.toList = [] ↔ NoDigit 10 s.toList :=
    leadingDigits_eq_nil_iff (by decide)
  constructor
  · intro h
    cases h with
    | hexadecimal hs hopens =>
      rw [CommandLine.readValue, value?_hexadecimal hs, ofDigits_leadingDigits (by decide) hopens]
    | decimal hs hdigit hopens =>
      rw [CommandLine.readValue, value?_decimal hs, if_neg (mt hnil.mp hdigit),
        ofDigits_leadingDigits (by decide) hopens]
    | invalid hs hdigit => rw [CommandLine.readValue, value?_decimal hs, if_pos (hnil.mpr hdigit)]
  · rintro rfl
    by_cases hs : ['0', 'x'] <+: s.toList
    · obtain ⟨cs, hcs⟩ := hs
      have hlist : s.toList = '0' :: 'x' :: cs := hcs.symm
      obtain ⟨run, n, hopens⟩ := exists_opens (show 16 ≤ 16 by decide) cs
      rw [CommandLine.readValue, value?_hexadecimal hlist,
        ofDigits_leadingDigits (by decide) hopens]
      exact .hexadecimal hlist hopens
    · rw [CommandLine.readValue, value?_decimal hs]
      by_cases hdigit : NoDigit 10 s.toList
      · rw [if_pos (hnil.mpr hdigit)]
        exact .invalid hs hdigit
      · obtain ⟨run, n, hopens⟩ := exists_opens (show 10 ≤ 16 by decide) s.toList
        rw [if_neg (mt hnil.mp hdigit), ofDigits_leadingDigits (by decide) hopens]
        exact .decimal hs hdigit hopens

/-! ## Numerals that were written -/

/-- A hexadecimal numeral in small letters. -/
def hexadecimal (n : UInt32) : String := String.ofList (Nat.toDigits 16 n.toNat)

/-- A hexadecimal numeral in capital letters. -/
def capitalHexadecimal (n : UInt32) : String :=
  String.ofList ((Nat.toDigits 16 n.toNat).map Char.toUpper)

theorem denotes_toDigits (hone : 1 < base) (n : Nat) : Denotes base (Nat.toDigits base n) n := by
  induction n using Nat.strongRecOn with
  | ind n ih =>
    rw [Nat.toDigits_eq_if hone]
    split
    · next hlt =>
      have hnone : Denotes base [] 0 := .nil
      have hdigit := Denotes.cons ⟨hlt, .inl rfl⟩ hnone
      rwa [List.length_nil, Nat.pow_zero, Nat.mul_one, Nat.add_zero] at hdigit
    · next hge =>
      have hpos : 0 < n := by omega
      have hquotient := ih (n / base) (Nat.div_lt_self hpos hone)
      have hdigits := hquotient.concat ⟨Nat.mod_lt n (by omega), .inl rfl⟩
      rwa [Nat.div_add_mod] at hdigits

theorem Denotes.map_toUpper (hbase : base ≤ 16) {run : List Char} {n : Nat}
    (h : Denotes base run n) : Denotes base (run.map Char.toUpper) n := by
  induction h with
  | nil => exact .nil
  | @cons c cs d n hdigit _ ih =>
    have hcapital : IsDigit base c.toUpper d := by
      obtain ⟨hlt, rfl | rfl⟩ := hdigit
      · exact ⟨hlt, .inr rfl⟩
      · exact ⟨hlt, .inr (toUpper_toUpper_digitChar d (by omega))⟩
    have hlength : (cs.map Char.toUpper).length = cs.length := List.length_map Char.toUpper
    rw [List.map_cons, ← hlength]
    exact .cons hcapital ih

theorem readValue_decimal {n : UInt32} {t : String} (ht : NoDigit 10 t.toList)
    (hs : ¬ ['0', 'x'] <+: (toString n ++ t).toList) :
    CommandLine.readValue (toString n ++ t) = .ok n := by
  have hlist : (toString n ++ t).toList = Nat.toDigits 10 n.toNat ++ t.toList := by
    show (toString n.toNat ++ t).toList = _
    rw [String.toList_append, Nat.toString_eq_ofList_toDigits, String.toList_ofList]
  have hopens : Opens 10 (toString n ++ t).toList (Nat.toDigits 10 n.toNat) n.toNat :=
    ⟨denotes_toDigits (by decide) _, _, hlist, ht⟩
  have hdigit : ¬ NoDigit 10 (toString n ++ t).toList := by
    rw [hlist]
    exact (denotes_toDigits (by decide) _).not_noDigit Nat.toDigits_ne_nil _
  have hreads := Reads.decimal hs hdigit hopens
  rwa [UInt32.ofNat_toNat, reads_iff] at hreads

theorem readValue_hexadecimal {n : UInt32} {run : List Char} (hrun : Denotes 16 run n.toNat)
    {t : String} (ht : NoDigit 16 t.toList) :
    CommandLine.readValue ("0x" ++ String.ofList run ++ t) = .ok n := by
  have hlist : ("0x" ++ String.ofList run ++ t).toList = '0' :: 'x' :: (run ++ t.toList) := by
    rw [String.toList_append, String.toList_append, String.toList_ofList, String.toList_ofList]
    rfl
  have hreads := Reads.hexadecimal hlist ⟨hrun, _, rfl, ht⟩
  rwa [UInt32.ofNat_toNat, reads_iff] at hreads

/-- **The law of numerals.**  A text is read as what its characters say, and as nothing else.  Every text
is read as something; a written number is read back, whatever follows it, as long as that is no digit
and the two do not begin with `0x` by chance. -/
theorem numeral_law :
    (∀ s result, Reads s result ↔ CommandLine.readValue s = result) ∧
    (∀ (n : UInt32) (t : String), NoDigit 10 t.toList →
      ¬ ['0', 'x'] <+: (toString n ++ t).toList →
      CommandLine.readValue (toString n ++ t) = .ok n) ∧
    ∀ (n : UInt32) (t : String), NoDigit 16 t.toList →
      CommandLine.readValue ("0x" ++ hexadecimal n ++ t) = .ok n ∧
      CommandLine.readValue ("0x" ++ capitalHexadecimal n ++ t) = .ok n := by
  refine ⟨fun s result => reads_iff, fun n t ht hs => readValue_decimal ht hs, fun n t ht => ?_⟩
  have hsmall : Denotes 16 (Nat.toDigits 16 n.toNat) n.toNat := denotes_toDigits (by decide) _
  exact ⟨readValue_hexadecimal hsmall ht,
    readValue_hexadecimal (hsmall.map_toUpper (by decide)) ht⟩

/-- What follows a number is not read, and the letters of its digits may be small or capital. -/
theorem numeral_law_followed :
    NoDigit 10 "x10".toList ∧ ¬ ['0', 'x'] <+: (toString (10 : UInt32) ++ "x10").toList ∧
      CommandLine.readValue "10x10" = .ok 10 ∧
      NoDigit 16 "go".toList ∧ CommandLine.readValue "0xdeadbeefgo" = .ok 0xdeadbeef ∧
      CommandLine.readValue "0xDEADBEEFgo" = .ok 0xdeadbeef := by
  have hx : NoDigit 10 "x10".toList := (leadingDigits_eq_nil_iff (by decide)).mp (by decide)
  have hg : NoDigit 16 "go".toList := (leadingDigits_eq_nil_iff (by decide)).mp (by decide)
  have hs : ¬ ['0', 'x'] <+: (toString (10 : UInt32) ++ "x10").toList := by decide
  have hdecimal := numeral_law.2.1 10 "x10" hx hs
  obtain ⟨hsmall, hcapital⟩ := numeral_law.2.2 0xdeadbeef "go" hg
  have hdigits : "0x" ++ hexadecimal 0xdeadbeef ++ "go" = "0xdeadbeefgo" := by decide
  have hcapitals : "0x" ++ capitalHexadecimal 0xdeadbeef ++ "go" = "0xDEADBEEFgo" := by decide
  rw [hdigits] at hsmall
  rw [hcapitals] at hcapital
  exact ⟨hx, hs, hdecimal, hg, hsmall, hcapital⟩

/-- Digits beyond 32 bits wrap around. -/
example : value? "4294967301" = some 5 := by decide

end SerialConsole.Text
