import SerialConsole.Fault

/-!
# The fault latch over whole runs

Faults are raised and the latch is cleared in any order.  What the latch holds is known from the
faults that were raised since it was last cleared: the last fatal one of them, or the last one if
none was fatal, or what it held before if there was none at all.

    (l.afterAll (faults.map .raise)).held = (lastFatal faults).getD (faults.getLast?.getD l.held)

So it is if `l` was cleared; while a fatal fault is active only another fatal one takes its place
(`held_afterAll_raise`).  Clearing leaves everything in the latch but the flag, and that is all that
the next fault looks at: a fatal fault that was cleared keeps no warning out.
-/

namespace SerialConsole.Fault

/-- Every cause is told by its number. -/
theorem Cause.ofByte_toByte (cause : Cause) : Cause.ofByte cause.toByte = cause := by
  cases cause <;> rfl

/-- What a fault is raised with. -/
structure Raised where
  cause : Cause
  severity : Severity
  data : UInt32
  deriving Repr, DecidableEq

/-- What is done to a latch. -/
inductive Act where
  | raise (fault : Raised)
  | clear
  deriving Repr, DecidableEq

def Act.fault? : Act → Option Raised
  | .raise fault => some fault
  | .clear => none

/-- The faults that are raised, in their order. -/
def raised (acts : List Act) : List Raised := acts.filterMap Act.fault?

/-- The last fatal fault among some. -/
def lastFatal (faults : List Raised) : Option Raised :=
  (faults.filter fun fault => fault.severity = .fatal).getLast?

theorem lastFatal_cons (fault : Raised) (faults : List Raised) :
    lastFatal (fault :: faults) =
      (lastFatal faults).or (if fault.severity = .fatal then some fault else none) := by
  unfold lastFatal
  by_cases h : fault.severity = .fatal
  · rw [List.filter_cons_of_pos (by simpa using h), List.getLast?_cons, if_pos h]
    cases (faults.filter fun fault => fault.severity = .fatal).getLast? <;> rfl
  · rw [List.filter_cons_of_neg (by simpa using h), if_neg h, Option.or_none]

namespace Latch

/-- The fault that a latch holds, active or not. -/
def held (l : Latch) : Raised := ⟨l.cause, l.severity, l.data⟩

def after (l : Latch) : Act → Latch
  | .raise fault => l.raise fault.cause fault.severity fault.data
  | .clear => l.clear

def afterAll (l : Latch) (acts : List Act) : Latch := acts.foldl after l

theorem afterAll_append (l : Latch) (acts acts' : List Act) :
    l.afterAll (acts ++ acts') = (l.afterAll acts).afterAll acts' :=
  List.foldl_append

/-! ## One fault -/

theorem active_of_isFatal {l : Latch} (h : l.isFatal = true) : l.active = true :=
  (Bool.and_eq_true_iff.mp h).1

theorem active_raise (l : Latch) (fault : Raised) : (l.after (.raise fault)).active = true := by
  simp only [after, raise]
  split
  · next h => exact active_of_isFatal (Bool.and_eq_true_iff.mp h).1
  · rfl

/-- A warning is not let in while a fatal fault is active; any other fault is. -/
theorem held_raise (l : Latch) (fault : Raised) :
    (l.after (.raise fault)).held =
      if l.isFatal = true ∧ fault.severity = .warning then l.held else fault := by
  simp only [after, raise, Bool.and_eq_true, beq_iff_eq]
  split <;> rfl

theorem isFatal_raise (l : Latch) (fault : Raised) :
    (l.after (.raise fault)).isFatal = (l.isFatal || fault.severity == .fatal) := by
  simp only [after, raise]
  split
  · next h =>
    have hfatal : l.isFatal = true := (Bool.and_eq_true_iff.mp h).1
    rw [hfatal, Bool.true_or]
    exact hfatal
  · next h =>
    cases hfatal : l.isFatal with
    | false => rfl
    | true =>
      rw [hfatal, Bool.true_and] at h
      cases hseverity : fault.severity with
      | warning => rw [hseverity] at h; exact absurd rfl h
      | fatal => rfl

theorem count_after (l : Latch) (a : Act) :
    (l.after a).count = l.count + UInt32.ofNat (raised [a]).length := by
  cases a with
  | raise fault =>
    simp only [after, raise]
    split <;> rfl
  | clear => exact (UInt32.add_zero _).symm

/-! ## Runs -/

theorem active_afterAll_raise (l : Latch) (faults : List Raised) :
    (l.afterAll (faults.map .raise)).active = true ↔ l.active = true ∨ faults ≠ [] := by
  induction faults generalizing l with
  | nil => exact ⟨.inl, fun h => h.resolve_right fun hne => hne rfl⟩
  | cons fault faults ih =>
    refine (ih (l.after (.raise fault))).trans ?_
    rw [active_raise]
    exact ⟨fun _ => .inr (List.cons_ne_nil _ _), fun _ => .inl rfl⟩

theorem isFatal_afterAll_raise (l : Latch) (faults : List Raised) :
    (l.afterAll (faults.map .raise)).isFatal = (l.isFatal || (lastFatal faults).isSome) := by
  induction faults generalizing l with
  | nil => exact (Bool.or_false _).symm
  | cons fault faults ih =>
    refine (ih (l.after (.raise fault))).trans ?_
    rw [isFatal_raise, lastFatal_cons, Bool.or_assoc]
    congr 1
    cases fault.severity with
    | warning => exact congrArg Option.isSome (Option.or_none).symm
    | fatal => cases lastFatal faults <;> rfl

/-- The last fatal fault is held; without one the last fault is, unless a fatal one was active
before. -/
theorem held_afterAll_raise (l : Latch) (faults : List Raised) :
    (l.afterAll (faults.map .raise)).held =
      (lastFatal faults).getD
        (if l.isFatal = true then l.held else faults.getLast?.getD l.held) := by
  -- from any latch: after the first fault the others meet a latch that may be fatal
  induction faults generalizing l with
  | nil => exact (ite_self l.held).symm
  | cons fault faults ih =>
    refine (ih (l.after (.raise fault))).trans ?_
    rw [isFatal_raise, held_raise, lastFatal_cons, List.getLast?_cons]
    cases fault.severity with
    | fatal =>
      simp only [reduceCtorEq, and_false, if_false, if_true, BEq.rfl, Bool.or_true]
      cases lastFatal faults <;> rfl
    | warning =>
      by_cases h : l.isFatal = true <;> simp [h]

theorem count_afterAll (l : Latch) (acts : List Act) :
    (l.afterAll acts).count = l.count + UInt32.ofNat (raised acts).length := by
  induction acts generalizing l with
  | nil => exact (UInt32.add_zero _).symm
  | cons a acts ih =>
    have hraised : raised (a :: acts) = raised [a] ++ raised acts :=
      List.filterMap_append (l := [a])
    refine (ih (l.after a)).trans ?_
    rw [count_after, hraised, List.length_append, UInt32.ofNat_add, UInt32.add_assoc]

/-! ## From the start -/

/-- Acts are divided by the last time that they clear the latch: those up to it, and the faults that
are raised after it.  If they never clear the latch, all of them come after. -/
structure LastCleared (acts before : List Act) (faults : List Raised) : Prop where
  eq : acts = before ++ faults.map .raise
  cleared : before = [] ∨ ∃ earlier, before = earlier ++ [.clear]

theorem exists_lastCleared (acts : List Act) : ∃ before faults, LastCleared acts before faults := by
  -- an act put in front matters only while nothing behind it clears the latch
  induction acts with
  | nil => exact ⟨[], [], rfl, .inl rfl⟩
  | cons a acts ih =>
    obtain ⟨before, faults, rfl, rfl | ⟨earlier, rfl⟩⟩ := ih
    · cases a with
      | raise fault => exact ⟨[], fault :: faults, rfl, .inl rfl⟩
      | clear => exact ⟨[.clear], faults, rfl, .inr ⟨[], rfl⟩⟩
    · exact ⟨a :: earlier ++ [.clear], faults, rfl, .inr ⟨a :: earlier, rfl⟩⟩

/-- What is known of a new latch after acts of which `faults` were raised since it was last
cleared. -/
structure Known (acts before : List Act) (faults : List Raised) (l : Latch) : Prop where
  active : l.active = true ↔ faults ≠ []
  fatal : ∀ fault, lastFatal faults = some fault → l.held = fault
  warning : lastFatal faults = none → ∀ fault, faults.getLast? = some fault → l.held = fault
  /-- Nothing since: it holds what it held when it was cleared, or at the start. -/
  stale : faults = [] → (before = [] → l.held = quiet.held) ∧
    ∀ earlier, before = earlier ++ [.clear] → l.held = (quiet.afterAll earlier).held
  isFatal : l.isFatal = true ↔ ∃ fault, lastFatal faults = some fault
  count : l.count = UInt32.ofNat (raised acts).length
  /-- The number that a cause is kept as tells the cause. -/
  number : Cause.ofByte l.cause.toByte = l.cause

theorem active_of_lastCleared {acts before : List Act} {faults : List Raised}
    (h : LastCleared acts before faults) : (quiet.afterAll before).active = false := by
  obtain rfl | ⟨earlier, rfl⟩ := h.cleared
  · rfl
  · rw [afterAll_append]
    rfl

theorem known_of_lastCleared {acts before : List Act} {faults : List Raised}
    (h : LastCleared acts before faults) : Known acts before faults (quiet.afterAll acts) := by
  have hidle := active_of_lastCleared h
  have hnot : (quiet.afterAll before).isFatal = false := by rw [isFatal, hidle, Bool.false_and]
  have hsplit : quiet.afterAll acts = (quiet.afterAll before).afterAll (faults.map .raise) := by
    rw [h.eq, afterAll_append]
  have hheld : (quiet.afterAll acts).held =
      (lastFatal faults).getD (faults.getLast?.getD (quiet.afterAll before).held) := by
    rw [hsplit, held_afterAll_raise, hnot, if_neg Bool.false_ne_true]
  refine ⟨?_, ?_, ?_, ?_, ?_, ?_, Cause.ofByte_toByte _⟩
  · rw [hsplit, active_afterAll_raise, hidle]
    exact ⟨fun hor => hor.resolve_left Bool.false_ne_true, .inr⟩
  · intro fault hfatal
    rw [hheld, hfatal, Option.getD_some]
  · intro hnone fault hlast
    rw [hheld, hnone, hlast, Option.getD_none, Option.getD_some]
  · intro hnil
    have hbefore : (quiet.afterAll acts).held = (quiet.afterAll before).held := by
      rw [hheld, hnil]
      rfl
    refine ⟨?_, ?_⟩
    · rintro rfl
      exact hbefore
    · rintro earlier rfl
      rw [hbefore, afterAll_append]
      rfl
  · rw [hsplit, isFatal_afterAll_raise, hnot, Bool.false_or, Option.isSome_iff_exists]
  · rw [count_afterAll]
    exact UInt32.zero_add _

/-- **The latch law.**  Whatever is done to a new latch, it is active exactly if a fault was raised
since it was last cleared.  It then holds the last fatal fault since, or the last fault if none was
fatal; otherwise it holds what it held when it was cleared.  It is fatal exactly in the first case,
and it counts every fault, whether or not it was let in. -/
theorem latch_law (acts : List Act) :
    ∃ before faults, LastCleared acts before faults ∧
      Known acts before faults (quiet.afterAll acts) := by
  obtain ⟨before, faults, h⟩ := exists_lastCleared acts
  exact ⟨before, faults, h, known_of_lastCleared h⟩

/-- A fatal fault that was cleared keeps no warning out. -/
example :
    (quiet.afterAll [.raise ⟨.tableFull, .fatal, 22⟩, .clear, .raise ⟨.receiveStopped, .warning, 0⟩]) =
      ⟨true, .receiveStopped, .warning, 0, 2⟩ := by
  decide

end Latch

end SerialConsole.Fault
