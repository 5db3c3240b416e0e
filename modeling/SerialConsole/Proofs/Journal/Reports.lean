import SerialConsole.Journal.Report
import SerialConsole.Proofs.Journal.Queue

/-!
# What a report does to the journals

A report that names no journal twice prints what is in the chosen journals, all of the first, oldest
entry first, then all of the second, and so on; then it tells how many entries were dropped, if any
were (`flush_prints`).  The chosen journals are empty afterwards and the others are as they were.

    k ∈ chosen  →  ((flush js chosen).journals.get k).queue.records = []    (records_flush_of_mem)
    k ∉ chosen  →  (flush js chosen).journals.get k = js.get k              (get_flush_of_not_mem)

What the journals lose is what was printed and told of, nothing more and nothing less: that is an
equation between sums over all journals (`total_records_flush`, `total_dropped_flush`).
-/

namespace SerialConsole.Journal

/-! ## Sums -/

/-- What the elements of a list come to. -/
def total {α : Type} (f : α → Nat) (l : List α) : Nat := l.foldr (fun a n => f a + n) 0

@[simp] theorem total_nil {α : Type} (f : α → Nat) : total f [] = 0 := rfl

@[simp] theorem total_cons {α : Type} (f : α → Nat) (a : α) (l : List α) :
    total f (a :: l) = f a + total f l := rfl

theorem total_congr {α : Type} {f g : α → Nat} {l : List α} (h : ∀ a ∈ l, f a = g a) :
    total f l = total g l := by
  induction l with
  | nil => rfl
  | cons a l ih =>
    rw [total_cons, total_cons, h a List.mem_cons_self,
      ih fun b hb => h b (List.mem_cons_of_mem a hb)]

theorem le_total {α : Type} (f : α → Nat) {l : List α} {a : α} (h : a ∈ l) : f a ≤ total f l := by
  induction h with
  | head l => exact Nat.le_add_right _ _
  | tail b _ ih => exact Nat.le_trans ih (Nat.le_add_left _ _)

/-- If one element is replaced, the sum changes by the difference of the two. -/
theorem total_set {α : Type} (f : α → Nat) (l : List α) {i : Nat} (h : i < l.length) (a : α) :
    total f (l.set i a) + f l[i] = total f l + f a := by
  induction l generalizing i with
  | nil => cases h
  | cons b l ih =>
    cases i with
    | zero =>
      simp only [List.set_cons_zero, total_cons, List.getElem_cons_zero]
      omega
    | succ i =>
      have hrest := ih (Nat.lt_of_succ_lt_succ h)
      simp only [List.set_cons_succ, total_cons, List.getElem_cons_succ]
      omega

variable {size count : Nat}

theorem total_vector_set (f : Journal size → Nat) (js : Vector (Journal size) count) (i : Fin count)
    (j : Journal size) :
    total f (js.set i j i.isLt).toList + f (js.get i) = total f js.toList + f j := by
  have hi : i.val < js.toList.length := by
    rw [Vector.length_toList]
    exact i.isLt
  rw [Vector.toList_set, ← total_set f js.toList hi j, Vector.getElem_toList]
  rfl

theorem le_total_get (f : Journal size → Nat) (js : Vector (Journal size) count) (i : Fin count) :
    f (js.get i) ≤ total f js.toList := by
  have hmem : js.get i ∈ js.toList := by
    have hi : i.val < js.toList.length := by
      rw [Vector.length_toList]
      exact i.isLt
    rw [show js.get i = js.toList[i.val] from (Vector.getElem_toList hi).symm]
    exact List.getElem_mem hi
  exact le_total f hmem

theorem get_set (js : Vector (Journal size) count) (i k : Fin count) (j : Journal size) :
    (js.set i j i.isLt).get k = if i = k then j else js.get k := by
  by_cases h : i = k
  · subst h
    rw [if_pos rfl]
    exact Vector.getElem_set_self _
  · rw [if_neg h]
    exact Vector.getElem_set_ne _ _ fun hval => h (Fin.ext hval)

/-- A journal that is not in a list can be replaced, and those in the list are the same. -/
theorem get_set_of_mem (js : Vector (Journal size) count) {i k : Fin count}
    {rest : List (Fin count)} (hi : i ∉ rest) (hk : k ∈ rest) (j : Journal size) :
    (js.set i j i.isLt).get k = js.get k := by
  rw [get_set, if_neg]
  rintro rfl
  exact hi hk

/-- The sum depends on what each journal comes to, and on nothing else. -/
theorem total_eq_of_get {f : Journal size → Nat} {js js' : Vector (Journal size) count}
    (h : ∀ k, f (js'.get k) = f (js.get k)) : total f js.toList = total f js'.toList := by
  have hmap : js.toList.map f = js'.toList.map f := by
    apply List.ext_getElem
    · rw [List.length_map, List.length_map, Vector.length_toList, Vector.length_toList]
    · intro k hk hk'
      rw [List.length_map, Vector.length_toList] at hk
      rw [List.getElem_map, List.getElem_map, Vector.getElem_toList, Vector.getElem_toList]
      exact (h ⟨k, hk⟩).symm
  have hsum : ∀ l : List (Journal size), total f l = total id (l.map f) := by
    intro l
    rw [total, total, List.foldr_map]
    rfl
  rw [hsum, hsum, hmap]

/-- If some journals come to nothing and the others stay as they are, the sum loses what those
came to. -/
theorem total_eq_add_total {f : Journal size → Nat} {chosen : List (Fin count)}
    (hd : chosen.Nodup) (js js' : Vector (Journal size) count)
    (hzero : ∀ k ∈ chosen, f (js'.get k) = 0)
    (hsame : ∀ k, k ∉ chosen → f (js'.get k) = f (js.get k)) :
    total f js.toList = total (fun k => f (js.get k)) chosen + total f js'.toList := by
  -- the chosen journals are replaced one by one by what they are afterwards
  induction chosen generalizing js with
  | nil =>
    rw [total_nil, Nat.zero_add]
    exact total_eq_of_get fun k => hsame k List.not_mem_nil
  | cons i rest ih =>
    obtain ⟨hi, hrest⟩ := List.nodup_cons.mp hd
    have hset := total_vector_set f js i (js'.get i)
    have hothers : total (fun k => f ((js.set i (js'.get i) i.isLt).get k)) rest =
        total (fun k => f (js.get k)) rest :=
      total_congr fun k hk => by rw [get_set_of_mem js hi hk]
    have hih := ih hrest (js.set i (js'.get i) i.isLt)
      (fun k hk => hzero k (List.mem_cons_of_mem i hk)) (by
        intro k hk
        rw [get_set]
        split
        · next h => rw [h]
        · next h => exact hsame k fun hmem => (List.mem_cons.mp hmem).elim (fun he => h he.symm) hk)
    rw [hzero i List.mem_cons_self] at hset
    rw [hothers] at hih
    rw [total_cons]
    omega

variable [HasSlots size]

/-! ## One journal -/

/-- An entry that is offered goes behind the newest one, or is counted as dropped. -/
theorem push_cases (h : RingSize size) (j : Journal size) (stamp : Int) (level : Level)
    (tag : String) (message : Bytes) :
    (∃ k, j.push stamp level tag message = (k, true) ∧
      k.queue = ⟨j.queue.records ++ [Record.made stamp level tag message], j.dropped⟩) ∨
    ∃ k, j.push stamp level tag message = (k, false) ∧
      k.queue = ⟨j.queue.records, j.dropped + 1⟩ := by
  by_cases hfull : size ≤ j.pending.toNat
  · exact .inr ⟨_, push_of_full hfull stamp level tag message, rfl⟩
  · exact .inl (queue_of_room h (Nat.lt_of_not_le hfull) stamp level tag message)

/-- The oldest entry is taken, if there is one. -/
theorem drain?_cases (j : Journal size) :
    (j.drain? = none ∧ j.queue.records = []) ∨
    ∃ entry k, j.drain? = some (entry, k) ∧
      j.queue = ⟨entry.shown :: k.queue.records, k.dropped⟩ := by
  by_cases hempty : j.pending.toNat = 0
  · refine .inl ⟨drain?_of_empty hempty, ?_⟩
    rw [← List.length_eq_zero_iff, length_queue]
    exact hempty
  · obtain ⟨k, hdrain, hqueue⟩ := queue_of_pending hempty
    exact .inr ⟨_, k, hdrain, hqueue⟩

theorem drainUpTo_eq {n : Nat} {j : Journal size} (hn : j.queue.records.length ≤ n) :
    ∃ entries k, drainUpTo n j = (entries, k) ∧ entries.map Entry.shown = j.queue.records ∧
      k.queue = ⟨[], j.dropped⟩ := by
  induction n generalizing j with
  | zero =>
    have hnil : j.queue.records = [] := List.length_eq_zero_iff.mp (Nat.le_zero.mp hn)
    exact ⟨[], j, rfl, hnil.symm, congrArg (Queue.mk · j.dropped) hnil⟩
  | succ n ih =>
    rcases drain?_cases j with ⟨hnone, hnil⟩ | ⟨entry, k, hsome, hqueue⟩
    · refine ⟨[], j, ?_, hnil.symm, congrArg (Queue.mk · j.dropped) hnil⟩
      simp only [drainUpTo, hnone]
    · have hrecords : j.queue.records = entry.shown :: k.queue.records := congrArg _ hqueue
      have hdropped : j.dropped = k.dropped := congrArg Queue.dropped hqueue
      rw [hrecords] at hn
      obtain ⟨entries, last, hrest, hshown, hlast⟩ := ih (Nat.le_of_succ_le_succ hn)
      refine ⟨entry :: entries, last, ?_, ?_, ?_⟩
      · simp only [drainUpTo, hsome, hrest]
      · rw [List.map_cons, hshown, hrecords]
      · rw [hlast, hdropped]

/-- All entries are taken in their order, and the drops are still counted. -/
theorem drainAll_eq (j : Journal size) :
    j.drainAll.1.map Entry.shown = j.queue.records ∧ j.drainAll.2.queue = ⟨[], j.dropped⟩ := by
  obtain ⟨entries, k, hdrain, hshown, hqueue⟩ := drainUpTo_eq (Nat.le_of_eq j.length_queue)
  rw [drainAll, hdrain]
  exact ⟨hshown, hqueue⟩

theorem length_drainAll (j : Journal size) :
    j.drainAll.1.length = j.queue.records.length := by
  rw [← (drainAll_eq j).1, List.length_map]

/-! ## Reports -/

/-- The entries that a report prints, each with the journal that it comes from. -/
def printed (js : Vector (Journal size) count) (chosen : List (Fin count)) :
    List (Fin count × Entry) :=
  chosen.flatMap fun i => (js.get i).drainAll.1.map fun entry => (i, entry)

/-- The entries of a journal are printed where the report comes to it. -/
theorem printed_cons (js : Vector (Journal size) count) (i : Fin count) (rest : List (Fin count)) :
    printed js (i :: rest) = ((js.get i).drainAll.1.map fun entry => (i, entry)) ++ printed js rest :=
  List.flatMap_cons

theorem printed_set {i : Fin count} {rest : List (Fin count)} (hi : i ∉ rest)
    (js : Vector (Journal size) count) (j : Journal size) :
    printed (js.set i j i.isLt) rest = printed js rest := by
  rw [printed, printed, List.flatMap_def, List.flatMap_def]
  congr 1
  apply List.map_congr_left
  intro k hk
  rw [get_set_of_mem js hi hk]

/-- What a report without a notice comes to. -/
theorem printEntries_eq {chosen : List (Fin count)} (hd : chosen.Nodup)
    (js : Vector (Journal size) count) :
    (printEntries js chosen).output =
        String.join ((printed js chosen).map fun p => p.2.render) ∧
      (printEntries js chosen).written = (printed js chosen).length ∧
      (printEntries js chosen).dropped = 0 ∧
      (∀ k ∈ chosen, (printEntries js chosen).journals.get k = (js.get k).drainAll.2) ∧
      ∀ k, k ∉ chosen → (printEntries js chosen).journals.get k = js.get k := by
  induction chosen generalizing js with
  | nil => exact ⟨rfl, rfl, rfl, fun k hk => (nomatch hk), fun k _ => rfl⟩
  | cons i rest ih =>
    obtain ⟨hi, hrest⟩ := List.nodup_cons.mp hd
    obtain ⟨houtput, hwritten, hdropped, hemptied, hkept⟩ :=
      ih hrest (js.set i (js.get i).drainAll.2 i.isLt)
    rw [printed_set hi] at houtput hwritten
    refine ⟨?_, ?_, hdropped, ?_, ?_⟩
    · show String.join ((js.get i).drainAll.1.map Entry.render) ++
        (printEntries (js.set i (js.get i).drainAll.2 i.isLt) rest).output = _
      rw [houtput, printed_cons, List.map_append, List.map_map, String.join_append]
      rfl
    · show (js.get i).drainAll.1.length +
        (printEntries (js.set i (js.get i).drainAll.2 i.isLt) rest).written = _
      rw [hwritten, printed_cons, List.length_append, List.length_map]
    · intro k hk
      show (printEntries (js.set i (js.get i).drainAll.2 i.isLt) rest).journals.get k = _
      rcases List.mem_cons.mp hk with rfl | hk
      · rw [hkept _ hi, get_set, if_pos rfl]
      · rw [hemptied k hk, get_set_of_mem js hi hk]
    · intro k hk
      show (printEntries (js.set i (js.get i).drainAll.2 i.isLt) rest).journals.get k = _
      obtain ⟨hne, hk⟩ := not_or.mp (mt List.mem_cons.mpr hk)
      rw [hkept k hk, get_set, if_neg fun h => hne h.symm]

omit [HasSlots size] in
theorem get_resetDrops_of_not_mem (js : Vector (Journal size) count) {chosen : List (Fin count)}
    {k : Fin count} (hk : k ∉ chosen) : (resetDrops js chosen).get k = js.get k := by
  induction chosen generalizing js with
  | nil => rfl
  | cons i rest ih =>
    obtain ⟨hne, hk⟩ := not_or.mp (mt List.mem_cons.mpr hk)
    show (resetDrops (js.set i (js.get i).resetDropped i.isLt) rest).get k = _
    rw [ih _ hk, get_set, if_neg fun h => hne h.symm]

omit [HasSlots size] in
theorem get_resetDrops_of_mem (js : Vector (Journal size) count) {chosen : List (Fin count)}
    {k : Fin count} (hk : k ∈ chosen) :
    (resetDrops js chosen).get k = (js.get k).resetDropped := by
  induction chosen generalizing js with
  | nil => cases hk
  | cons i rest ih =>
    show (resetDrops (js.set i (js.get i).resetDropped i.isLt) rest).get k = _
    by_cases hrest : k ∈ rest
    · rw [ih _ hrest, get_set]
      split
      · next h => rw [h]; rfl
      · rfl
    · obtain rfl : k = i := (List.mem_cons.mp hk).resolve_right hrest
      rw [get_resetDrops_of_not_mem _ hrest, get_set, if_pos rfl]

omit [HasSlots size] in
/-- The drops of the chosen journals are added up as they are, if 32 bits can tell them. -/
theorem toNat_totalDropped {js : Vector (Journal size) count} {chosen : List (Fin count)}
    (hfew : total (fun k => (js.get k).dropped.toNat) chosen < UInt32.size) :
    (totalDropped js chosen).toNat = total (fun k => (js.get k).dropped.toNat) chosen := by
  have hsum : ∀ n : UInt32,
      n.toNat + total (fun k => (js.get k).dropped.toNat) chosen < UInt32.size →
      (chosen.foldl (fun sum k => sum + (js.get k).dropped) n).toNat =
        n.toNat + total (fun k => (js.get k).dropped.toNat) chosen := by
    clear hfew
    induction chosen with
    | nil => exact fun n _ => rfl
    | cons i rest ih =>
      intro n hn
      rw [total_cons] at hn ⊢
      have hadd : (n + (js.get i).dropped).toNat = n.toNat + (js.get i).dropped.toNat := by
        rw [UInt32.toNat_add]
        exact Nat.mod_eq_of_lt (show _ < UInt32.size by omega)
      rw [List.foldl_cons, ih _ (by omega), hadd, Nat.add_assoc]
  rw [totalDropped, hsum 0 (by rwa [UInt32.toNat_zero, Nat.zero_add]), UInt32.toNat_zero,
    Nat.zero_add]

/-- A report ends with a notice of what was dropped, unless nothing was. -/
theorem flush_cases (js : Vector (Journal size) count) (chosen : List (Fin count)) :
    (totalDropped (printEntries js chosen).journals chosen = 0 ∧
      flush js chosen = printEntries js chosen) ∨
    (totalDropped (printEntries js chosen).journals chosen ≠ 0 ∧
      flush js chosen =
        { printEntries js chosen with
          output := (printEntries js chosen).output ++
            dropNotice (totalDropped (printEntries js chosen).journals chosen)
          dropped := totalDropped (printEntries js chosen).journals chosen
          journals := resetDrops (printEntries js chosen).journals chosen }) := by
  by_cases h : totalDropped (printEntries js chosen).journals chosen = 0
  · exact .inl ⟨h, if_pos h⟩
  · exact .inr ⟨h, if_neg h⟩

/-- The notice of a report, if it has one. -/
def notice (dropped : UInt32) : String := if dropped = 0 then "" else dropNotice dropped

/-- A report prints the entries of the chosen journals, one journal after the other, and then the
notice. -/
theorem flush_prints {chosen : List (Fin count)} (hd : chosen.Nodup)
    (js : Vector (Journal size) count) :
    (flush js chosen).output = String.join ((printed js chosen).map fun p => p.2.render) ++
        notice (flush js chosen).dropped ∧
      (flush js chosen).written = (printed js chosen).length := by
  obtain ⟨houtput, hwritten, hdropped, -⟩ := printEntries_eq hd js
  rcases flush_cases js chosen with ⟨-, h⟩ | ⟨hne, h⟩
  · rw [h, notice, if_pos hdropped, String.append_empty]
    exact ⟨houtput, hwritten⟩
  · rw [h]
    refine ⟨?_, hwritten⟩
    show (printEntries js chosen).output ++ dropNotice _ = _ ++ notice _
    rw [notice, if_neg hne, houtput]

/-- A report leaves nothing in the chosen journals. -/
theorem records_flush_of_mem {chosen : List (Fin count)} (hd : chosen.Nodup)
    (js : Vector (Journal size) count) {k : Fin count} (hk : k ∈ chosen) :
    ((flush js chosen).journals.get k).queue.records = [] := by
  obtain ⟨-, -, -, hemptied, -⟩ := printEntries_eq hd js
  have hnil : ((printEntries js chosen).journals.get k).queue.records = [] := by
    rw [hemptied k hk, (drainAll_eq _).2]
  rcases flush_cases js chosen with ⟨-, h⟩ | ⟨-, h⟩
  · rw [h, hnil]
  · rw [h]
    show ((resetDrops (printEntries js chosen).journals chosen).get k).queue.records = []
    rw [get_resetDrops_of_mem _ hk]
    exact hnil

/-- A report does nothing to the other journals. -/
theorem get_flush_of_not_mem {chosen : List (Fin count)} (hd : chosen.Nodup)
    (js : Vector (Journal size) count) {k : Fin count} (hk : k ∉ chosen) :
    (flush js chosen).journals.get k = js.get k := by
  obtain ⟨-, -, -, -, hkept⟩ := printEntries_eq hd js
  rcases flush_cases js chosen with ⟨-, h⟩ | ⟨-, h⟩
  · rw [h, hkept k hk]
  · rw [h]
    show (resetDrops (printEntries js chosen).journals chosen).get k = _
    rw [get_resetDrops_of_not_mem _ hk, hkept k hk]

/-- As many entries are printed as the journals lose. -/
theorem total_records_flush {chosen : List (Fin count)} (hd : chosen.Nodup)
    (js : Vector (Journal size) count) :
    total (fun j => j.queue.records.length) js.toList = (printed js chosen).length +
      total (fun j => j.queue.records.length) (flush js chosen).journals.toList := by
  have hlength : (printed js chosen).length =
      total (fun k => (js.get k).queue.records.length) chosen := by
    clear hd
    induction chosen with
    | nil => rfl
    | cons i rest ih =>
      rw [printed_cons, List.length_append, List.length_map, length_drainAll, ih, total_cons]
  rw [hlength]
  refine total_eq_add_total hd _ _ ?_ ?_
  · intro k hk
    rw [records_flush_of_mem hd js hk, List.length_nil]
  · intro k hk
    rw [get_flush_of_not_mem hd js hk]

/-- A report tells of as many drops as the journals count no longer. -/
theorem total_dropped_flush {chosen : List (Fin count)} (hd : chosen.Nodup)
    (js : Vector (Journal size) count)
    (hfew : total (fun j => j.dropped.toNat) js.toList < UInt32.size) :
    total (fun j => j.dropped.toNat) js.toList = (flush js chosen).dropped.toNat +
      total (fun j => j.dropped.toNat) (flush js chosen).journals.toList := by
  obtain ⟨-, -, hdropped, hemptied, hkept⟩ := printEntries_eq hd js
  have hsame : total (fun j => j.dropped.toNat) js.toList =
      total (fun j => j.dropped.toNat) (printEntries js chosen).journals.toList := by
    refine total_eq_of_get fun k => ?_
    by_cases hk : k ∈ chosen
    · rw [hemptied k hk]
      exact congrArg (fun q => q.dropped.toNat) (drainAll_eq (js.get k)).2
    · rw [hkept k hk]
  have hreset : total (fun j => j.dropped.toNat) (printEntries js chosen).journals.toList =
      total (fun k => ((printEntries js chosen).journals.get k).dropped.toNat) chosen +
        total (fun j => j.dropped.toNat)
          (resetDrops (printEntries js chosen).journals chosen).toList := by
    refine total_eq_add_total hd _ _ ?_ ?_
    · intro k hk
      rw [get_resetDrops_of_mem _ hk]
      rfl
    · intro k hk
      rw [get_resetDrops_of_not_mem _ hk]
  rcases flush_cases js chosen with ⟨-, h⟩ | ⟨-, h⟩
  · rw [h, hdropped, UInt32.toNat_zero, Nat.zero_add]
    exact hsame
  · rw [h]
    show _ = (totalDropped (printEntries js chosen).journals chosen).toNat +
      total _ (resetDrops (printEntries js chosen).journals chosen).toList
    rw [toNat_totalDropped (by omega), ← hreset, hsame]

end SerialConsole.Journal
