import SerialConsole.Proofs.Journal.Reports

/-!
# What a report prints

A report takes the entries of the chosen journals out one by one, and hands the line of each to a sink
as soon as it is out; the notice of what was dropped comes last, if anything was.

    entries of chosen[0], oldest first
    entries of chosen[1], oldest first
    ...
    [WARN] Dropped: n log entries            if n, the sum of the counts, is not zero

What the sink does with a line is not asked: it may take all of it, a part, or none.  The journals and
the number of entries are the same for every sink (`flushInto_eq`), and a sink that takes everything
ends up with the output of the report.  A report right behind another one finds nothing to print.
-/

namespace SerialConsole.Journal

variable {σ : Type} {size count : Nat} [HasSlots size]

/-- The entries in the queue, oldest first. -/
def entries (j : Journal size) : List Entry := (List.range j.pending.toNat).map j.entryAt

/-! ## Taking all entries of a journal -/

theorem map_shown_entries (j : Journal size) : j.entries.map Entry.shown = j.queue.records :=
  List.map_map

theorem length_entries (j : Journal size) : j.entries.length = j.pending.toNat := by
  rw [entries, List.length_map, List.length_range]

/-- An entry comes out of a journal exactly if there is one, and it is the oldest. -/
theorem drain?_eq_none_iff {j : Journal size} : j.drain? = none ↔ j.pending.toNat = 0 := by
  refine ⟨fun hnone => ?_, drain?_of_empty⟩
  refine Decidable.byContradiction fun hsome => ?_
  obtain ⟨k, hdrain, -⟩ := drain?_of_pending hsome
  rw [hnone] at hdrain
  cases hdrain

theorem of_drain?_eq_some {j k : Journal size} {entry : Entry} (h : j.drain? = some (entry, k)) :
    j.entries = entry :: k.entries ∧ j.pending.toNat = k.pending.toNat + 1 := by
  have hsome : j.pending.toNat ≠ 0 := by
    intro hempty
    rw [drain?_of_empty hempty] at h
    cases h
  obtain ⟨k', hdrain, hpending, hrest, -⟩ := drain?_of_pending hsome
  rw [h] at hdrain
  cases hdrain
  refine ⟨?_, hpending.symm⟩
  rw [entries, ← hpending, List.range_succ_eq_map, List.map_cons, List.map_map]
  congr 1
  apply List.map_congr_left
  intro i _
  exact (hrest i).symm

theorem drainAll_of_none {j : Journal size} (h : j.drain? = none) : j.drainAll = ([], j) := by
  rw [drainAll, drain?_eq_none_iff.mp h]
  rfl

theorem drainAll_of_some {j k : Journal size} {entry : Entry} (h : j.drain? = some (entry, k)) :
    j.drainAll = (entry :: k.drainAll.1, k.drainAll.2) := by
  rw [drainAll, (of_drain?_eq_some h).2]
  simp only [drainUpTo, h, drainAll]

theorem drainAll_fst (j : Journal size) : j.drainAll.1 = j.entries := by
  induction hn : j.pending.toNat generalizing j with
  | zero =>
    rw [drainAll, entries, hn]
    rfl
  | succ n ih =>
    obtain ⟨k, hdrain, hpending, -⟩ := drain?_of_pending (j := j) (by omega)
    rw [drainAll_of_some hdrain, (of_drain?_eq_some hdrain).1, ih k (by omega)]

/-- The drops that the chosen journals count, all together. -/
def dropsOf (js : Vector (Journal size) count) (chosen : List (Fin count)) : Nat :=
  total (fun i => (js.get i).dropped.toNat) chosen

/-! ## Sinks -/

/-- What is handed to a sink at once. -/
inductive Printout where
  | entry (entry : Entry)
  | drops (number : UInt32)

/-- The line of a printout. -/
def Printout.text : Printout → String
  | entry e => e.render
  | drops n => dropNotice n

/-- What a report hands to its sink, first to last. -/
def printouts (js : Vector (Journal size) count) (chosen : List (Fin count)) : List Printout :=
  (chosen.flatMap fun i => (js.get i).entries).map .entry ++
    if dropsOf js chosen = 0 then [] else [.drops (UInt32.ofNat (dropsOf js chosen))]

/-- Takes the entries of a journal one by one, and hands each to the sink; tells how many there
were. -/
def pour (sink : σ → Printout → σ) (out : σ) (j : Journal size) : σ × Nat × Journal size :=
  match h : j.drain? with
  | none => (out, 0, j)
  | some (entry, rest) =>
    have : rest.pending.toNat < j.pending.toNat := Nat.le_of_eq (of_drain?_eq_some h).2.symm
    let others := pour sink (sink out (.entry entry)) rest
    (others.1, others.2.1 + 1, others.2.2)
termination_by j.pending.toNat

/-- Does so with the chosen journals, one after the other. -/
def pourAll (sink : σ → Printout → σ) (out : σ) (js : Vector (Journal size) count) :
    List (Fin count) → σ × Nat × Vector (Journal size) count
  | [] => (out, 0, js)
  | i :: rest =>
    let first := pour sink out (js.get i)
    let others := pourAll sink first.1 (js.set i first.2.2 i.isLt) rest
    (others.1, first.2.1 + others.2.1, others.2.2)

/-- Reports the chosen journals into a sink. -/
def flushInto (sink : σ → Printout → σ) (out : σ) (js : Vector (Journal size) count)
    (chosen : List (Fin count)) : σ × Nat × Vector (Journal size) count :=
  let poured := pourAll sink out js chosen
  let dropped := totalDropped poured.2.2 chosen
  if dropped = 0 then poured
  else (sink poured.1 (.drops dropped), poured.2.1, resetDrops poured.2.2 chosen)

theorem pour_eq (sink : σ → Printout → σ) (out : σ) (j : Journal size) :
    pour sink out j = ((j.entries.map .entry).foldl sink out, j.entries.length, j.drainAll.2) := by
  fun_induction pour sink out j with
  | case1 out j hnone =>
    have hnil : j.entries = [] := by
      rw [← List.length_eq_zero_iff, length_entries]
      exact drain?_eq_none_iff.mp hnone
    rw [hnil, drainAll_of_none hnone]
    rfl
  | case2 out j entry rest hsome hlt others ih =>
    have hothers : others = _ := ih
    rw [(of_drain?_eq_some hsome).1, drainAll_of_some hsome, hothers]
    rfl

/-- Handing the entries to a sink one by one leaves the journals that printing them all at once does. -/
theorem pourAll_eq {chosen : List (Fin count)} (hd : chosen.Nodup) (sink : σ → Printout → σ)
    (out : σ) (js : Vector (Journal size) count) :
    pourAll sink out js chosen =
      (((chosen.flatMap fun i => (js.get i).entries).map .entry).foldl sink out,
        (printEntries js chosen).written, (printEntries js chosen).journals) := by
  induction chosen generalizing out js with
  | nil => rfl
  | cons i rest ih =>
    obtain ⟨hi, hrest⟩ := List.nodup_cons.mp hd
    have hothers : (rest.flatMap fun k => ((js.set i (js.get i).drainAll.2 i.isLt).get k).entries) =
        rest.flatMap fun k => (js.get k).entries := by
      rw [List.flatMap_def, List.flatMap_def]
      congr 1
      apply List.map_congr_left
      intro k hk
      rw [get_set_of_mem js hi hk]
    simp only [pourAll, pour_eq, ih hrest, hothers, List.flatMap_cons, List.map_append,
      List.foldl_append, printEntries, drainAll_fst]

/-! ## The notice -/

theorem dropped_printEntries {chosen : List (Fin count)} (hd : chosen.Nodup)
    (js : Vector (Journal size) count) {k : Fin count} (hk : k ∈ chosen) :
    ((printEntries js chosen).journals.get k).dropped = (js.get k).dropped := by
  obtain ⟨-, -, -, hemptied, -⟩ := printEntries_eq hd js
  rw [hemptied k hk]
  exact congrArg Queue.dropped (drainAll_eq (js.get k)).2

/-- A report adds up the counts of the journals as they were, if 32 bits can tell the sum. -/
theorem totalDropped_printEntries {chosen : List (Fin count)} (hd : chosen.Nodup)
    {js : Vector (Journal size) count} (hfew : dropsOf js chosen < UInt32.size) :
    totalDropped (printEntries js chosen).journals chosen = UInt32.ofNat (dropsOf js chosen) := by
  have hsame : total (fun k => ((printEntries js chosen).journals.get k).dropped.toNat) chosen =
      dropsOf js chosen :=
    total_congr fun k hk => by rw [dropped_printEntries hd js hk]
  rw [← UInt32.toNat_inj, toNat_totalDropped (by rwa [hsame]), hsame, UInt32.toNat_ofNat',
    Nat.mod_eq_of_lt hfew]

omit [HasSlots size] in
theorem ofNat_dropsOf_eq_zero_iff {js : Vector (Journal size) count} {chosen : List (Fin count)}
    (hfew : dropsOf js chosen < UInt32.size) :
    UInt32.ofNat (dropsOf js chosen) = 0 ↔ dropsOf js chosen = 0 := by
  rw [← UInt32.toNat_inj, UInt32.toNat_ofNat', Nat.mod_eq_of_lt hfew]
  rfl

omit [HasSlots size] in
/-- The counts of the journals sum up to nothing exactly if none of them counts a drop. -/
theorem dropsOf_eq_zero_iff {js : Vector (Journal size) count} {chosen : List (Fin count)} :
    dropsOf js chosen = 0 ↔ ∀ k ∈ chosen, (js.get k).dropped = 0 := by
  constructor
  · intro hzero k hk
    have hle : (js.get k).dropped.toNat ≤ dropsOf js chosen :=
      le_total (fun i => (js.get i).dropped.toNat) hk
    rw [← UInt32.toNat_inj, UInt32.toNat_zero]
    omega
  · intro hzero
    induction chosen with
    | nil => rfl
    | cons i rest ih =>
      obtain ⟨hi, hrest⟩ := List.forall_mem_cons.mp hzero
      rw [dropsOf, total_cons, hi, UInt32.toNat_zero, Nat.zero_add]
      exact ih hrest

/-- A report ends with a notice of the sum of the counts, unless that is zero. -/
theorem flush_eq {chosen : List (Fin count)} (hd : chosen.Nodup) {js : Vector (Journal size) count}
    (hfew : dropsOf js chosen < UInt32.size) :
    flush js chosen =
      if dropsOf js chosen = 0 then printEntries js chosen
      else
        { printEntries js chosen with
          output := (printEntries js chosen).output ++ dropNotice (UInt32.ofNat (dropsOf js chosen))
          dropped := UInt32.ofNat (dropsOf js chosen)
          journals := resetDrops (printEntries js chosen).journals chosen } := by
  simp only [flush, totalDropped_printEntries hd hfew, ofNat_dropsOf_eq_zero_iff hfew]

/-! ## Whole reports -/

/-- Whatever a sink does with the lines, the journals are those of the report, and so is the number. -/
theorem flushInto_eq {chosen : List (Fin count)} (hd : chosen.Nodup)
    {js : Vector (Journal size) count} (hfew : dropsOf js chosen < UInt32.size)
    (sink : σ → Printout → σ) (out : σ) :
    flushInto sink out js chosen =
      ((printouts js chosen).foldl sink out, (flush js chosen).written,
        (flush js chosen).journals) := by
  simp only [flushInto, pourAll_eq hd, totalDropped_printEntries hd hfew,
    ofNat_dropsOf_eq_zero_iff hfew, flush_eq hd hfew, printouts, List.foldl_append]
  split <;> rfl

/-- A report prints what it hands to a sink. -/
theorem output_flush {chosen : List (Fin count)} (hd : chosen.Nodup)
    {js : Vector (Journal size) count} (hfew : dropsOf js chosen < UInt32.size) :
    (flush js chosen).output = String.join ((printouts js chosen).map Printout.text) := by
  obtain ⟨houtput, -⟩ := printEntries_eq hd js
  have hlines : (printed js chosen).map (fun p => p.2.render) =
      ((chosen.flatMap fun i => (js.get i).entries).map .entry).map Printout.text := by
    simp only [printed, List.map_flatMap, List.map_map, drainAll_fst]
    rfl
  rw [hlines] at houtput
  rw [flush_eq hd hfew, printouts, List.map_append, String.join_append]
  by_cases hzero : dropsOf js chosen = 0
  · rw [if_pos hzero, if_pos hzero, houtput]
    exact (String.append_empty).symm
  · rw [if_neg hzero, if_neg hzero]
    show (printEntries js chosen).output ++ _ = _
    rw [houtput, List.map_singleton, String.join_cons, String.join_nil, String.append_empty]
    rfl

theorem written_flush {chosen : List (Fin count)} (hd : chosen.Nodup)
    (js : Vector (Journal size) count) :
    (flush js chosen).written = total (fun i => (js.get i).pending.toNat) chosen := by
  rw [(flush_prints hd js).2]
  clear hd
  induction chosen with
  | nil => rfl
  | cons i rest ih =>
    rw [printed_cons, List.length_append, List.length_map, ih, total_cons, length_drainAll,
      length_queue]

/-- A report leaves no count of drops in the chosen journals. -/
theorem dropped_flush_of_mem {chosen : List (Fin count)} (hd : chosen.Nodup)
    {js : Vector (Journal size) count} (hfew : dropsOf js chosen < UInt32.size) {k : Fin count}
    (hk : k ∈ chosen) : ((flush js chosen).journals.get k).dropped = 0 := by
  rw [flush_eq hd hfew]
  by_cases hzero : dropsOf js chosen = 0
  · rw [if_pos hzero, dropped_printEntries hd js hk]
    exact dropsOf_eq_zero_iff.mp hzero k hk
  · rw [if_neg hzero]
    show ((resetDrops (printEntries js chosen).journals chosen).get k).dropped = 0
    rw [get_resetDrops_of_mem _ hk]
    rfl

/-- From journals without entries nothing is printed. -/
theorem printEntries_of_empty {js : Vector (Journal size) count} {chosen : List (Fin count)}
    (hempty : ∀ k ∈ chosen, (js.get k).pending.toNat = 0) :
    printEntries js chosen = ⟨"", 0, 0, js⟩ := by
  induction chosen with
  | nil => rfl
  | cons i rest ih =>
    obtain ⟨hi, hrest⟩ := List.forall_mem_cons.mp hempty
    have hdrain : (js.get i).drainAll = ([], js.get i) := drainAll_of_none (drain?_of_empty hi)
    have hsame : js.set i (js.get i) i.isLt = js := Vector.set_getElem_self i.isLt
    simp only [printEntries, hdrain, hsame, ih hrest]
    rfl

/-- The report of some journals: what it prints, and what it leaves behind. -/
structure Drains (js : Vector (Journal size) count) (chosen : List (Fin count))
    (r : Report size count) : Prop where
  /-- Every entry of every chosen journal is printed, and then the notice, if there is one. -/
  output : r.output = String.join ((printouts js chosen).map Printout.text)
  /-- What an entry shows is what the queue of its journal holds in its place. -/
  queued : ∀ i ∈ chosen, (js.get i).entries.map Entry.shown = (js.get i).queue.records
  written : r.written = total (fun i => (js.get i).pending.toNat) chosen
  emptied : ∀ i ∈ chosen, (r.journals.get i).pending = 0 ∧ (r.journals.get i).dropped = 0
  kept : ∀ i, i ∉ chosen → r.journals.get i = js.get i
  /-- Any sink is handed the same lines, whatever it makes of them. -/
  anySink : ∀ {σ : Type} (sink : σ → Printout → σ) (out : σ),
    flushInto sink out js chosen = ((printouts js chosen).foldl sink out, r.written, r.journals)
  /-- The next report of the same journals prints nothing and changes nothing. -/
  again : flush r.journals chosen = ⟨"", 0, 0, r.journals⟩

/-- **The law of reports.**  A report that names no journal twice, of journals whose counts of drops sum
up to less than 32 bits can tell, prints every entry of the first journal, oldest first, then every entry
of the second, and so on, and then one notice with the sum of the counts, if that is not zero.  It tells
how many entries there were, and leaves the journals without entries and without drops; so the next
report prints nothing. -/
theorem report_law {chosen : List (Fin count)} (hd : chosen.Nodup)
    {js : Vector (Journal size) count} (hfew : dropsOf js chosen < UInt32.size) :
    Drains js chosen (flush js chosen) := by
  have hpending : ∀ i ∈ chosen, ((flush js chosen).journals.get i).pending.toNat = 0 := by
    intro i hi
    rw [← length_queue, records_flush_of_mem hd js hi]
    rfl
  have hdropped : dropsOf (flush js chosen).journals chosen = 0 :=
    dropsOf_eq_zero_iff.mpr fun i hi => dropped_flush_of_mem hd hfew hi
  refine ⟨output_flush hd hfew, fun i _ => (js.get i).map_shown_entries, written_flush hd js, ?_,
    fun i hi => get_flush_of_not_mem hd js hi, fun sink out => flushInto_eq hd hfew sink out, ?_⟩
  · intro i hi
    exact ⟨UInt32.toNat_inj.mp (hpending i hi), dropped_flush_of_mem hd hfew hi⟩
  · rw [flush_eq hd (by rw [hdropped]; decide), if_pos hdropped]
    exact printEntries_of_empty hpending

/-- Two journals whose counters are about to wrap around: the one that is named first is printed first,
and the drop of the other one is told of behind both. -/
theorem report_law_wrapped :
    let old : Journal 2 := { (empty : Journal 2) with added := 0xffffffff, taken := 0xffffffff }
    let j := (((old.push 1 .warn "RX" [0x61]).1.push 2 .warn "RX" [0x62]).1.push 3 .warn "RX" []).1
    let k := (old.push 4 .info "CMD" [0x63]).1
    dropsOf #v[j, k] [1, 0] < UInt32.size ∧
      (flush #v[j, k] [1, 0]).output =
        "[         4] INFO CMD: c\r\n[         1] WARN RX: a\r\n[         2] WARN RX: b\r\n" ++
          "[WARN] Dropped: 1 log entries\r\n" ∧
      (flush #v[j, k] [1, 0]).written = 3 ∧
      flush (flush #v[j, k] [1, 0]).journals [1, 0] = ⟨"", 0, 0, (flush #v[j, k] [1, 0]).journals⟩ := by
  intro old j k
  have hfew : dropsOf #v[j, k] [1, 0] < UInt32.size := by decide +kernel
  have hdrains : Drains #v[j, k] [1, 0] (flush #v[j, k] [1, 0]) := report_law (by decide) hfew
  refine ⟨hfew, ?_, ?_, hdrains.again⟩
  · rw [hdrains.output]
    decide +kernel
  · rw [hdrains.written]
    decide +kernel

end SerialConsole.Journal
