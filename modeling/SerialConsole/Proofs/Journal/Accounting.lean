import SerialConsole.Proofs.Journal.Reports

/-!
# Accounting for what journals are given

Entries are added to several journals and taken from them one by one, and now and then a report prints
and empties some of the journals and tells how many entries were dropped.  Every entry that was ever
offered is accounted for: it was taken, printed, is still in its journal, or was dropped; and every
drop was told of once or is still counted.

    offered = returned + written + pending + dropped + told

For each journal the entries that came in are, one by one and in their order, those that came out and
those that are still there:

    events.flatMap (incoming i) = events.flatMap (outgoing i) ++ (js.get i).queue.records

Each deed keeps both balances (`records_perform`, `total_dropped_perform`), and so does every run, as
long as no report names a journal twice and there are fewer drops than a counter can tell.
-/

namespace SerialConsole.Journal

variable {size count : Nat}

/-! ## Deeds and events -/

/-- What is done to some journals. -/
inductive Deed (count : Nat) where
  | push (i : Fin count) (stamp : Int) (level : Level) (tag : String) (message : Bytes)
  | drain (i : Fin count)
  | flush (chosen : List (Fin count))
  deriving Repr, DecidableEq

namespace Deed

def isPush : Deed count → Bool
  | .push .. => true
  | _ => false

/-- A report names no journal twice. -/
def Distinct : Deed count → Prop
  | .flush chosen => chosen.Nodup
  | _ => True

instance : DecidablePred (@Distinct count)
  | .flush chosen => inferInstanceAs (Decidable chosen.Nodup)
  | .push .. => isTrue trivial
  | .drain _ => isTrue trivial

end Deed

/-- What comes of a deed. -/
inductive Event (count : Nat) where
  /-- The record was added. -/
  | accepted (i : Fin count) (record : Record)
  /-- There was no room. -/
  | refused (i : Fin count)
  /-- The oldest entry was taken, if there was one. -/
  | drained (i : Fin count) (entry : Option Entry)
  /-- Entries were printed: the text, how many entries there were, and the number in the notice. -/
  | reported (entries : List (Fin count × Entry)) (output : String) (written : Nat)
    (dropped : UInt32)

namespace Event

/-- The record came into a journal. -/
def incoming (i : Fin count) : Event count → List Record
  | .accepted k record => if k = i then [record] else []
  | _ => []

/-- The records that came out of a journal. -/
def outgoing (i : Fin count) : Event count → List Record
  | .drained k (some entry) => if k = i then [entry.shown] else []
  | .reported entries _ _ _ => (entries.filter fun p => p.1 = i).map fun p => p.2.shown
  | _ => []

/-- Records that came into a journal. -/
def entered : Event count → Nat
  | .accepted _ _ => 1
  | _ => 0

/-- Entries that were taken one by one. -/
def returned : Event count → Nat
  | .drained _ (some _) => 1
  | _ => 0

/-- Entries that a report says it printed. -/
def written : Event count → Nat
  | .reported _ _ written _ => written
  | _ => 0

/-- Entries that were dropped. -/
def refusals : Event count → Nat
  | .refused _ => 1
  | _ => 0

/-- Drops that a notice tells of. -/
def told : Event count → Nat
  | .reported _ _ _ dropped => dropped.toNat
  | _ => 0

/-- A report prints its entries, one after the other, and then the notice. -/
def Prints : Event count → Prop
  | .reported entries output written dropped =>
    output = String.join (entries.map fun p => p.2.render) ++ notice dropped ∧
      written = entries.length
  | _ => True

end Event

variable [HasSlots size]

def perform (js : Vector (Journal size) count) :
    Deed count → Vector (Journal size) count × Event count
  | .push i stamp level tag message =>
    let (j, added) := (js.get i).push stamp level tag message
    (js.set i j i.isLt, if added then .accepted i (Record.made stamp level tag message) else .refused i)
  | .drain i =>
    match (js.get i).drain? with
    | none => (js, .drained i none)
    | some (entry, j) => (js.set i j i.isLt, .drained i (some entry))
  | .flush chosen =>
    let report := flush js chosen
    (report.journals, .reported (printed js chosen) report.output report.written report.dropped)

def performAll (js : Vector (Journal size) count) :
    List (Deed count) → Vector (Journal size) count × List (Event count)
  | [] => (js, [])
  | d :: ds =>
    let rest := performAll (perform js d).1 ds
    (rest.1, (perform js d).2 :: rest.2)

/-! ## One deed -/

/-- What an offer comes to. -/
theorem perform_push (h : RingSize size) (js : Vector (Journal size) count) (i : Fin count)
    (stamp : Int) (level : Level) (tag : String) (message : Bytes) :
    (∃ j, perform js (.push i stamp level tag message) =
        (js.set i j i.isLt, .accepted i (Record.made stamp level tag message)) ∧
      j.queue = ⟨(js.get i).queue.records ++ [Record.made stamp level tag message],
        (js.get i).dropped⟩) ∨
    ∃ j, perform js (.push i stamp level tag message) = (js.set i j i.isLt, .refused i) ∧
      j.queue = ⟨(js.get i).queue.records, (js.get i).dropped + 1⟩ := by
  rcases push_cases h (js.get i) stamp level tag message with
    ⟨j, hpush, hqueue⟩ | ⟨j, hpush, hqueue⟩
  · refine .inl ⟨j, ?_, hqueue⟩
    simp only [perform, hpush, if_true]
  · refine .inr ⟨j, ?_, hqueue⟩
    simp only [perform, hpush, Bool.false_eq_true, if_false]

/-- What taking an entry comes to. -/
theorem perform_drain (js : Vector (Journal size) count) (i : Fin count) :
    (perform js (.drain i) = (js, .drained i none) ∧ (js.get i).queue.records = []) ∨
    ∃ entry j, perform js (.drain i) = (js.set i j i.isLt, .drained i (some entry)) ∧
      (js.get i).queue = ⟨entry.shown :: j.queue.records, j.dropped⟩ := by
  rcases drain?_cases (js.get i) with ⟨hdrain, hempty⟩ | ⟨entry, j, hdrain, hqueue⟩
  · exact .inl ⟨by simp only [perform, hdrain], hempty⟩
  · exact .inr ⟨entry, j, by simp only [perform, hdrain], hqueue⟩

theorem outgoing_printed_of_not_mem {chosen : List (Fin count)} (js : Vector (Journal size) count)
    {i : Fin count} (hi : i ∉ chosen) :
    ((printed js chosen).filter fun p => p.1 = i).map (fun p => p.2.shown) = [] := by
  rw [List.map_eq_nil_iff, List.filter_eq_nil_iff]
  intro p hp he
  obtain ⟨k, hk, hp⟩ := List.mem_flatMap.mp hp
  obtain ⟨entry, -, rfl⟩ := List.mem_map.mp hp
  obtain rfl : k = i := of_decide_eq_true he
  exact hi hk

/-- What comes out of a chosen journal is all that was in it. -/
theorem outgoing_printed_of_mem {chosen : List (Fin count)} (hd : chosen.Nodup)
    (js : Vector (Journal size) count) {i : Fin count} (hi : i ∈ chosen) :
    ((printed js chosen).filter fun p => p.1 = i).map (fun p => p.2.shown) =
      (js.get i).queue.records := by
  induction chosen with
  | nil => cases hi
  | cons k rest ih =>
    obtain ⟨hk, hrest⟩ := List.nodup_cons.mp hd
    rw [printed_cons, List.filter_append, List.map_append]
    by_cases hki : k = i
    · subst hki
      have hall : ((js.get k).drainAll.1.map fun entry => (k, entry)).filter (fun p => p.1 = k) =
          (js.get k).drainAll.1.map fun entry => (k, entry) := by
        rw [List.filter_eq_self]
        intro p hp
        obtain ⟨entry, -, rfl⟩ := List.mem_map.mp hp
        exact decide_eq_true rfl
      rw [outgoing_printed_of_not_mem js hk, List.append_nil, hall, List.map_map]
      exact (drainAll_eq _).1
    · have hnone : ((js.get k).drainAll.1.map fun entry => (k, entry)).filter (fun p => p.1 = i) =
          [] := by
        rw [List.filter_eq_nil_iff]
        intro p hp
        obtain ⟨entry, -, rfl⟩ := List.mem_map.mp hp
        exact fun he => hki (of_decide_eq_true he)
      have hmem : i ∈ rest := (List.mem_cons.mp hi).resolve_left fun he => hki he.symm
      rw [hnone, List.map_nil, List.nil_append, ih hrest hmem]

/-- What was in a journal and what comes in is what comes out and what is in it then. -/
theorem records_perform (h : RingSize size) {d : Deed count} (hd : d.Distinct)
    (js : Vector (Journal size) count) (i : Fin count) :
    (js.get i).queue.records ++ (perform js d).2.incoming i =
      (perform js d).2.outgoing i ++ ((perform js d).1.get i).queue.records := by
  cases d with
  | push k stamp level tag message =>
    rcases perform_push h js k stamp level tag message with
      ⟨j, hperform, hqueue⟩ | ⟨j, hperform, hqueue⟩
    · simp only [hperform, Event.incoming, Event.outgoing, List.nil_append, get_set]
      by_cases hki : k = i
      · subst hki
        rw [if_pos rfl, if_pos rfl, hqueue]
      · rw [if_neg hki, if_neg hki, List.append_nil]
    · simp only [hperform, Event.incoming, Event.outgoing, List.append_nil, List.nil_append, get_set]
      by_cases hki : k = i
      · subst hki
        rw [if_pos rfl, hqueue]
      · rw [if_neg hki]
  | drain k =>
    rcases perform_drain js k with ⟨hperform, -⟩ | ⟨entry, j, hperform, hqueue⟩
    · simp only [hperform, Event.incoming, Event.outgoing, List.append_nil, List.nil_append]
    · simp only [hperform, Event.incoming, Event.outgoing, List.append_nil, get_set]
      by_cases hki : k = i
      · subst hki
        rw [if_pos rfl, if_pos rfl, hqueue]
        rfl
      · rw [if_neg hki, if_neg hki, List.nil_append]
  | flush chosen =>
    simp only [perform, Event.incoming, Event.outgoing, List.append_nil]
    by_cases hi : i ∈ chosen
    · rw [outgoing_printed_of_mem hd js hi, records_flush_of_mem hd js hi, List.append_nil]
    · rw [outgoing_printed_of_not_mem js hi, get_flush_of_not_mem hd js hi, List.nil_append]

/-- The entries in all journals, before and after. -/
theorem total_records_perform (h : RingSize size) {d : Deed count} (hd : d.Distinct)
    (js : Vector (Journal size) count) :
    total (fun j => j.queue.records.length) js.toList + (perform js d).2.entered =
      (perform js d).2.returned + (perform js d).2.written +
        total (fun j => j.queue.records.length) (perform js d).1.toList := by
  cases d with
  | push k stamp level tag message =>
    rcases perform_push h js k stamp level tag message with
      ⟨j, hperform, hqueue⟩ | ⟨j, hperform, hqueue⟩
    · have hset := total_vector_set (fun j => j.queue.records.length) js k j
      simp only [hqueue, List.length_append, List.length_singleton] at hset
      simp only [hperform, Event.entered, Event.returned, Event.written]
      omega
    · have hset := total_vector_set (fun j => j.queue.records.length) js k j
      simp only [hqueue] at hset
      simp only [hperform, Event.entered, Event.returned, Event.written]
      omega
  | drain k =>
    rcases perform_drain js k with ⟨hperform, -⟩ | ⟨entry, j, hperform, hqueue⟩
    · simp only [hperform, Event.entered, Event.returned, Event.written]
      omega
    · have hset := total_vector_set (fun j => j.queue.records.length) js k j
      simp only [hqueue, List.length_cons] at hset
      simp only [hperform, Event.entered, Event.returned, Event.written]
      omega
  | flush chosen =>
    have hflush := total_records_flush hd js
    simp only [perform, Event.entered, Event.returned, Event.written, (flush_prints hd js).2]
    omega

/-- The drops that all journals count, before and after. -/
theorem total_dropped_perform (h : RingSize size) {d : Deed count} (hd : d.Distinct)
    (js : Vector (Journal size) count)
    (hfew : total (fun j => j.dropped.toNat) js.toList + (perform js d).2.refusals < UInt32.size) :
    total (fun j => j.dropped.toNat) js.toList + (perform js d).2.refusals =
      (perform js d).2.told + total (fun j => j.dropped.toNat) (perform js d).1.toList := by
  cases d with
  | push k stamp level tag message =>
    rcases perform_push h js k stamp level tag message with
      ⟨j, hperform, hqueue⟩ | ⟨j, hperform, hqueue⟩
    · have hset := total_vector_set (fun j => j.dropped.toNat) js k j
      have hdropped : j.dropped = (js.get k).dropped := congrArg Queue.dropped hqueue
      simp only [hdropped] at hset
      simp only [hperform, Event.refusals, Event.told]
      omega
    · have hset := total_vector_set (fun j => j.dropped.toNat) js k j
      have hdropped : j.dropped = (js.get k).dropped + 1 := congrArg Queue.dropped hqueue
      simp only [hperform, Event.refusals, Event.told] at hfew ⊢
      -- one count is at most the sum of all, so it does not wrap around
      have hle := le_total_get (fun j => j.dropped.toNat) js k
      have hone : ((js.get k).dropped + 1).toNat = (js.get k).dropped.toNat + 1 := by
        rw [UInt32.toNat_add]
        exact Nat.mod_eq_of_lt (show (js.get k).dropped.toNat + 1 < UInt32.size by omega)
      simp only [hdropped, hone] at hset
      omega
  | drain k =>
    rcases perform_drain js k with ⟨hperform, -⟩ | ⟨entry, j, hperform, hqueue⟩
    · simp only [hperform, Event.refusals, Event.told]
      omega
    · have hset := total_vector_set (fun j => j.dropped.toNat) js k j
      have hdropped : (js.get k).dropped = j.dropped := congrArg Queue.dropped hqueue
      simp only [hdropped] at hset
      simp only [hperform, Event.refusals, Event.told]
      omega
  | flush chosen =>
    exact total_dropped_flush hd js hfew

theorem isPush_perform (js : Vector (Journal size) count) (d : Deed count) :
    (if d.isPush then 1 else 0) = (perform js d).2.entered + (perform js d).2.refusals := by
  cases d with
  | push k stamp level tag message =>
    simp only [perform, Deed.isPush, if_true]
    cases ((js.get k).push stamp level tag message).2 <;> rfl
  | drain k =>
    simp only [perform]
    cases (js.get k).drain? <;> rfl
  | flush chosen => rfl

theorem prints_perform {d : Deed count} (hd : d.Distinct) (js : Vector (Journal size) count) :
    (perform js d).2.Prints := by
  cases d with
  | push k stamp level tag message =>
    simp only [perform]
    cases ((js.get k).push stamp level tag message).2 <;> trivial
  | drain k =>
    simp only [perform]
    cases (js.get k).drain? <;> trivial
  | flush chosen => exact flush_prints hd js

/-! ## Runs -/

theorem records_performAll (h : RingSize size) {ds : List (Deed count)}
    (hd : ∀ d ∈ ds, d.Distinct) (js : Vector (Journal size) count) (i : Fin count) :
    (js.get i).queue.records ++ (performAll js ds).2.flatMap (Event.incoming i) =
      (performAll js ds).2.flatMap (Event.outgoing i) ++
        ((performAll js ds).1.get i).queue.records := by
  induction ds generalizing js with
  | nil => exact List.append_nil _
  | cons d ds ih =>
    have hfirst := records_perform h (hd d List.mem_cons_self) js i
    have hrest := ih (fun d' hd' => hd d' (List.mem_cons_of_mem d hd')) (perform js d).1
    simp only [performAll, List.flatMap_cons]
    rw [← List.append_assoc, hfirst, List.append_assoc, hrest, List.append_assoc]

theorem total_records_performAll (h : RingSize size) {ds : List (Deed count)}
    (hd : ∀ d ∈ ds, d.Distinct) (js : Vector (Journal size) count) :
    total (fun j => j.queue.records.length) js.toList + total Event.entered (performAll js ds).2 =
      total Event.returned (performAll js ds).2 + total Event.written (performAll js ds).2 +
        total (fun j => j.queue.records.length) (performAll js ds).1.toList := by
  induction ds generalizing js with
  | nil => exact (Nat.zero_add _).symm
  | cons d ds ih =>
    have hfirst := total_records_perform h (hd d List.mem_cons_self) js
    have hrest := ih (fun d' hd' => hd d' (List.mem_cons_of_mem d hd')) (perform js d).1
    simp only [performAll, total_cons]
    omega

theorem total_dropped_performAll (h : RingSize size) {ds : List (Deed count)}
    (hd : ∀ d ∈ ds, d.Distinct) (js : Vector (Journal size) count)
    (hfew : total (fun j => j.dropped.toNat) js.toList +
      total Event.refusals (performAll js ds).2 < UInt32.size) :
    total (fun j => j.dropped.toNat) js.toList + total Event.refusals (performAll js ds).2 =
      total Event.told (performAll js ds).2 +
        total (fun j => j.dropped.toNat) (performAll js ds).1.toList := by
  induction ds generalizing js with
  | nil => exact (Nat.zero_add _).symm
  | cons d ds ih =>
    -- what was told of is not counted any more, so the bound holds for the rest as well
    simp only [performAll, total_cons] at hfew ⊢
    have hfirst := total_dropped_perform h (hd d List.mem_cons_self) js (by omega)
    have hrest := ih (fun d' hd' => hd d' (List.mem_cons_of_mem d hd'))
      (perform js d).1 (by omega)
    omega

theorem countP_isPush (js : Vector (Journal size) count) (ds : List (Deed count)) :
    ds.countP Deed.isPush =
      total Event.entered (performAll js ds).2 + total Event.refusals (performAll js ds).2 := by
  induction ds generalizing js with
  | nil => rfl
  | cons d ds ih =>
    have hfirst := isPush_perform js d
    have hrest := ih (perform js d).1
    simp only [performAll, total_cons, List.countP_cons]
    omega

theorem prints_performAll {ds : List (Deed count)} (hd : ∀ d ∈ ds, d.Distinct)
    (js : Vector (Journal size) count) : ∀ e ∈ (performAll js ds).2, e.Prints := by
  induction ds generalizing js with
  | nil => exact fun e he => nomatch he
  | cons d ds ih =>
    intro e he
    rcases List.mem_cons.mp he with rfl | he
    · exact prints_perform (hd d List.mem_cons_self) js
    · exact ih (fun d' hd' => hd d' (List.mem_cons_of_mem d hd')) (perform js d).1 e he

/-! ## From the start -/

/-- Journals without entries. -/
def blank : Vector (Journal size) count := Vector.replicate count empty

omit [HasSlots size] in
theorem total_blank {f : Journal size → Nat} (hf : f empty = 0) :
    total f (blank : Vector (Journal size) count).toList = 0 := by
  rw [blank, Vector.toList_replicate]
  induction count with
  | zero => rfl
  | succ n ih => rw [List.replicate_succ, total_cons, hf, ih]

/-- The books of a run balance. -/
structure Balanced (ds : List (Deed count)) (js : Vector (Journal size) count)
    (es : List (Event count)) : Prop where
  offered : ds.countP Deed.isPush =
    total Event.returned es + total Event.written es + total (fun j => j.pending.toNat) js.toList +
      total (fun j => j.dropped.toNat) js.toList + total Event.told es
  /-- Every drop is still counted or was told of, and none twice. -/
  refused : total Event.refusals es =
    total (fun j => j.dropped.toNat) js.toList + total Event.told es
  /-- What came into a journal came out in the same order, or is still there. -/
  inOrder : ∀ i, es.flatMap (Event.incoming i) =
    es.flatMap (Event.outgoing i) ++ (js.get i).queue.records
  prints : ∀ e ∈ es, e.Prints

end SerialConsole.Journal
