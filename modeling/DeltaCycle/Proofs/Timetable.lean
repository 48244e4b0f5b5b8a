import DeltaCycle.Proofs.CommitLog

/-!
# Timetables

A timetable lists, for each signal, the values that are due, in the order in which they come due.
The event queue keeps one. How the values of a signal lie among the other entries of the queue does
not show in it, nor do serial numbers.
-/

set_option autoImplicit false

namespace DeltaCycle

/-- A value that an inertial signal takes at a tick, if the stamp still holds. -/
structure Due where
  time : Nat
  value : Value
  stamp : Nat
deriving Repr, DecidableEq

/-- What is due for each signal. -/
abbrev Timetable := SignalId → List Due

namespace Due

/-- A value goes behind all that are due no later. -/
def insert (due : Due) : List Due → List Due
  | [] => [due]
  | first :: rest =>
      if due.time < first.time then due :: first :: rest else first :: due.insert rest

theorem insert_of_lt {due : Due} {dues : List Due} (sooner : ∀ d ∈ dues, due.time < d.time) :
    due.insert dues = due :: dues := by
  cases dues with
  | nil => rfl
  | cons first rest => exact if_pos (sooner first List.mem_cons_self)

end Due

namespace Entry

/-- The value that an entry holds for a signal. -/
def due? (id : SignalId) (e : Entry) : Option Due :=
  match e.payload with
  | .wake _ => none
  | .apply id' value stamp => if id' = id then some ⟨e.time, value, stamp⟩ else none

theorem due?_wake (time serial : Nat) (a : Arming) (id : SignalId) :
    due? id ⟨time, serial, .wake a⟩ = none := rfl

theorem due?_apply (time serial : Nat) (id : SignalId) (value : Value) (stamp : Nat) :
    due? id ⟨time, serial, .apply id value stamp⟩ = some ⟨time, value, stamp⟩ := if_pos rfl

theorem due?_apply_of_ne (time serial : Nat) {id id' : SignalId} (other : id' ≠ id) (value : Value)
    (stamp : Nat) : due? id ⟨time, serial, .apply id' value stamp⟩ = none := if_neg other

theorem time_of_due? {id : SignalId} {e : Entry} {d : Due} (due : e.due? id = some d) :
    d.time = e.time := by
  unfold due? at due
  split at due
  · cases due
  · split at due <;> cases due
    rfl

/-- An entry comes due earlier than another one, or was pushed earlier for the same tick. -/
def Before (a b : Entry) : Prop := a.time < b.time ∨ a.time = b.time ∧ a.serial < b.serial

theorem Before.not_le {a b : Entry} (before : a.Before b) : ¬b.le a = true := by
  unfold Before at before
  simp only [le, Bool.or_eq_true, Bool.and_eq_true, decide_eq_true_eq, beq_iff_eq]
  omega

theorem Before.le_time {a b : Entry} (before : a.Before b) : a.time ≤ b.time := by
  unfold Before at before
  omega

/-- An entry goes behind all that are due no later. -/
def insert (e : Entry) : List Entry → List Entry
  | [] => [e]
  | first :: rest => if e.time < first.time then e :: first :: rest else first :: e.insert rest

theorem insert_perm (e : Entry) (entries : List Entry) :
    (e.insert entries).Perm (e :: entries) := by
  induction entries with
  | nil => exact .refl _
  | cons first rest ih =>
      rw [insert]
      split
      · exact .refl _
      · exact (ih.cons first).trans (.swap ..)

theorem insert_sorted {e : Entry} {entries : List Entry} (sorted : entries.Pairwise Before)
    (latest : ∀ x ∈ entries, x.serial < e.serial) : (e.insert entries).Pairwise Before := by
  induction entries with
  | nil => exact List.pairwise_singleton ..
  | cons first rest ih =>
      obtain ⟨least, sorted'⟩ := List.pairwise_cons.mp sorted
      rw [insert]
      split
      · next sooner =>
          refine List.pairwise_cons.mpr ⟨fun x listed => .inl ?_, sorted⟩
          rcases List.mem_cons.mp listed with rfl | listed
          · exact sooner
          · exact Nat.lt_of_lt_of_le sooner (least x listed).le_time
      · next later =>
          refine List.pairwise_cons.mpr ⟨fun x listed => ?_, ih sorted' fun x listed =>
            latest x (List.mem_cons_of_mem _ listed)⟩
          rcases List.mem_cons.mp ((insert_perm e rest).mem_iff.mp listed) with rfl | listed
          · have serial := latest first List.mem_cons_self
            unfold Before
            omega
          · exact least x listed

theorem dues_insert_of_none {e : Entry} {id : SignalId} (none : e.due? id = none)
    (entries : List Entry) :
    (e.insert entries).filterMap (due? id) = entries.filterMap (due? id) := by
  induction entries with
  | nil => exact List.filterMap_cons_none none
  | cons first rest ih =>
      rw [insert]
      split
      · exact List.filterMap_cons_none none
      · rw [List.filterMap_cons, List.filterMap_cons, ih]

theorem dues_insert_of_some {e : Entry} {id : SignalId} {d : Due} (some : e.due? id = some d)
    {entries : List Entry} (sorted : entries.Pairwise Before) :
    (e.insert entries).filterMap (due? id) = d.insert (entries.filterMap (due? id)) := by
  induction entries with
  | nil => exact List.filterMap_cons_some some
  | cons first rest ih =>
      obtain ⟨least, sorted'⟩ := List.pairwise_cons.mp sorted
      rw [insert]
      split
      · next sooner =>
          rw [List.filterMap_cons_some some, Due.insert_of_lt fun d' listed => ?_]
          obtain ⟨x, member, due⟩ := List.mem_filterMap.mp listed
          rw [time_of_due? some, time_of_due? due]
          rcases List.mem_cons.mp member with rfl | member
          · exact sooner
          · exact Nat.lt_of_lt_of_le sooner (least x member).le_time
      · next later =>
          cases due : first.due? id with
          | none => rw [List.filterMap_cons_none due, List.filterMap_cons_none due, ih sorted']
          | some d' =>
              rw [List.filterMap_cons_some due, List.filterMap_cons_some due, ih sorted',
                Due.insert, time_of_due? some, time_of_due? due, if_neg later]

end Entry

namespace EventQueue

/-- The entries of the queue in the order in which they come due. -/
structure Lists (q : EventQueue) (entries : List Entry) : Prop where
  perm : q.toList.Perm entries
  sorted : entries.Pairwise Entry.Before

/-- The queue keeps a timetable. -/
def Keeps (q : EventQueue) (table : Timetable) : Prop :=
  ∃ entries, q.Lists entries ∧ ∀ id, entries.filterMap (Entry.due? id) = table id

theorem keeps_empty : ({} : EventQueue).Keeps fun _ => [] := ⟨[], ⟨.refl _, .nil⟩, fun _ => rfl⟩

theorem Lists.push {q : EventQueue} {entries : List Entry} (lists : q.Lists entries) (time : Nat)
    (payload : Payload) :
    (q.push time payload).Lists (Entry.insert ⟨time, q.pushed, payload⟩ entries) := by
  refine ⟨?_, Entry.insert_sorted lists.sorted fun x listed => ?_⟩
  · exact (toList_push q time payload).trans
      ((lists.perm.cons _).trans (Entry.insert_perm _ _).symm)
  · exact Heap.all_iff.mp q.fresh x (lists.perm.mem_iff.mpr listed)

theorem Lists.popDue {q rest : EventQueue} {entries : List Entry} (lists : q.Lists entries)
    {time : Nat} {payload : Payload} (popped : q.popDue time = some (payload, rest)) :
    ∃ serial later, entries = ⟨time, serial, payload⟩ :: later ∧ rest.Lists later := by
  obtain ⟨first, rfl, rfl, earliest, perm⟩ := toList_popDue popped
  have same := lists.perm.symm.trans perm
  have sorted := lists.sorted
  cases entries with
  | nil => exact absurd same.length_eq (by simp)
  | cons head later =>
      obtain ⟨least, sorted'⟩ := List.pairwise_cons.mp sorted
      obtain rfl : head = first := by
        by_contra other
        have behind : first ∈ later :=
          (List.mem_cons.mp (same.mem_iff.mpr List.mem_cons_self)).resolve_left (Ne.symm other)
        have stays : head ∈ rest.toList :=
          (List.mem_cons.mp (same.mem_iff.mp List.mem_cons_self)).resolve_left other
        exact (least first behind).not_le (earliest head stays)
      exact ⟨head.serial, later, rfl, (List.Perm.cons_inv same).symm, sorted'⟩

namespace Keeps

variable {q rest : EventQueue} {table : Timetable} (keeps : q.Keeps table) {time : Nat}

include keeps

theorem push_wake (time : Nat) (a : Arming) : (q.push time (.wake a)).Keeps table := by
  obtain ⟨entries, lists, same⟩ := keeps
  refine ⟨_, lists.push time (.wake a), fun id => ?_⟩
  rw [Entry.dues_insert_of_none (Entry.due?_wake ..), same]

theorem push_apply (time : Nat) (id : SignalId) (value : Value) (stamp : Nat) :
    (q.push time (.apply id value stamp)).Keeps
      (Function.update table id (Due.insert ⟨time, value, stamp⟩ (table id))) := by
  obtain ⟨entries, lists, same⟩ := keeps
  refine ⟨_, lists.push time (.apply id value stamp), fun id' => ?_⟩
  by_cases here : id' = id
  · subst here
    rw [Function.update_self, ← same,
      Entry.dues_insert_of_some (Entry.due?_apply ..) lists.sorted]
  · rw [Function.update_of_ne here, ← same,
      Entry.dues_insert_of_none (Entry.due?_apply_of_ne _ _ (Ne.symm here) _ _)]

theorem pop_wake {a : Arming} (popped : q.popDue time = some (.wake a, rest)) :
    rest.Keeps table := by
  obtain ⟨entries, lists, same⟩ := keeps
  obtain ⟨serial, later, rfl, lists'⟩ := lists.popDue popped
  exact ⟨later, lists', same⟩

theorem pop_apply {id : SignalId} {value : Value} {stamp : Nat}
    (popped : q.popDue time = some (.apply id value stamp, rest)) :
    ∃ dues, table id = ⟨time, value, stamp⟩ :: dues ∧
      rest.Keeps (Function.update table id dues) := by
  obtain ⟨entries, lists, same⟩ := keeps
  obtain ⟨serial, later, rfl, lists'⟩ := lists.popDue popped
  refine ⟨later.filterMap (Entry.due? id), ?_, later, lists', fun id' => ?_⟩
  · rw [← same, List.filterMap_cons_some (Entry.due?_apply ..)]
  · by_cases here : id' = id
    · subst here
      rw [Function.update_self]
    · rw [Function.update_of_ne here, ← same,
        List.filterMap_cons_none (Entry.due?_apply_of_ne _ _ (Ne.symm here) _ _)]

/-- Where all that is due at a tick was taken, the timetable is about later ticks. -/
theorem lt_of_popDue (ahead : ∀ e ∈ q.toList, time ≤ e.time) (idle : q.popDue time = none)
    {id : SignalId} {d : Due} (listed : d ∈ table id) : time < d.time := by
  obtain ⟨entries, lists, same⟩ := keeps
  rw [← same] at listed
  obtain ⟨e, member, due⟩ := List.mem_filterMap.mp listed
  rw [Entry.time_of_due? due]
  exact EventQueue.lt_of_popDue idle ahead (lists.perm.mem_iff.mpr member)

/-- An entry wakes somebody or holds what is due for a signal. -/
theorem exists_entry_iff :
    (∃ e ∈ q.toList, e.time = time) ↔
      (∃ a, (time, a) ∈ q.wakes) ∨ ∃ id, ∃ d ∈ table id, d.time = time := by
  obtain ⟨entries, lists, same⟩ := keeps
  simp only [← same, List.mem_filterMap, ← lists.perm.mem_iff, wakes, Multiset.mem_coe]
  constructor
  · rintro ⟨⟨time, serial, payload⟩, listed, rfl⟩
    cases payload with
    | wake a => exact .inl ⟨a, _, listed, rfl⟩
    | apply id value stamp => exact .inr ⟨id, _, ⟨_, listed, Entry.due?_apply ..⟩, rfl⟩
  · rintro (⟨a, ⟨time, serial, payload⟩, listed, wakes⟩ | ⟨id, d, ⟨e, listed, due⟩, rfl⟩)
    · cases payload with
      | wake a' =>
          cases wakes
          exact ⟨_, listed, rfl⟩
      | apply => cases wakes
    · exact ⟨e, listed, (Entry.time_of_due? due).symm⟩

end Keeps

/-- Queues with entries for the same ticks have the same earliest one. -/
theorem nextTime?_congr {q q' : EventQueue}
    (same : ∀ time, (∃ e ∈ q.toList, e.time = time) ↔ ∃ e ∈ q'.toList, e.time = time) :
    q'.nextTime? = q.nextTime? := by
  have half {q q' : EventQueue} {time : Nat}
      (same : ∀ time, (∃ e ∈ q.toList, e.time = time) ↔ ∃ e ∈ q'.toList, e.time = time)
      (next : q.nextTime? = some time) : ∃ time' ≤ time, q'.nextTime? = some time' := by
    obtain ⟨e, listed, rfl⟩ := exists_of_nextTime? next
    obtain ⟨e', listed', time⟩ := (same e.time).mp ⟨e, listed, rfl⟩
    cases next' : q'.nextTime? with
    | none =>
        rw [nextTime?_eq_none_iff.mp next'] at listed'
        cases listed'
    | some time' => exact ⟨time', time ▸ le_of_nextTime? next' listed', rfl⟩
  have same' (time : Nat) := (same time).symm
  cases next : q.nextTime? with
  | none =>
      cases next' : q'.nextTime? with
      | none => rfl
      | some time' =>
          obtain ⟨time, -, found⟩ := half same' next'
          rw [next] at found
          cases found
  | some time =>
      obtain ⟨time', le', next'⟩ := half same next
      obtain ⟨time'', le, found⟩ := half same' next'
      rw [next] at found
      cases found
      rw [next', Nat.le_antisymm le' le]

end EventQueue

end DeltaCycle
