import Mathlib.Data.List.Sort
import DeltaCycle.Proofs.Inertia

/-!
# The agenda

The agenda of a queue lists what is scheduled in the order in which it was scheduled, whenever it
is due. What is scheduled goes to its end, and what is due at a tick leaves it from the front.
-/

set_option autoImplicit false

namespace DeltaCycle

namespace EventQueue

/-- The entries in the order in which they were pushed. -/
def entries (q : EventQueue) : List Entry := q.toList.insertionSort fun a b => a.serial ≤ b.serial

/-- What is scheduled, with the ticks for which it is, in the order in which it was scheduled. -/
def agenda (q : EventQueue) : List (Nat × Payload) := q.entries.map fun e => (e.time, e.payload)

/-- What is scheduled for a tick, in the order in which it was scheduled. -/
def dueAt (q : EventQueue) (time : Nat) : List Payload :=
  (q.agenda.filter (·.1 = time)).map (·.2)

/-- No two entries of the queue were pushed at once. -/
def Numbered (q : EventQueue) : Prop := (q.toList.map (·.serial)).Nodup

/-- These are the entries of the queue in the order in which they were pushed. -/
structure Files (q : EventQueue) (filed : List Entry) : Prop where
  perm : q.toList.Perm filed
  sorted : filed.Pairwise (·.serial < ·.serial)

theorem numbered_empty : ({} : EventQueue).Numbered := List.nodup_nil

variable {q rest : EventQueue} {filed : List Entry}

theorem Files.numbered (files : q.Files filed) : q.Numbered := by
  have distinct : (filed.map (·.serial)).Nodup := by
    rw [List.nodup_iff_pairwise_ne, List.pairwise_map]
    exact files.sorted.imp Nat.ne_of_lt
  exact (files.perm.map _).nodup_iff.mpr distinct

/-- Where no two entries were pushed at once, their order is that of their serial numbers. -/
theorem Numbered.files (numbered : q.Numbered) : q.Files q.entries := by
  have perm : q.entries.Perm q.toList := List.perm_insertionSort ..
  have ordered : q.entries.Pairwise fun a b => a.serial ≤ b.serial := by
    have : IsTrans Entry fun a b => a.serial ≤ b.serial := ⟨fun _ _ _ => Nat.le_trans⟩
    have : Std.Total fun a b : Entry => a.serial ≤ b.serial := ⟨fun _ _ => Nat.le_total ..⟩
    exact List.pairwise_insertionSort _ q.toList
  have distinct : q.entries.Pairwise fun a b => a.serial ≠ b.serial := by
    have nodup : (q.entries.map (·.serial)).Nodup := (perm.map _).nodup_iff.mpr numbered
    rwa [List.nodup_iff_pairwise_ne, List.pairwise_map] at nodup
  refine ⟨perm.symm, (ordered.and distinct).imp fun both => ?_⟩
  exact Nat.lt_of_le_of_ne both.1 both.2

theorem Files.unique {filed' : List Entry} (files : q.Files filed) (files' : q.Files filed') :
    filed = filed' := by
  refine List.Perm.eq_of_pairwise (fun a b _ _ before after => ?_) files.sorted files'.sorted
    (files.perm.symm.trans files'.perm)
  exact absurd before (Nat.lt_asymm after)

theorem Files.entries_eq (files : q.Files filed) : q.entries = filed :=
  files.numbered.files.unique files

/-! ## Scheduling -/

theorem Files.push (files : q.Files filed) (time : Nat) (payload : Payload) :
    (q.push time payload).Files (filed ++ [⟨time, q.pushed, payload⟩]) := by
  constructor
  · have pushed := (toList_push q time payload).trans (files.perm.cons _)
    exact pushed.trans (List.perm_append_singleton _ _).symm
  · refine List.pairwise_append.mpr ⟨files.sorted, List.pairwise_singleton .., ?_⟩
    intro e listed last new
    obtain rfl := List.mem_singleton.mp new
    exact Heap.all_iff.mp q.fresh e (files.perm.mem_iff.mpr listed)

theorem Numbered.push (numbered : q.Numbered) (time : Nat) (payload : Payload) :
    (q.push time payload).Numbered :=
  (numbered.files.push time payload).numbered

/-- What is scheduled goes to the end of the agenda. -/
theorem Numbered.agenda_push (numbered : q.Numbered) (time : Nat) (payload : Payload) :
    (q.push time payload).agenda = q.agenda ++ [(time, payload)] := by
  rw [agenda, agenda, (numbered.files.push time payload).entries_eq, List.map_append]
  rfl

/-! ## Coming due -/

/-- An entry that comes due is the first for its tick. -/
theorem Files.popDue (files : q.Files filed) {time : Nat} {payload : Payload}
    (popped : q.popDue time = some (payload, rest)) :
    ∃ before serial behind, filed = before ++ ⟨time, serial, payload⟩ :: behind ∧
      (∀ e ∈ before, e.time ≠ time) ∧ rest.Files (before ++ behind) := by
  obtain ⟨first, rfl, rfl, earliest, perm⟩ := toList_popDue popped
  have same := files.perm.symm.trans perm
  obtain ⟨before, behind, rfl⟩ := List.append_of_mem (same.mem_iff.mpr List.mem_cons_self)
  have others : rest.toList.Perm (before ++ behind) :=
    (List.Perm.cons_inv (List.perm_middle.symm.trans same)).symm
  obtain ⟨-, sorted, across⟩ := List.pairwise_append.mp files.sorted
  refine ⟨before, first.serial, behind, rfl, fun e listed due => ?_, others, ?_⟩
  · have sooner := across e listed first List.mem_cons_self
    have later := earliest e (others.mem_iff.mpr (List.mem_append_left _ listed))
    simp only [Entry.le, Bool.or_eq_true, Bool.and_eq_true, decide_eq_true_eq, beq_iff_eq] at later
    omega
  · exact files.sorted.sublist ((List.Sublist.refl before).append (List.sublist_cons_self ..))

theorem Numbered.popDue (numbered : q.Numbered) {time : Nat} {payload : Payload}
    (popped : q.popDue time = some (payload, rest)) : rest.Numbered := by
  obtain ⟨before, serial, behind, -, -, files⟩ := numbered.files.popDue popped
  exact files.numbered

end EventQueue

/-- Every step keeps the entries of the queue apart. -/
theorem Desk.Step.numbered {d d' : Desk} {happening : Option Happening}
    (step : Desk.Step d happening d') (numbered : d.queue.Numbered) : d'.queue.Numbered := by
  cases step with
  | @updated k q id signal found =>
      dsimp only
      cases signal.update.2 with
      | deferred delay value stamp => exact numbered.push _ _
      | unchanged => exact numbered
      | changed old woken => exact numbered
  | queued q a ahead => exact numbered.push _ _
  | taken k popped => exact numbered.popDue popped
  | arrived k popped => exact numbered.popDue popped
  | _ => exact numbered

end DeltaCycle
