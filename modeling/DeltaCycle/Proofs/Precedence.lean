import Mathlib.Order.Bounds.Basic
import DeltaCycle.Proofs.Agenda
import DeltaCycle.Proofs.CommitLog

/-!
# Precedence in the event queue

The queue as a priority queue that is stable: whatever calls are made of it, what it gives out for
a tick is what was pushed for that tick, in the order in which it was pushed, and it gives out at
the least tick for which something waits. What is said of a queue here is said in terms of the log
of its calls and answers alone.
-/

set_option autoImplicit false

namespace DeltaCycle

namespace EventQueue

/-! ## Calls and the log -/

inductive Call where
  | push (time : Nat) (payload : Payload)
  | peek
  | pop (time : Nat)
  | clear
deriving Repr, DecidableEq

/-- A call with its answer. -/
inductive Event where
  | pushed (time : Nat) (payload : Payload)
  | peeked (answer : Option Nat)
  | popped (time : Nat) (answer : Option Payload)
  | cleared
deriving Repr, DecidableEq

/-- Answers a call. -/
def serve (q : EventQueue) : Call → Event × EventQueue
  | .push time payload => (.pushed time payload, q.push time payload)
  | .peek => (.peeked q.nextTime?, q)
  | .pop time =>
      match q.popDue time with
      | some (payload, rest) => (.popped time (some payload), rest)
      | none => (.popped time none, q)
  | .clear => (.cleared, q.clear)

/-- The log, the last event first, and the queue after calls of a queue that begins empty. -/
def history (calls : List Call) : List Event × EventQueue :=
  calls.foldl (fun (log, q) call => ((q.serve call).1 :: log, (q.serve call).2)) ([], {})

/-- What was pushed for a tick since the queue was cleared, in this order. -/
def pushedFor (time : Nat) : List Event → List Payload
  | [] => []
  | .cleared :: _ => []
  | .pushed time' payload :: log =>
      if time' = time then pushedFor time log ++ [payload] else pushedFor time log
  | _ :: log => pushedFor time log

/-- What was given out for a tick since the queue was cleared, in this order. -/
def returnedFor (time : Nat) : List Event → List Payload
  | [] => []
  | .cleared :: _ => []
  | .popped time' (some payload) :: log =>
      if time' = time then returnedFor time log ++ [payload] else returnedFor time log
  | _ :: log => returnedFor time log

/-- What was pushed for a tick and has not been given out. -/
def waitingFor (time : Nat) (log : List Event) : List Payload :=
  (pushedFor time log).drop (returnedFor time log).length

/-! ## What is due at a tick -/

variable {q rest : EventQueue} {time : Nat} {payload : Payload}

theorem Files.dueAt_eq {filed : List Entry} (files : q.Files filed) (time : Nat) :
    q.dueAt time = (filed.filter (·.time = time)).map (·.payload) := by
  rw [dueAt, agenda, files.entries_eq, List.filter_map, List.map_map]
  rfl

theorem Numbered.dueAt_push (numbered : q.Numbered) (time : Nat) (payload : Payload)
    (time' : Nat) : (q.push time payload).dueAt time' =
      if time = time' then q.dueAt time' ++ [payload] else q.dueAt time' := by
  simp only [dueAt, numbered.agenda_push, List.filter_append, List.map_append]
  by_cases here : time = time'
  · simp [here]
  · simp [here]

/-- What is given out for a tick is the first that is due then. -/
theorem Numbered.dueAt_popDue (numbered : q.Numbered)
    (popped : q.popDue time = some (payload, rest)) (time' : Nat) :
    q.dueAt time' = if time = time' then payload :: rest.dueAt time' else rest.dueAt time' := by
  obtain ⟨before, serial, behind, filed, others, files⟩ := numbered.files.popDue popped
  rw [numbered.files.dueAt_eq, files.dueAt_eq, filed]
  simp only [List.filter_append, List.map_append, List.filter_cons, decide_eq_true_eq]
  by_cases here : time = time'
  · subst here
    have none : before.filter (·.time = time) = [] := by
      simpa [List.filter_eq_nil_iff] using others
    simp [none]
  · simp [here]

/-- Something is due at the ticks of the entries. -/
theorem dueAt_ne_nil_iff (q : EventQueue) (time : Nat) :
    q.dueAt time ≠ [] ↔ ∃ e ∈ q.toList, e.time = time := by
  have perm : q.entries.Perm q.toList := List.perm_insertionSort ..
  simp only [dueAt, agenda, ne_eq, List.map_eq_nil_iff, List.filter_eq_nil_iff, List.mem_map,
    decide_eq_true_eq, not_forall, not_not]
  constructor
  · rintro ⟨_, ⟨e, listed, rfl⟩, due⟩
    exact ⟨e, perm.mem_iff.mp listed, due⟩
  · rintro ⟨e, listed, due⟩
    exact ⟨_, ⟨e, perm.mem_iff.mpr listed, rfl⟩, due⟩

/-- The next tick is the least at which something is due. -/
theorem nextTime?_eq_some_iff (q : EventQueue) (time : Nat) :
    q.nextTime? = some time ↔ IsLeast {t | q.dueAt t ≠ []} time := by
  have least {time : Nat} (next : q.nextTime? = some time) :
      IsLeast {t | q.dueAt t ≠ []} time := by
    refine ⟨(q.dueAt_ne_nil_iff time).mpr (exists_of_nextTime? next), fun t due => ?_⟩
    obtain ⟨e, listed, rfl⟩ := (q.dueAt_ne_nil_iff t).mp due
    exact le_of_nextTime? next listed
  constructor
  · exact least
  · intro first
    cases next : q.nextTime? with
    | none =>
        obtain ⟨e, listed, -⟩ := (q.dueAt_ne_nil_iff time).mp first.1
        rw [nextTime?_eq_none_iff.mp next] at listed
        cases listed
    | some time' => rw [(least next).unique first]

theorem nextTime?_eq_none_iff_dueAt (q : EventQueue) :
    q.nextTime? = none ↔ ∀ time, q.dueAt time = [] := by
  rw [nextTime?_eq_none_iff, List.eq_nil_iff_forall_not_mem]
  constructor
  · intro empty time
    by_contra due
    obtain ⟨e, listed, -⟩ := (q.dueAt_ne_nil_iff time).mp due
    exact empty e listed
  · intro empty e listed
    exact (q.dueAt_ne_nil_iff e.time).mpr ⟨e, listed, rfl⟩ (empty e.time)

/-- An entry is given out at the next tick and at no other. -/
theorem exists_popDue_iff (q : EventQueue) (time : Nat) :
    (∃ due, q.popDue time = some due) ↔ q.nextTime? = some time := by
  obtain ⟨heap, pushed, wellFormed, fresh⟩ := q
  cases heap with
  | empty => simp [popDue, nextTime?]
  | node size top left right => simp [popDue, nextTime?]

/-- What is given out is the first that is due at the next tick. -/
theorem Numbered.popDue_iff (numbered : q.Numbered) (time : Nat) (payload : Payload) :
    (∃ rest, q.popDue time = some (payload, rest)) ↔
      q.nextTime? = some time ∧ (q.dueAt time).head? = some payload := by
  constructor
  · rintro ⟨rest, popped⟩
    refine ⟨(q.exists_popDue_iff time).mp ⟨_, popped⟩, ?_⟩
    rw [numbered.dueAt_popDue popped, if_pos rfl, List.head?_cons]
  · rintro ⟨next, first⟩
    obtain ⟨⟨payload', rest⟩, popped⟩ := (q.exists_popDue_iff time).mpr next
    rw [numbered.dueAt_popDue popped, if_pos rfl, List.head?_cons] at first
    cases first
    exact ⟨rest, popped⟩

/-! ## The log and the queue -/

/-- What was pushed is what was given out and then what is due. -/
structure Accounts (log : List Event) (q : EventQueue) : Prop where
  numbered : q.Numbered
  balanced : ∀ time, pushedFor time log = returnedFor time log ++ q.dueAt time

theorem Accounts.serve {log : List Event} (accounts : Accounts log q) (call : Call) :
    Accounts ((q.serve call).1 :: log) (q.serve call).2 := by
  obtain ⟨numbered, balanced⟩ := accounts
  cases call with
  | push time payload =>
      refine ⟨numbered.push time payload, fun time' => ?_⟩
      simp only [EventQueue.serve, pushedFor, returnedFor, numbered.dueAt_push, balanced]
      split
      · rw [List.append_assoc]
      · rfl
  | peek => exact ⟨numbered, balanced⟩
  | pop time =>
      simp only [EventQueue.serve]
      cases popped : q.popDue time with
      | none => exact ⟨numbered, balanced⟩
      | some due =>
          obtain ⟨payload, rest⟩ := due
          refine ⟨numbered.popDue popped, fun time' => ?_⟩
          simp only [pushedFor, returnedFor, balanced, numbered.dueAt_popDue popped]
          split
          · rw [List.append_assoc, List.singleton_append]
          · rfl
  | clear => exact ⟨List.nodup_nil, fun _ => rfl⟩

theorem accounts_history (calls : List Call) :
    Accounts (history calls).1 (history calls).2 := by
  induction calls using List.reverseRecOn with
  | nil => exact ⟨numbered_empty, fun _ => rfl⟩
  | append_singleton calls call ih =>
      rw [history, List.foldl_append]
      exact ih.serve call

theorem Accounts.waitingFor_eq {log : List Event} (accounts : Accounts log q) (time : Nat) :
    waitingFor time log = q.dueAt time := by
  rw [waitingFor, accounts.balanced, List.drop_left]

/-- After whatever calls: what was given out for a tick is what was pushed for it first, in the
same order, so that nothing is given out twice and the rest waits; the next tick is the least for
which something waits, if there is one; and an entry is given out at that tick and no other, the
one that waits longest. -/
theorem entries_come_out_by_tick_and_then_by_age (calls : List Call) :
    let (log, q) := history calls
    (∀ time, returnedFor time log <+: pushedFor time log) ∧
    (∀ time, q.nextTime? = some time ↔ IsLeast {t | waitingFor t log ≠ []} time) ∧
    (q.nextTime? = none ↔ ∀ time, waitingFor time log = []) ∧
    ∀ time payload, (∃ rest, q.popDue time = some (payload, rest)) ↔
      IsLeast {t | waitingFor t log ≠ []} time ∧
        (waitingFor time log).head? = some payload := by
  have accounts := accounts_history calls
  generalize history calls = past at accounts ⊢
  obtain ⟨log, q⟩ := past
  dsimp only at accounts ⊢
  simp only [accounts.waitingFor_eq]
  refine ⟨fun time => ?_, q.nextTime?_eq_some_iff, q.nextTime?_eq_none_iff_dueAt, ?_⟩
  · rw [accounts.balanced]
    exact List.prefix_append ..
  · intro time payload
    rw [accounts.numbered.popDue_iff, nextTime?_eq_some_iff]

theorem the_second_of_a_tie_comes_out_after_the_first :
    ∃ rest, (history [.push 7 (.wake ⟨0, 1⟩), .push 5 (.wake ⟨1, 2⟩), .push 5 (.wake ⟨2, 3⟩),
      .pop 7, .peek, .pop 5]).2.popDue 5 = some (.wake ⟨2, 3⟩, rest) :=
  have precedence := entries_come_out_by_tick_and_then_by_age [.push 7 (.wake ⟨0, 1⟩),
    .push 5 (.wake ⟨1, 2⟩), .push 5 (.wake ⟨2, 3⟩), .pop 7, .peek, .pop 5]
  (precedence.2.2.2 5 _).mpr ⟨(precedence.2.1 5).mp (by decide), by decide⟩

end EventQueue

end DeltaCycle
