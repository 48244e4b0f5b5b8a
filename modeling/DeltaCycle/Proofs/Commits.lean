import DeltaCycle.Proofs.Turns

/-!
# Commits

A change that is committed wakes those that wait for it. What a commit phase and the way to the
next tick make of the books is an advance of the roster by the changes that were committed and
by the tick at which the queue was drained.
-/

set_option autoImplicit false

namespace DeltaCycle

open Roster

variable {σ ω : Type}

/-! ## Signals -/

/-- How a signal comes out of a transition. -/
inductive Signal.Moves (time : Nat) (id : SignalId) (s : Signal) : Signal × Commit → Prop where
  | unchanged : Moves time id s (s, .unchanged)
  | deferred {s' : Signal} {delay stamp : Nat} {value : Value} (waits : s'.waits = s.waits) :
      Moves time id s (s', .deferred delay value stamp)
  | changed {s' : Signal} {woken : List Arming}
      (kept : ∀ t : Trigger, t.signal = id →
        s'.waits.list t = if t.firedBy ⟨time, id, s'.name, s.val, s'.val⟩ then [] else s.waits.list t)
      (gone : ∀ a, a ∈ woken ↔ ∃ t : Trigger,
        t.firedBy ⟨time, id, s'.name, s.val, s'.val⟩ = true ∧ a ∈ s.waits.list t) :
      Moves time id s (s', .changed s.val woken)

theorem Trigger.signal_of_firedBy {t : Trigger} {change : Change}
    (fired : t.firedBy change = true) : t.signal = change.signal := by
  cases t with
  | event signal => exact beq_iff_eq.mp fired
  | edge e =>
      obtain ⟨signal, kind⟩ := e
      cases kind <;> simp only [firedBy, Bool.and_eq_true, beq_iff_eq] at fired <;> exact fired.1.1

/-- Whom a change of a signal wakes. -/
theorem WaitLists.exists_firedBy (w : WaitLists) (a : Arming) (change : Change) :
    (∃ t : Trigger, t.firedBy change = true ∧ a ∈ w.list t) ↔
      a ∈ w.event ∨ (!change.old.truthy && change.new.truthy) = true ∧ a ∈ w.rising ∨
        (change.old.truthy && !change.new.truthy) = true ∧ a ∈ w.falling := by
  constructor
  · rintro ⟨signal | ⟨signal, _ | _⟩, fired, listed⟩
    · exact .inl listed
    · simp only [Trigger.firedBy, Bool.and_assoc, Bool.and_eq_true] at fired
      exact .inr (.inl ⟨by simpa using fired.2, listed⟩)
    · simp only [Trigger.firedBy, Bool.and_assoc, Bool.and_eq_true] at fired
      exact .inr (.inr ⟨by simpa using fired.2, listed⟩)
  · rintro (listed | ⟨rose, listed⟩ | ⟨fell, listed⟩)
    · exact ⟨.event change.signal, by simp [Trigger.firedBy], listed⟩
    · exact ⟨.edge ⟨change.signal, .rising⟩, by simpa [Trigger.firedBy] using rose, listed⟩
    · exact ⟨.edge ⟨change.signal, .falling⟩, by simpa [Trigger.firedBy] using fell, listed⟩

theorem Signal.moves_apply (time : Nat) (id : SignalId) (s : Signal) (new : Value) :
    Moves time id s (s.apply new) := by
  have kept (waits : WaitLists) (event : waits.event = [])
      (rising : waits.rising = if !s.val.truthy && new.truthy then [] else s.waits.rising)
      (falling : waits.falling = if s.val.truthy && !new.truthy then [] else s.waits.falling)
      (t : Trigger) (same : t.signal = id) :
      waits.list t =
        if t.firedBy ⟨time, id, s.name, s.val, new⟩ then [] else s.waits.list t := by
    subst same
    obtain signal | ⟨signal, _ | _⟩ := t
    · simp [Trigger.firedBy, Trigger.signal, WaitLists.list, event]
    · simp [Trigger.firedBy, Trigger.signal, WaitLists.list, rising]
    · simp [Trigger.firedBy, Trigger.signal, WaitLists.list, falling]
  have gone (woken : List Arming)
      (listed : ∀ a, a ∈ woken ↔ a ∈ s.waits.event ∨
        (!s.val.truthy && new.truthy) = true ∧ a ∈ s.waits.rising ∨
          (s.val.truthy && !new.truthy) = true ∧ a ∈ s.waits.falling) (a : Arming) :
      a ∈ woken ↔ ∃ t : Trigger, t.firedBy ⟨time, id, s.name, s.val, new⟩ = true ∧
        a ∈ s.waits.list t :=
    (listed a).trans (s.waits.exists_firedBy a ⟨time, id, s.name, s.val, new⟩).symm
  unfold apply
  split
  · exact .unchanged
  · split
    · next rose =>
        have calm : (s.val.truthy && !new.truthy) = false := by
          revert rose
          cases s.val.truthy <;> simp
        refine .changed (kept _ rfl ?_ ?_) (gone _ fun a => ?_)
        · rw [if_pos rose]
        · rw [calm, if_neg Bool.false_ne_true]
        · simp [rose, calm]
    · next flat =>
        split
        · next fell =>
            refine .changed (kept _ rfl ?_ ?_) (gone _ fun a => ?_)
            · rw [if_neg flat]
            · rw [if_pos fell]
            · rw [List.mem_append, List.mem_reverse, List.mem_reverse, and_iff_right fell,
                or_iff_right (a := _ ∧ _) fun rose => flat rose.1]
        · next level =>
            refine .changed (kept _ rfl ?_ ?_) (gone _ fun a => ?_)
            · rw [if_neg flat]
            · rw [if_neg level]
            · rw [List.mem_reverse, or_iff_right (a := _ ∧ _) fun rose => flat rose.1,
                or_iff_left fun fell => level fell.1]

theorem Signal.moves_update (time : Nat) (id : SignalId) (s : Signal) :
    Moves time id s s.update := by
  unfold update
  cases s.inertia with
  | none => exact moves_apply time id s s.next
  | some inertia => exact .deferred rfl

theorem Signal.moves_applyDeferred (time : Nat) (id : SignalId) (s : Signal) (value : Value)
    (stamp : Nat) : Moves time id s (s.applyDeferred value stamp) := by
  unfold applyDeferred
  cases s.inertia with
  | none => exact .unchanged
  | some inertia =>
      dsimp only
      split
      · exact moves_apply time id s value
      · exact .unchanged

theorem Kernel.watchers_moves {k : Kernel} {id : SignalId} {signal signal' : Signal}
    {woken : List Arming} (found : k.signal? id = some signal)
    (moves : Signal.Moves k.now id signal (signal', .changed signal.val woken)) :
    (∀ t, (k.modify id fun _ => signal').watchers t =
      if t.firedBy ⟨k.now, id, signal'.name, signal.val, signal'.val⟩ then [] else k.watchers t) ∧
      ∀ a, a ∈ woken ↔ ∃ t : Trigger,
        t.firedBy ⟨k.now, id, signal'.name, signal.val, signal'.val⟩ = true ∧ a ∈ k.watchers t := by
  cases moves with
  | changed kept gone =>
      refine ⟨fun t => ?_, fun a => (gone a).trans (exists_congr fun t => and_congr_right fun fired => ?_)⟩
      · unfold watchers
        rw [signal?_modify]
        by_cases same : id = t.signal
        · subst same
          rw [if_pos rfl, found]
          exact kept t rfl
        · rw [if_neg same, if_neg]
          exact fun fired => same (Trigger.signal_of_firedBy fired).symm
      · have same := Trigger.signal_of_firedBy fired
        dsimp only at same
        rw [watchers, same, found]

namespace Simulation

/-- The change that a transition of a signal makes, if it makes one. -/
def changeOf? (s : Simulation σ ω) (id : SignalId) (f : Signal → Signal × Commit) :
    Option Change :=
  match s.kernel.signal? id with
  | none => none
  | some signal =>
      match f signal with
      | (signal', .changed old _) =>
          some { time := s.kernel.now, signal := id, name := signal'.name, old, new := signal'.val }
      | _ => none

/-- The changes that the update phases of signals make, in order. -/
def updates (s : Simulation σ ω) : List SignalId → List Change
  | [] => []
  | id :: rest =>
      (s.changeOf? id Signal.update).toList ++ updates (s.step id Signal.update).1 rest

/-- The changes that a commit phase makes. -/
def commits (s : Simulation σ ω) : List Change :=
  updates { s with kernel := { s.kernel with pending := [] } } s.kernel.pending.reverse

/-- The change that an entry of the queue makes. -/
def changeOfPayload? (s : Simulation σ ω) : Payload → Option Change
  | .wake _ => none
  | .apply id value stamp => s.changeOf? id fun signal => signal.applyDeferred value stamp

/-- The changes that entries of the queue make while it is drained. -/
def arrivals : Nat → Simulation σ ω → Nat → List Change
  | 0, _, _ => []
  | count + 1, s, time =>
      match s.queue.popDue time with
      | none => []
      | some (payload, queue) =>
          (changeOfPayload? { s with queue } payload).toList ++
            arrivals count (fire { s with queue } payload).1 time

end Simulation

namespace Tracks

variable {ledger : List Tag} {s s' : Simulation σ ω} {marks : Marks} {r : Roster σ}
  (h : Tracks ledger s marks r)

include h

/-! ## Changes -/

/-- The books are what they were. -/
theorem of_books (waiters : s'.waiters = s.waiters) (ready : s'.ready = s.ready)
    (queue : s'.queue = s.queue) (watchers : s'.kernel.watchers = s.kernel.watchers) :
    Tracks ledger s' marks r := by
  refine ⟨?_, ?_, ?_, ?_⟩
  · rw [waiters]
    exact h.seats
  · rw [ready]
    exact h.marked
  · rw [watchers]
    exact h.watched
  · rw [queue]
    exact h.awaited

theorem fire {change : Change} {woken : List Arming} (waiters : s'.waiters = s.waiters)
    (ready : s'.ready = s.ready.append woken) (queue : s'.queue = s.queue)
    (watchers : ∀ t, s'.kernel.watchers t =
      if t.firedBy change then [] else s.kernel.watchers t)
    (gone : ∀ a, a ∈ woken ↔ ∃ t : Trigger, t.firedBy change = true ∧ a ∈ s.kernel.watchers t) :
    Tracks ledger s' marks (r.fire change) := by
  have hit {a : Arming} {tag : Tag} (tagged : marks.tag a = some tag) (current : Current r.seat tag)
      (idle : r.fired tag = false) :
      (r.triggers tag).any (·.firedBy change) = true ↔ a ∈ woken := by
    rw [gone, List.any_eq_true]
    refine exists_congr fun t => and_comm.trans (and_congr_right fun _ => ?_)
    exact (h.watched.exact tagged current idle t).symm
  refine ⟨?_, ?_, ?_, ?_⟩
  · rw [waiters]
    exact h.seats
  · rw [ready, Fifo.toList_append]
    refine h.marked.append (fun a listed => ?_) hit
    obtain ⟨t, -, watching⟩ := (gone a).mp listed
    exact h.watched.tagged t a watching
  · refine ⟨fun t a listed => ?_, fun {a tag} tagged (current : Current r.seat tag) idle t => ?_⟩
    · rw [watchers] at listed
      split at listed
      · cases listed
      · exact h.watched.tagged t a listed
    · obtain ⟨idle', calm⟩ := Bool.or_eq_false_iff.mp idle
      rw [isCurrent_iff.mpr current, Bool.true_and] at calm
      rw [watchers]
      split
      · next fired =>
          refine List.count_nil.trans (List.count_eq_zero.mpr fun listed => ?_).symm
          have hit := List.any_eq_true.mpr ⟨t, listed, fired⟩
          exact Bool.false_ne_true (calm.symm.trans hit)
      · exact h.watched.counts tagged current idle' t
  · rw [queue]
    exact h.awaited

theorem report (id : SignalId) (old : Value) : Tracks ledger (s.report id old).1 marks r := by
  unfold Simulation.report
  split
  · split
    · exact h.of_books rfl rfl rfl rfl
    · exact h
  · exact h

theorem step {id : SignalId} {f : Signal → Signal × Commit}
    (moves : ∀ signal, Signal.Moves s.kernel.now id signal (f signal)) :
    Tracks ledger (s.step id f).1 marks (r.advance (s.changeOf? id f).toList none) := by
  unfold Simulation.step Simulation.changeOf?
  cases found : s.kernel.signal? id with
  | none =>
      rw [Option.toList_none, advance_nil]
      exact h
  | some signal =>
      have outcome := moves signal
      dsimp only
      generalize f signal = result at outcome
      obtain ⟨signal', commit⟩ := result
      have kept : signal'.waits = signal.waits →
          (s.kernel.modify id fun _ => signal').watchers = s.kernel.watchers := by
        refine fun waits => Kernel.watchers_modify s.kernel id fun signal₁ found₁ => ?_
        cases found.symm.trans found₁
        exact waits
      cases commit with
      | unchanged =>
          cases outcome
          rw [Option.toList_none, advance_nil]
          exact h.of_books rfl rfl rfl (kept rfl)
      | deferred delay value stamp =>
          cases outcome with
          | deferred waits =>
              rw [Option.toList_none, advance_nil]
              have tracks : Tracks ledger { s with kernel := s.kernel.modify id fun _ => signal' }
                  marks r := h.of_books rfl rfl rfl (kept waits)
              unfold Simulation.absorb
              dsimp only
              split
              · exact tracks
              · next time _ =>
                  refine ⟨tracks.seats, tracks.marked, tracks.watched, ?_⟩
                  rw [EventQueue.wakes_push_apply]
                  exact tracks.awaited
      | changed old woken =>
          obtain rfl : old = signal.val := by
            cases outcome
            rfl
          obtain ⟨watchers, gone⟩ := Kernel.watchers_moves found outcome
          rw [Option.toList_some, ← advance_fire, advance_nil]
          refine Tracks.report ?_ id signal.val
          exact h.fire rfl rfl rfl watchers gone

theorem updateAll (ids : List SignalId) (failure : Except SimError Unit) :
    Tracks ledger (s.updateAll failure ids).1 marks (r.advance (s.updates ids) none) := by
  induction ids generalizing s r failure with
  | nil =>
      rw [Simulation.updates, advance_nil]
      exact h
  | cons id rest ih =>
      have stepped : Tracks ledger (s.step id Signal.update).1 marks
          (r.advance (s.changeOf? id Signal.update).toList none) :=
        h.step fun signal => signal.moves_update s.kernel.now id
      rw [Simulation.updates, ← advance_advance, Simulation.updateAll]
      exact ih stepped _

/-- A commit phase is an advance by the changes that it makes. -/
theorem commitPending : Tracks ledger s.commitPending.1 marks (r.advance s.commits none) := by
  have emptied : Tracks ledger { s with kernel := { s.kernel with pending := [] } } marks r :=
    h.of_books rfl rfl rfl rfl
  exact emptied.updateAll s.kernel.pending.reverse (.ok ())

end Tracks

/-! ## Draining -/

namespace EventQueue

theorem popDue_of_empty {q : EventQueue} (empty : q.size = 0) (time : Nat) :
    q.popDue time = none := by
  cases popped : q.popDue time with
  | none => rfl
  | some due =>
      have size := size_popDue popped
      omega

theorem mem_of_popDue {q rest : EventQueue} {time : Nat} {payload : Payload}
    (popped : q.popDue time = some (payload, rest)) {e : Entry} (listed : e ∈ rest.toList) :
    e ∈ q.toList := by
  obtain ⟨first, -, -, -, perm⟩ := toList_popDue popped
  exact perm.mem_iff.mpr (List.mem_cons_of_mem _ listed)

/-- Nothing comes due before the tick of the earliest entry. -/
theorem le_of_nextTime? {q : EventQueue} {time : Nat} (next : q.nextTime? = some time) {e : Entry}
    (listed : e ∈ q.toList) : time ≤ e.time := by
  obtain ⟨heap, pushed, wellFormed, fresh⟩ := q
  cases heap with
  | empty => cases next
  | node size top left right =>
      cases next
      have first : top.le e = true := by
        rcases List.mem_cons.mp listed with rfl | listed
        · exact e.le_refl
        · rcases List.mem_append.mp listed with listed | listed
          · exact Heap.all_iff.mp wellFormed.2.1 e listed
          · exact Heap.all_iff.mp wellFormed.2.2.1 e listed
      simp only [Entry.le, Bool.or_eq_true, Bool.and_eq_true, decide_eq_true_eq, beq_iff_eq] at first
      omega

/-- Where nothing is due at a tick that is not later than any entry, all entries are later. -/
theorem lt_of_popDue {q : EventQueue} {time : Nat} (idle : q.popDue time = none)
    (bound : ∀ e ∈ q.toList, time ≤ e.time) {e : Entry} (listed : e ∈ q.toList) :
    time < e.time := by
  obtain ⟨heap, pushed, wellFormed, fresh⟩ := q
  cases heap with
  | empty => cases listed
  | node size top left right =>
      simp only [popDue] at idle
      split at idle
      · cases idle
      · next undue =>
          have next : nextTime? ⟨.node size top left right, pushed, wellFormed, fresh⟩ =
              some top.time := rfl
          have first := le_of_nextTime? next listed
          have least := bound top (List.mem_cons_self ..)
          omega

theorem time_of_mem_wakes {q : EventQueue} {time : Nat} {a : Arming} (listed : (time, a) ∈ q.wakes) :
    ∃ e ∈ q.toList, e.time = time := by
  obtain ⟨e, listed, wakes⟩ := List.mem_filterMap.mp (Multiset.mem_coe.mp listed)
  refine ⟨e, listed, ?_⟩
  unfold Entry.wake? at wakes
  split at wakes
  · cases wakes
    rfl
  · cases wakes

end EventQueue

namespace Simulation

theorem queue_report (s : Simulation σ ω) (id : SignalId) (old : Value) :
    (s.report id old).1.queue = s.queue := by
  unfold report
  split
  · split <;> rfl
  · rfl

/-- A value that came due puts nothing into the queue. -/
theorem queue_step_applyDeferred (s : Simulation σ ω) (id : SignalId) (value : Value)
    (stamp : Nat) :
    (s.step id fun signal => signal.applyDeferred value stamp).1.queue = s.queue := by
  have applied (signal : Signal) (new : Value) (kernel : Kernel) :
      (absorb { s with kernel } id (signal.apply new).2).1.queue = s.queue := by
    unfold Signal.apply
    repeat' split
    all_goals first | rfl | exact queue_report _ _ _
  unfold step
  cases s.kernel.signal? id with
  | none => rfl
  | some signal =>
      dsimp only
      unfold Signal.applyDeferred
      cases signal.inertia with
      | none => rfl
      | some inertia =>
          dsimp only
          split
          · exact applied _ _ _
          · rfl

theorem queue_fire (s : Simulation σ ω) (payload : Payload) :
    (s.fire payload).1.queue = s.queue := by
  cases payload with
  | wake a => rfl
  | apply id value stamp => exact queue_step_applyDeferred s id value stamp

/-- When an entry that is due is taken and fired, the others are left. -/
theorem left_of_fire {s : Simulation σ ω} {count time : Nat} {payload : Payload}
    {queue : EventQueue} (popped : s.queue.popDue time = some (payload, queue))
    (enough : s.queue.size ≤ count + 1) (ahead : ∀ e ∈ s.queue.toList, time ≤ e.time) :
    (fire { s with queue } payload).1.queue.size ≤ count ∧
      ∀ e ∈ (fire { s with queue } payload).1.queue.toList, time ≤ e.time := by
  have size := EventQueue.size_popDue popped
  rw [queue_fire]
  exact ⟨Nat.le_of_succ_le_succ (size.trans_le enough), fun e listed =>
    ahead e (EventQueue.mem_of_popDue popped listed)⟩

end Simulation

namespace Tracks

variable {ledger : List Tag} {s s' : Simulation σ ω} {marks : Marks} {r : Roster σ}
  (h : Tracks ledger s marks r)

include h

theorem advance_undue {time : Nat} (undue : ∀ e ∈ s.queue.toList, e.time ≠ time) :
    r.advance [] (some time) = r := by
  refine (advance_of_forall r [] fun tag listed => ?_).trans (advance_nil r)
  have mapped := Multiset.mem_map_of_mem (fun e : Nat × Tag => (e.1, some e.2)) listed
  rw [← h.awaited] at mapped
  obtain ⟨⟨time', a⟩, listed', same⟩ := Multiset.mem_map.mp mapped
  cases (Prod.mk.inj same).1
  obtain ⟨e, entered, due⟩ := EventQueue.time_of_mem_wakes listed'
  exact undue e entered due

/-- An entry that wakes an arming is taken. -/
theorem wake {queue : EventQueue} {time : Nat} {a : Arming}
    (popped : s.queue.popDue time = some (.wake a, queue)) :
    ∃ tag, (time, tag) ∈ r.wakes ∧
      Tracks ledger { s with queue, ready := s.ready.push a } marks (r.wake time tag) := by
  have awaited := h.awaited
  rw [EventQueue.wakes_popDue_wake popped] at awaited
  obtain ⟨tag, tagged, listed, rest⟩ := awaited.pop
  refine ⟨tag, listed, h.seats, ?_, h.watched.notify tag, rest⟩
  rw [Fifo.toList_push]
  exact h.marked.notify h.seats.injective tagged

/-- The queue is drained of what is due. -/
theorem drainUpTo {count time : Nat} (enough : s.queue.size ≤ count)
    (bound : ∀ e ∈ s.queue.toList, time ≤ e.time)
    (drained : Simulation.drainUpTo count s time = (s', .ok ())) :
    Tracks ledger s' marks (r.advance (s.arrivals count time) (some time)) := by
  induction count generalizing s r with
  | zero =>
      rw [Simulation.drainUpTo] at drained
      cases drained
      have idle := EventQueue.popDue_of_empty (Nat.le_zero.mp enough) time
      rw [Simulation.arrivals, h.advance_undue]
      · exact h
      · exact fun e listed => (Nat.ne_of_lt (EventQueue.lt_of_popDue idle bound listed)).symm
  | succ count ih =>
      rw [Simulation.drainUpTo] at drained
      rw [Simulation.arrivals]
      cases popped : s.queue.popDue time with
      | none =>
          simp only [popped] at drained
          cases drained
          dsimp only
          rw [h.advance_undue]
          · exact h
          · exact fun e listed =>
              (Nat.ne_of_lt (EventQueue.lt_of_popDue popped bound listed)).symm
      | some taken =>
          obtain ⟨payload, queue⟩ := taken
          simp only [popped] at drained
          dsimp only
          obtain ⟨enough', bound'⟩ := Simulation.left_of_fire popped enough bound
          have rest : ∀ {r' : Roster σ},
              Tracks ledger (Simulation.fire { s with queue } payload).1 marks r' →
              Tracks ledger s' marks (r'.advance (Simulation.arrivals count
                (Simulation.fire { s with queue } payload).1 time) (some time)) := by
            intro r' tracks
            generalize Simulation.fire { s with queue } payload = result
              at drained tracks enough' bound'
            obtain ⟨s₁, e | ⟨⟩⟩ := result
            · cases drained
            · exact ih tracks enough' bound' drained
          cases payload with
          | wake a =>
              obtain ⟨tag, listed, tracks⟩ := h.wake popped
              have tracks' := rest tracks
              rw [advance_wake r listed] at tracks'
              exact tracks'
          | apply id value stamp =>
              have popped' : Tracks ledger { s with queue } marks r := by
                refine ⟨h.seats, h.marked, h.watched, ?_⟩
                have awaited := h.awaited
                rw [EventQueue.wakes_popDue_apply popped] at awaited
                exact awaited
              have tracks := rest (popped'.step
                fun signal => signal.moves_applyDeferred s.kernel.now id value stamp)
              rw [advance_append] at tracks
              exact tracks

end Tracks

end DeltaCycle
