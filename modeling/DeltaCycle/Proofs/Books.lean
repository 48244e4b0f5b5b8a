import DeltaCycle.Proofs.Alternatives

/-!
# What the books do not see

To arm a waiter or to settle an act is to keep the books: the table of waiters, who is ready, the
queue, the wait lists of signals, and the diagnostics. Of everything else, nothing but the clock
matters, and which signals exist. A change of a simulation that the books do not see may as well be
made after a waiter was armed as before.
-/

set_option autoImplicit false

namespace DeltaCycle

namespace Simulation

variable {σ ω ω' : Type}

/-- A change of simulations that the books do not see: it leaves alone what they are kept by, and it
commutes with every entry. -/
structure Unseen (f : Simulation σ ω → Simulation σ ω') : Prop where
  now (s : Simulation σ ω) : (f s).kernel.now = s.kernel.now
  known (s : Simulation σ ω) (id : SignalId) :
    ((f s).kernel.signal? id).isSome = (s.kernel.signal? id).isSome
  waiters (s : Simulation σ ω) : (f s).waiters = s.waiters
  ready (s : Simulation σ ω) : (f s).ready = s.ready
  queue (s : Simulation σ ω) : (f s).queue = s.queue
  setWaiters (s : Simulation σ ω) (waiters : WaiterTable (Body σ)) :
    f { s with waiters } = { f s with waiters }
  setReady (s : Simulation σ ω) (ready : Fifo Arming) : f { s with ready } = { f s with ready }
  setQueue (s : Simulation σ ω) (queue : EventQueue) : f { s with queue } = { f s with queue }
  enlists (s : Simulation σ ω) (me : Arming) (t : Trigger) :
    f { s with kernel := s.kernel.modify t.signal fun signal =>
        { signal with waits := enlist me signal.waits t } } =
      { f s with kernel := (f s).kernel.modify t.signal fun signal =>
        { signal with waits := enlist me signal.waits t } }
  emits (s : Simulation σ ω) (d : Diagnostic) :
    f { s with kernel := s.kernel.emit d } = { f s with kernel := (f s).kernel.emit d }

namespace Unseen

variable {f : Simulation σ ω → Simulation σ ω'} (unseen : Unseen f) (s : Simulation σ ω)

include unseen

/-! ## Arming -/

theorem watch (me : Arming) (trigger : Trigger) :
    (f s).watch me trigger = (s.watch me trigger).map f id := by
  have known := unseen.known s trigger.signal
  unfold Simulation.watch
  cases found : s.kernel.signal? trigger.signal with
  | none =>
      rw [found, Option.isSome_none, Option.isSome_eq_false_iff, Option.isNone_iff_eq_none] at known
      rw [known]
      rfl
  | some signal =>
      rw [found] at known
      obtain ⟨signal', found'⟩ := Option.isSome_iff_exists.mp known
      rw [found', unseen.waiters]
      have listed := unseen.setWaiters
        { s with kernel := s.kernel.modify trigger.signal fun signal =>
          { signal with waits := enlist me signal.waits trigger } }
        (s.waiters.noteSubscription me.slot trigger.signal)
      rw [unseen.enlists] at listed
      exact congrArg (·, Except.ok ()) listed.symm

theorem watchAll (me : Arming) (triggers : List Trigger) :
    (f s).watchAll me triggers = (s.watchAll me triggers).map f id := by
  induction triggers generalizing s with
  | nil => rfl
  | cons trigger rest ih =>
      rw [Simulation.watchAll, Simulation.watchAll, unseen.watch]
      rcases s.watch me trigger with ⟨s, _ | _⟩
      · rfl
      · exact ih s

theorem wakeAfter (me : Arming) (ticks : Nat) :
    (f s).wakeAfter me ticks = (s.wakeAfter me ticks).map f id := by
  have ahead : (f s).after ticks = s.after ticks := by rw [after, after, unseen.now]
  unfold Simulation.wakeAfter
  rw [ahead]
  cases s.after ticks with
  | error e => rfl
  | ok time =>
      rw [unseen.queue]
      exact congrArg (·, Except.ok ()) (unseen.setQueue s _).symm

theorem addWaiter (title : String) (body : Body σ) (parent : Option Continuation) :
    (f s).addWaiter title body parent = f (s.addWaiter title body parent) := by
  unfold Simulation.addWaiter
  rw [unseen.waiters, unseen.ready]
  have inserted := unseen.setReady
    { s with waiters := (s.waiters.insert title body parent).2 }
    (s.ready.push (s.waiters.insert title body parent).1)
  rw [unseen.setWaiters] at inserted
  exact inserted.symm

section Named

variable {B : Behaviours σ ω} {B' : Behaviours σ ω'} (named : B'.name = B.name)

include named

theorem addBranches (group : Nat) (clauses : List (Clause σ)) :
    clauses.foldl (addBranch B' group) (f s) = f (clauses.foldl (addBranch B group) s) := by
  induction clauses generalizing s with
  | nil => rfl
  | cons clause rest ih =>
      have first : addBranch B' group (f s) clause = f (addBranch B group s clause) := by
        cases clause with
        | spawn child =>
            rw [addBranch, addBranch, named]
            exact unseen.addWaiter s ..
        | _ => exact unseen.addWaiter s ..
      rw [List.foldl_cons, List.foldl_cons, first]
      exact ih _

theorem armOn (me : Arming) (alternative : Alternative σ) :
    (f s).armOn B' me alternative = (s.armOn B me alternative).map f id := by
  cases alternative with
  | trigger t => exact unseen.watch s me t
  | delay ticks => exact unseen.wakeAfter s me ticks
  | noop =>
      simp only [Simulation.armOn, unseen.queue, unseen.now]
      exact congrArg (·, Except.ok ()) (unseen.setQueue s _).symm
  | spawn child =>
      simp only [Simulation.armOn, named, unseen.addWaiter]
      rfl
  | join clauses =>
      have added := unseen.addBranches
        { s with waiters := (s.waiters.openJoin clauses.length me).2 } named
        (s.waiters.openJoin clauses.length me).1 clauses
      rw [unseen.setWaiters] at added
      simp only [Simulation.armOn, unseen.waiters]
      exact congrArg (·, Except.ok ()) added
  | refused e => rfl

theorem armOnAll (me : Arming) (alternatives : List (Alternative σ)) :
    (f s).armOnAll B' me alternatives = (s.armOnAll B me alternatives).map f id := by
  induction alternatives generalizing s with
  | nil => rfl
  | cons alternative rest ih =>
      rw [Simulation.armOnAll, Simulation.armOnAll, unseen.armOn s named]
      rcases s.armOn B me alternative with ⟨s, _ | _⟩
      · rfl
      · exact ih s

end Named

/-! ## Settling -/

theorem drop (slot : Nat) (e : SimError) : (f s).drop slot e = f (s.drop slot e) := by
  unfold Simulation.drop
  have dropped := unseen.setWaiters
    { s with kernel := s.kernel.emit (failureReport (s.waiters.name slot) s.kernel.now e) }
    (s.waiters.remove slot).2
  rw [unseen.emits] at dropped
  rw [unseen.waiters, unseen.now]
  exact dropped.symm

theorem release (result : Option Arming × WaiterTable (Body σ)) :
    (f s).release result = f (s.release result) := by
  obtain ⟨_ | caller, waiters⟩ := result
  · exact (unseen.setWaiters s waiters).symm
  · have released := unseen.setReady { s with waiters } (s.ready.push caller)
    rw [unseen.setWaiters] at released
    simp only [Simulation.release, unseen.ready]
    exact released.symm

theorem complete (slot : Nat) : (f s).complete slot = f (s.complete slot) := by
  simp only [Simulation.complete, unseen.waiters]
  rcases s.waiters.remove slot with ⟨_ | _ | group, waiters⟩ <;> exact unseen.release s _

theorem settle {B : Behaviours σ ω} {B' : Behaviours σ ω'} (named : B'.name = B.name)
    (me : Arming) (done : Act σ) :
    (f s).settle B' me done = (s.settle B me done).map f id := by
  cases done with
  | completes => exact congrArg (·, Except.ok ()) (unseen.complete s me.slot)
  | fails e => exact congrArg (·, Except.error e) (unseen.drop s me.slot e)
  | waits body alternatives =>
      have armed := unseen.armOnAll { s with waiters := s.waiters.restore me.slot body } named me
        alternatives
      rw [unseen.setWaiters] at armed
      simp only [Simulation.settle, rearm, unseen.waiters, armed]
      rcases Simulation.armOnAll B _ me alternatives with ⟨s, e | _⟩
      · exact congrArg (·, Except.error e) (unseen.drop s me.slot e)
      · rfl

end Unseen

end Simulation

end DeltaCycle
