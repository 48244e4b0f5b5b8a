import DeltaCycle.Proofs.Peeks
import DeltaCycle.Proofs.Passage
import DeltaCycle.Proofs.Rest

/-!
# Padded simulations

A simulation may carry additional marks, and may have counted its delta cycles in another way. Up to
its next commit phase it then does the same, also where its processes read proposed values in between.
-/

set_option autoImplicit false

namespace DeltaCycle

variable {σ ω α : Type}

/-- How many delta cycles were entered, in the present tick and in all, and the limit of a tick. -/
structure Counters where
  delta : Nat
  deltas : Nat
  limit : Nat

namespace Simulation

/-- The counters of a simulation. -/
def counters (s : Simulation σ ω) : Counters := ⟨s.delta, s.stats.deltas, s.maxDeltas⟩

/-- The simulation with other marks and other counters. -/
def padded (s : Simulation σ ω) (c : Counters) (marks : List SignalId) : Simulation σ ω :=
  { s with
    kernel := s.kernel.padded marks
    delta := c.delta
    maxDeltas := c.limit
    stats := { s.stats with deltas := c.deltas } }

/-- What a transition gives, with other marks and other counters. -/
def paddedWith (c : Counters) (marks : List SignalId) (p : Simulation σ ω × α) :
    Simulation σ ω × α := (p.1.padded c marks, p.2)

/-- What commutes with padding leaves the marks alone. -/
theorem pending_of_padded {s : Simulation σ ω} {f : Simulation σ ω → Simulation σ ω × α}
    (commutes : ∀ c marks, f (s.padded c marks) = paddedWith c marks (f s)) :
    (f s).1.kernel.pending = s.kernel.pending := by
  have itself := commutes s.counters s.kernel.pending
  exact congrArg (fun p : Simulation σ ω × α => p.1.kernel.pending) itself

variable (s : Simulation σ ω) (c : Counters) (marks : List SignalId)

/-! ## Commits -/

theorem report_padded (id : SignalId) (old : Value) :
    (s.padded c marks).report id old = paddedWith c marks (s.report id old) := by
  have found : (s.padded c marks).kernel.signal? id = s.kernel.signal? id := rfl
  have hook : (s.padded c marks).hook = s.hook := rfl
  unfold report
  rw [found, hook]
  split
  · split <;> rfl
  · rfl

theorem absorb_padded (id : SignalId) (commit : Commit) :
    (s.padded c marks).absorb id commit = paddedWith c marks (s.absorb id commit) := by
  cases commit with
  | unchanged => rfl
  | deferred delay value stamp =>
      have ahead : (s.padded c marks).after delay = s.after delay := rfl
      simp only [absorb, ahead]
      cases s.after delay <;> rfl
  | changed old woken =>
      exact report_padded { s with
        stats := { s.stats with commits := s.stats.commits + 1 }
        ready := s.ready.append woken } c marks id old

theorem step_padded (id : SignalId) (f : Signal → Signal × Commit) :
    (s.padded c marks).step id f = paddedWith c marks (s.step id f) := by
  have found : (s.padded c marks).kernel.signal? id = s.kernel.signal? id := rfl
  unfold step
  rw [found]
  cases s.kernel.signal? id with
  | none => rfl
  | some signal =>
      exact absorb_padded { s with kernel := s.kernel.modify id fun _ => (f signal).1 } c marks id _

theorem updateAll_padded (failure : Except SimError Unit) (ids : List SignalId) :
    (s.padded c marks).updateAll failure ids = paddedWith c marks (s.updateAll failure ids) := by
  induction ids generalizing s failure with
  | nil => rfl
  | cons id rest ih =>
      rw [updateAll, updateAll, step_padded]
      exact ih _ _

theorem changeOf?_padded (id : SignalId) (f : Signal → Signal × Commit) :
    (s.padded c marks).changeOf? id f = s.changeOf? id f := by
  have found : (s.padded c marks).kernel.signal? id = s.kernel.signal? id := rfl
  unfold changeOf?
  rw [found]
  rfl

theorem updates_padded (ids : List SignalId) : (s.padded c marks).updates ids = s.updates ids := by
  induction ids generalizing s with
  | nil => rfl
  | cons id rest ih =>
      rw [updates, updates, step_padded, changeOf?_padded]
      exact congrArg (_ ++ ·) (ih _)

theorem fire_padded (payload : Payload) :
    (s.padded c marks).fire payload = paddedWith c marks (s.fire payload) := by
  cases payload with
  | wake a => rfl
  | apply id value stamp => exact step_padded s c marks id _

theorem drainUpTo_padded (count time : Nat) :
    drainUpTo count (s.padded c marks) time = paddedWith c marks (drainUpTo count s time) := by
  induction count generalizing s with
  | zero => rfl
  | succ count ih =>
      have queue : (s.padded c marks).queue = s.queue := rfl
      simp only [drainUpTo, queue]
      cases s.queue.popDue time with
      | none => rfl
      | some due =>
          obtain ⟨payload, rest⟩ := due
          have fires : fire { s.padded c marks with queue := rest } payload =
              paddedWith c marks (fire { s with queue := rest } payload) :=
            fire_padded { s with queue := rest } c marks payload
          dsimp only
          rw [fires]
          rcases fire { s with queue := rest } payload with ⟨s₁, _ | _⟩
          · rfl
          · exact ih s₁

/-! ## Arming -/

theorem unseen_padded : Unseen fun s : Simulation σ ω => s.padded c marks where
  now _ := rfl
  known _ _ := rfl
  waiters _ := rfl
  ready _ := rfl
  queue _ := rfl
  setWaiters _ _ := rfl
  setReady _ _ := rfl
  setQueue _ _ := rfl
  enlists _ _ _ := rfl
  emits _ _ := rfl

/-! ## Resuming -/

theorem noteOutputs_padded (me : Arming) :
    (s.padded c marks).noteOutputs me = paddedWith c marks (s.noteOutputs me) := by
  have noted : ({ s.padded c marks with
      link := (s.padded c marks).link.map fun (l : Link ω) => { l with changed := true } } :
        Simulation σ ω) =
      { s with link := s.link.map fun (l : Link ω) => { l with changed := true } }.padded c marks :=
    rfl
  have outputs : (s.padded c marks).outputs = s.outputs := rfl
  unfold noteOutputs
  dsimp only
  rw [noted, outputs, (unseen_padded c marks).watchAll]
  rcases watchAll _ me (s.outputs.map .event) with ⟨s, _ | _⟩ <;> rfl

section Rounds

variable {known : SignalId → Prop} {B B' : Behaviours σ ω} {s s' : Simulation σ ω}
  {marks : List SignalId}

/-- A waiter whose process reads proposed values in between leaves the same, and additional marks. -/
theorem runBody_padded (peeks : B.Peeks known B') (holds : s.kernel.Holds known) (c : Counters)
    {me : Arming} {body : Body σ} {result : Except SimError Unit}
    (ran : runBody B s me body = some (s', result)) (more : Pads known s.kernel.pending marks) :
    ∃ marks', Pads known s'.kernel.pending marks' ∧
      runBody B' (s.padded c marks) me body = some (s'.padded c marks', result) := by
  by_cases bridge : body = .outputs
  · subst bridge
    have noted : s.noteOutputs me = (s', result) := Option.some.inj ran
    have pending := pending_of_padded (f := (·.noteOutputs me))
      fun c marks => s.noteOutputs_padded c marks me
    rw [noted] at pending
    refine ⟨marks, pending ▸ more, ?_⟩
    have noted' := s.noteOutputs_padded c marks me
    rw [noted] at noted'
    exact congrArg some noted'
  · rw [runBody_eq_of_ne bridge] at ran ⊢
    obtain ⟨⟨done, kernel, world⟩, acted, settled⟩ := Option.map_eq_some_iff.mp ran
    obtain ⟨marks', more', acted'⟩ := act_padded peeks holds acted more
    let m : Simulation σ ω := { s with kernel, world }
    have settles : m.settle B me done = (s', result) := settled
    have pending := pending_of_padded (f := (·.settle B me done))
      fun c marks => (unseen_padded c marks).settle m (B := B) rfl me done
    have settles' := (unseen_padded c marks').settle m peeks.name me done
    rw [settles] at pending settles'
    refine ⟨marks', pending ▸ more', Option.map_eq_some_iff.mpr ⟨_, acted', ?_⟩⟩
    exact settles'

theorem runWaiter_padded (peeks : B.Peeks known B') (holds : s.kernel.Holds known) (c : Counters)
    {a : Arming} {result : Except SimError Unit} (ran : runWaiter B s a = some (s', result))
    (more : Pads known s.kernel.pending marks) :
    ∃ marks', Pads known s'.kernel.pending marks' ∧
      runWaiter B' (s.padded c marks) a = some (s'.padded c marks', result) := by
  have table : (s.padded c marks).waiters = s.waiters := rfl
  unfold runWaiter at ran ⊢
  rw [table]
  generalize s.waiters.consume a = claim at ran ⊢
  obtain ⟨_ | ⟨me, body, stale⟩, waiters⟩ := claim
  · cases ran
    exact ⟨marks, more, rfl⟩
  · exact runBody_padded (s := noteStale { s with
      waiters, stats := { s.stats with resumes := s.stats.resumes + 1 } } stale) peeks holds c ran
      more

theorem runReady_padded (peeks : B.Peeks known B') (holds : s.kernel.Holds known) (c : Counters)
    {fuel : Nat} {failure failure' : Except SimError Unit}
    (ran : runReady B fuel s failure = .ok (s', failure'))
    (more : Pads known s.kernel.pending marks) :
    ∃ marks', Pads known s'.kernel.pending marks' ∧
      runReady B' fuel (s.padded c marks) failure = .ok (s'.padded c marks', failure') := by
  replace ran := way_of_runReady ran
  induction ran generalizing marks with
  | idle idle =>
      have idle' : (s'.padded c marks).ready.pop? = none := idle
      exact ⟨marks, more, runReady_of_idle idle' _ _⟩
  | @resumed fuel s s₁ failure result a ready popped resumed further ih =>
      obtain ⟨marks₁, more₁, resumed'⟩ :=
        runWaiter_padded (s := { s with ready }) peeks holds c resumed more
      have holds₁ := holds.of_committed
        (committed_of_surroundings (s := { s with ready }) (surroundings_runWaiter resumed))
      obtain ⟨marks', more', ran'⟩ := ih holds₁ more₁
      exact ⟨marks', more', (runReady_succ (s := s.padded c marks) popped resumed').trans ran'⟩

end Rounds

/-! ## Between rounds -/

theorem purge_padded : (s.padded c marks).purge = s.purge.padded c marks := by
  have each (ids : List SignalId) (k : Kernel) (keep : Arming → Bool) :
      ids.foldl (fun k id => k.modify id (purged keep)) (k.padded marks) =
        (ids.foldl (fun k id => k.modify id (purged keep)) k).padded marks := by
    induction ids generalizing k with
    | nil => rfl
    | cons id rest ih => exact ih (k.modify id (purged keep))
  rw [purge_eq, purge_eq]
  simp only [padded, each]

theorem sendOutputs_padded (b : Bridge ω) :
    (s.padded c marks).sendOutputs b = paddedWith c marks (s.sendOutputs b) := by
  have shown : snapshot (s.padded c marks).kernel b.outputs = snapshot s.kernel b.outputs := rfl
  unfold sendOutputs
  rw [shown]
  simp only [padded, Kernel.padded]
  rcases b.send s.kernel.now (snapshot s.kernel b.outputs) s.world with ⟨world, _ | _⟩ <;> rfl

section Exchanges

variable {known : SignalId → Prop} {s s' : Simulation σ ω} {marks : List SignalId}

theorem takeIn_padded (c : Counters) (more : Pads known s.kernel.pending marks) (changed : Bool)
    (values : List (SignalId × Value)) :
    ∃ marks', Pads known (s.takeIn changed values).1.kernel.pending marks' ∧
      (s.padded c marks).takeIn changed values =
        paddedWith c marks' (s.takeIn changed values) := by
  induction values generalizing s marks changed with
  | nil => exact ⟨marks, more, rfl⟩
  | cons value rest ih =>
      obtain ⟨id, value⟩ := value
      obtain ⟨marks₁, more₁, written⟩ := s.kernel.write_padded more id value false
      have kernel : (s.padded c marks).kernel = s.kernel.padded marks := rfl
      simp only [takeIn, kernel, written]
      generalize s.kernel.write id value false = result at more₁ ⊢
      obtain ⟨k, _ | _⟩ := result
      · exact ⟨marks, more, rfl⟩
      · exact ih (s := { s with kernel := k }) more₁ _

theorem readReply_padded (c : Counters) (more : Pads known s.kernel.pending marks) (l : Link ω) :
    ∃ marks', Pads known (s.readReply l).1.kernel.pending marks' ∧
      (s.padded c marks).readReply l = paddedWith c marks' (s.readReply l) := by
  have now : (s.padded c marks).kernel.now = s.kernel.now := rfl
  have world : (s.padded c marks).world = s.world := rfl
  unfold readReply changeLink
  dsimp only
  rw [now, world]
  split
  · rcases l.bridge.receive s.kernel.now s.world with ⟨world, _ | values⟩
    · exact ⟨marks, more, rfl⟩
    · exact takeIn_padded (s := { s with
        link := s.link.map fun l => { l with awaitingReply := false }, world }) c more false values
  · exact ⟨marks, more, rfl⟩

theorem exchange_padded (c : Counters) (more : Pads known s.kernel.pending marks) :
    ∃ marks', Pads known s.exchange.1.kernel.pending marks' ∧
      (s.padded c marks).exchange = paddedWith c marks' s.exchange := by
  have linked : (s.padded c marks).openLink? = s.openLink? := rfl
  unfold exchange
  rw [linked]
  cases s.openLink? with
  | none => exact ⟨marks, more, rfl⟩
  | some l =>
      obtain ⟨marks', more', read⟩ := readReply_padded c more l
      dsimp only
      rw [read]
      generalize s.readReply l = result at more' ⊢
      obtain ⟨m, _ | inbound⟩ := result
      · exact ⟨marks', more', rfl⟩
      · dsimp only [paddedWith]
        rw [sendOutputs_padded]
        have pending := pending_of_padded (f := (·.sendOutputs l.bridge))
          fun c marks => m.sendOutputs_padded c marks l.bridge
        split
        · generalize m.sendOutputs l.bridge = result at pending ⊢
          obtain ⟨t, _ | _⟩ := result
          · exact ⟨marks', pending ▸ more', rfl⟩
          · exact ⟨marks', pending ▸ more', rfl⟩
        · exact ⟨marks', more', rfl⟩

end Exchanges

end Simulation

end DeltaCycle
