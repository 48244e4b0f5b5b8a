import DeltaCycle.Simulation.Run

/-!
# The ways of rounds, cycles, loops and runs

What a commit, a drain, a round of resumes, a cycle, a loop and a run can do, said once. A later
module that proves something of all cycles proves it for each way of a cycle, and never opens the
loop. Where it is about what does not change or does not stop holding, it follows by the induction
that goes with the phase.
-/

set_option autoImplicit false

namespace DeltaCycle

namespace Simulation

variable {σ ω : Type} {B : Behaviours σ ω}

/-! ## Committing -/

theorem report_spec (s : Simulation σ ω) (id : SignalId) (old : Value) :
    ∃ world, (s.report id old).1 = { s with world } := by
  unfold report
  split
  · split
    · exact ⟨_, rfl⟩
    · exact ⟨s.world, rfl⟩
  · exact ⟨s.world, rfl⟩

theorem absorb_spec (s : Simulation σ ω) (id : SignalId) (commit : Commit) :
    ∃ ready queue commits world, (s.absorb id commit).1 =
      { s with ready, queue, world, stats := { s.stats with commits } } := by
  cases commit with
  | unchanged => exact ⟨_, _, _, _, rfl⟩
  | deferred delay value stamp =>
      simp only [absorb]
      split <;> exact ⟨_, _, _, _, rfl⟩
  | changed old woken =>
      obtain ⟨world, told⟩ := report_spec
        { s with
          stats := { s.stats with commits := s.stats.commits + 1 }
          ready := s.ready.append woken } id old
      exact ⟨_, _, _, world, told⟩

/-- The simulations differ in signals, in what is ready, in what is due and in what was counted as
committed. -/
def Moved (s s' : Simulation σ ω) : Prop :=
  ∃ signals ready queue commits world,
    s' = { s with
      kernel := { s.kernel with signals }
      ready, queue, world
      stats := { s.stats with commits } }

theorem Moved.refl (s : Simulation σ ω) : s.Moved s := ⟨_, _, _, _, _, rfl⟩

theorem Moved.trans {s s' s'' : Simulation σ ω} (first : s.Moved s') (second : s'.Moved s'') :
    s.Moved s'' := by
  obtain ⟨signals, ready, queue, commits, world, rfl⟩ := first
  obtain ⟨signals', ready', queue', commits', world', rfl⟩ := second
  exact ⟨signals', ready', queue', commits', world', rfl⟩

theorem Moved.hook {s s' : Simulation σ ω} (moved : s.Moved s') : s'.hook = s.hook := by
  obtain ⟨signals, ready, queue, commits, world, rfl⟩ := moved
  rfl

theorem Moved.now {s s' : Simulation σ ω} (moved : s.Moved s') :
    s'.kernel.now = s.kernel.now := by
  obtain ⟨signals, ready, queue, commits, world, rfl⟩ := moved
  rfl

theorem Moved.waiters {s s' : Simulation σ ω} (moved : s.Moved s') : s'.waiters = s.waiters := by
  obtain ⟨signals, ready, queue, commits, world, rfl⟩ := moved
  rfl

theorem moved_step (s : Simulation σ ω) (id : SignalId) (f : Signal → Signal × Commit) :
    s.Moved (s.step id f).1 := by
  unfold step
  cases s.kernel.signal? id with
  | none => exact .refl s
  | some signal =>
      obtain ⟨ready, queue, commits, world, absorbed⟩ :=
        absorb_spec { s with kernel := s.kernel.modify id fun _ => (f signal).1 } id (f signal).2
      exact ⟨_, ready, queue, commits, world, absorbed⟩

/-- What every update keeps is kept by all of them. -/
theorem updateAll_induction {P : Simulation σ ω → Prop} {s : Simulation σ ω} (holds : P s)
    (updates : ∀ s id, P s → P (s.step id Signal.update).1) (failure : Except SimError Unit)
    (ids : List SignalId) : P (s.updateAll failure ids).1 := by
  induction ids generalizing s failure with
  | nil => exact holds
  | cons id rest ih => exact ih (updates s id holds) _

theorem moved_updateAll (s : Simulation σ ω) (failure : Except SimError Unit)
    (ids : List SignalId) : s.Moved (s.updateAll failure ids).1 :=
  updateAll_induction (.refl s) (fun _ id moved => moved.trans (moved_step _ id _)) failure ids

/-! ## Draining -/

theorem moved_fire {s : Simulation σ ω} (queue : EventQueue) (payload : Payload) :
    s.Moved (fire { s with queue } payload).1 := by
  have taken : s.Moved { s with queue } := ⟨_, _, _, _, _, rfl⟩
  cases payload with
  | wake a => exact ⟨_, _, _, _, _, rfl⟩
  | apply id value stamp => exact taken.trans (moved_step _ id _)

/-- What is kept whenever an entry is taken from the queue and fired is kept by a drain. -/
theorem drainUpTo_induction {P : Simulation σ ω → Prop} {s : Simulation σ ω} {time : Nat}
    (holds : P s)
    (fires : ∀ s payload queue, s.queue.popDue time = some (payload, queue) → P s →
      P (fire { s with queue } payload).1)
    (count : Nat) : P (drainUpTo count s time).1 := by
  induction count generalizing s with
  | zero => exact holds
  | succ count ih =>
      rw [drainUpTo]
      cases popped : s.queue.popDue time with
      | none => exact holds
      | some due =>
          obtain ⟨payload, queue⟩ := due
          have fired := fires s payload queue popped holds
          dsimp only
          generalize fire { s with queue } payload = result at fired ⊢
          obtain ⟨s', e | _⟩ := result
          · exact fired
          · exact ih fired

theorem moved_drainUpTo (s : Simulation σ ω) (count time : Nat) :
    s.Moved (drainUpTo count s time).1 :=
  drainUpTo_induction (.refl s)
    (fun _ payload queue _ moved => moved.trans (moved_fire queue payload)) count

theorem sendOutputs_spec (s : Simulation σ ω) (bridge : Bridge ω) :
    ∃ world link, (s.sendOutputs bridge).1 = { s with world, link } ∧
      link.map (·.bridge) = s.link.map (·.bridge) := by
  unfold sendOutputs
  generalize bridge.send _ _ _ = result
  obtain ⟨world, _ | _⟩ := result
  · exact ⟨world, s.link, rfl, rfl⟩
  · refine ⟨world, _, rfl, ?_⟩
    rw [Option.map_map]
    rfl

/-- Where going on to a tick does not fail, the clock is moved, the queue is drained, and what is
sent then changes the link and the world alone. -/
theorem parts_of_advanceTo {s s' : Simulation σ ω} {time : Nat}
    (advanced : s.advanceTo time = (s', .ok ())) :
    ∃ m d, s.moveClock time = (m, .ok ()) ∧ m.drain time = (d, .ok ()) ∧
      ∃ world link, s' = { d with world, link } := by
  unfold advanceTo at advanced
  cases moved : s.moveClock time with
  | mk m result =>
      rw [moved] at advanced
      obtain e | ⟨⟩ := result
      · cases advanced
      · dsimp only at advanced
        cases drained : m.drain time with
        | mk d result =>
            rw [drained] at advanced
            obtain e | ⟨⟩ := result
            · cases advanced
            · refine ⟨m, d, rfl, drained, ?_⟩
              dsimp only at advanced
              cases linked : d.openLink? with
              | none =>
                  rw [linked] at advanced
                  cases advanced
                  exact ⟨_, _, rfl⟩
              | some l =>
                  obtain ⟨world, link, sent, -⟩ := sendOutputs_spec d l.bridge
                  rw [linked] at advanced
                  dsimp only at advanced
                  rw [advanced] at sent
                  exact ⟨world, link, sent⟩

/-- Going on to a tick keeps what moving the clock leaves and what draining and sending keep. -/
theorem advanceTo_induction {P : Simulation σ ω → Prop} {s : Simulation σ ω} {time : Nat}
    (moves : P (s.moveClock time).1) (drains : ∀ s count, P s → P (drainUpTo count s time).1)
    (sends : ∀ s l, s.openLink? = some l → P s → P (s.sendOutputs l.bridge).1) :
    P (s.advanceTo time).1 := by
  unfold advanceTo
  generalize s.moveClock time = result at moves ⊢
  obtain ⟨s₁, e | _⟩ := result
  · exact moves
  · have drained := drains s₁ s₁.queue.size moves
    dsimp only [drain]
    generalize drainUpTo s₁.queue.size s₁ time = result at drained ⊢
    obtain ⟨s₂, e | _⟩ := result
    · exact drained
    · dsimp only
      cases linked : s₂.openLink? with
      | none => exact drained
      | some l => exact sends s₂ l linked drained

/-! ## Rounds -/

/-- The way of a round that ends: waiters are resumed one by one, and then none is ready. -/
inductive RoundWay (B : Behaviours σ ω) (s' : Simulation σ ω) (failure' : Except SimError Unit) :
    Nat → Simulation σ ω → Except SimError Unit → Prop where
  | idle {fuel : Nat} (idle : s'.ready.pop? = none) : RoundWay B s' failure' fuel s' failure'
  | resumed {fuel : Nat} {s s₁ : Simulation σ ω} {failure result : Except SimError Unit}
      {a : Arming} {ready : Fifo Arming} (popped : s.ready.pop? = some (a, ready))
      (resumed : runWaiter B { s with ready } a = some (s₁, result))
      (further : RoundWay B s' failure' fuel s₁ (firstError failure result)) :
      RoundWay B s' failure' (fuel + 1) s failure

theorem runReady_succ {fuel : Nat} {s s₁ : Simulation σ ω} {failure result : Except SimError Unit}
    {a : Arming} {ready : Fifo Arming} (popped : s.ready.pop? = some (a, ready))
    (resumed : runWaiter B { s with ready } a = some (s₁, result)) :
    runReady B (fuel + 1) s failure = runReady B fuel s₁ (firstError failure result) := by
  simp only [runReady, popped, resumed]

theorem way_of_runReady {fuel : Nat} {s s' : Simulation σ ω} {failure failure' : Except SimError Unit}
    (ran : runReady B fuel s failure = .ok (s', failure')) :
    RoundWay B s' failure' fuel s failure := by
  induction fuel generalizing s failure with
  | zero =>
      rw [runReady] at ran
      split at ran
      · next empty =>
          cases ran
          exact .idle (Fifo.pop?_eq_none_iff.mpr (Fifo.isEmpty_iff.mp empty))
      · cases ran
  | succ fuel ih =>
      rw [runReady] at ran
      cases popped : s.ready.pop? with
      | none =>
          simp only [popped] at ran
          cases ran
          exact .idle popped
      | some next =>
          obtain ⟨a, ready⟩ := next
          simp only [popped] at ran
          cases resumed : runWaiter B { s with ready } a with
          | none => simp [resumed] at ran
          | some turn =>
              obtain ⟨s₁, result⟩ := turn
              simp only [resumed] at ran
              exact .resumed popped resumed (ih ran)

/-! ## Cycles -/

/-- The ways of a cycle: a commit fails, or the waiters run and the cycle proceeds, or it wraps up
because a waiter failed or somebody asked for the end. -/
inductive CycleWay (B : Behaviours σ ω) (fuel : Nat) (s : Simulation σ ω) (cap : Option Nat)
    (s' : Simulation σ ω) : Verdict → Prop where
  | refused {e : SimError} (committed : s.commitPending = (s', .error e)) :
      CycleWay B fuel s cap s' (.ended (.error e))
  | proceeded {m s₁ : Simulation σ ω} {verdict : Verdict} (committed : s.commitPending = (m, .ok ()))
      (ran : runReady B fuel m (.ok ()) = .ok (s₁, .ok ())) (running : s₁.kernel.stopRequest = none)
      (went : s₁.proceed cap = (s', verdict)) : CycleWay B fuel s cap s' verdict
  | wrapped {m s₁ : Simulation σ ω} {failure : Except SimError Unit} {verdict : Verdict}
      (committed : s.commitPending = (m, .ok ()))
      (ran : runReady B fuel m (.ok ()) = .ok (s₁, failure))
      (stops : failure = .ok () → s₁.kernel.stopRequest ≠ none)
      (ends : s₁.wrapUp failure = (s', verdict)) : CycleWay B fuel s cap s' verdict

theorem way_of_cycle {fuel : Nat} {s s' : Simulation σ ω} {cap : Option Nat} {verdict : Verdict}
    (turned : s.cycle B fuel cap = .ok (s', verdict)) : CycleWay B fuel s cap s' verdict := by
  unfold cycle at turned
  cases committed : s.commitPending with
  | mk m result =>
      simp only [committed] at turned
      cases result with
      | error e =>
          cases turned
          exact .refused committed
      | ok _ =>
          dsimp only at turned
          cases ran : runReady B fuel m (.ok ()) with
          | error stuck => simp [ran] at turned
          | ok played =>
              obtain ⟨s₁, failure⟩ := played
              simp only [ran] at turned
              split at turned
              · next running => exact .proceeded committed ran running (Except.ok.inj turned)
              · next stops =>
                  refine .wrapped committed ran ?_ (Except.ok.inj turned)
                  intro fine unasked
                  exact stops () fine unasked

theorem fst_goOn (result : Simulation σ ω × Except SimError Unit) : (goOn result).1 = result.1 := by
  obtain ⟨s, _ | _⟩ := result <;> rfl

section GoOn

variable {result : Simulation σ ω × Except SimError Unit} {s : Simulation σ ω}

theorem goOn_eq_again_iff : goOn result = (s, .again) ↔ result = (s, .ok ()) := by
  obtain ⟨s₁, e | ⟨⟩⟩ := result <;> simp [goOn]

theorem goOn_eq_error_iff {e : SimError} :
    goOn result = (s, .ended (.error e)) ↔ result = (s, .error e) := by
  obtain ⟨s₁, e' | ⟨⟩⟩ := result <;> simp [goOn]

theorem goOn_ne_ended {outcome : Outcome} : goOn result ≠ (s, .ended (.ok outcome)) := by
  obtain ⟨s₁, e | ⟨⟩⟩ := result <;> simp [goOn]

theorem again_of_goOn {verdict : Verdict} (went : goOn result = (s, verdict))
    (fine : ∀ e, verdict ≠ .ended (.error e)) : result = (s, .ok ()) ∧ verdict = .again := by
  obtain ⟨s₁, e | ⟨⟩⟩ := result
  · cases went
    exact absurd rfl (fine e)
  · cases went
    exact ⟨rfl, rfl⟩

end GoOn

/-- What each part of a cycle keeps is kept by the cycle. -/
theorem cycle_induction {P : Simulation σ ω → Prop} {fuel : Nat} {s s' : Simulation σ ω}
    {cap : Option Nat} {verdict : Verdict} (turned : s.cycle B fuel cap = .ok (s', verdict))
    (commits : P s.commitPending.1)
    (plays : ∀ {m s₁ failure}, P m → runReady B fuel m (.ok ()) = .ok (s₁, failure) → P s₁)
    (proceeds : ∀ s₁, P s₁ → P (s₁.proceed cap).1)
    (wraps : ∀ s₁ failure, P s₁ → P (s₁.wrapUp failure).1) : P s' := by
  cases way_of_cycle turned with
  | refused committed =>
      rw [committed] at commits
      exact commits
  | @proceeded m s₁ _ committed ran running went =>
      rw [committed] at commits
      have proceeded := proceeds s₁ (plays commits ran)
      rw [went] at proceeded
      exact proceeded
  | @wrapped m s₁ failure _ committed ran stops ends =>
      rw [committed] at commits
      have wrapped := wraps s₁ failure (plays commits ran)
      rw [ends] at wrapped
      exact wrapped

/-- Wrapping up commits and purges. Nothing else happens, except that the request to end is
withdrawn where it is granted. -/
theorem wrapUp_eq (s : Simulation σ ω) (failure : Except SimError Unit) :
    ∃ stopRequest, (s.wrapUp failure).1 =
      { s.commitPending.1.purge with
        kernel := { s.commitPending.1.purge.kernel with stopRequest } } := by
  unfold wrapUp
  dsimp only
  cases firstError failure s.commitPending.2 with
  | error e => exact ⟨_, rfl⟩
  | ok _ => exact ⟨none, rfl⟩

/-- Wrapping up ends the run, with a failure or because somebody asked for it. -/
theorem asked_of_wrapUp (s : Simulation σ ω) (failure : Except SimError Unit) :
    (∃ e, (s.wrapUp failure).2 = .ended (.error e)) ∨
      ∃ reason, (s.wrapUp failure).2 = .ended (.ok (.finished (.requested reason))) := by
  unfold wrapUp
  dsimp only
  cases firstError failure s.commitPending.2 with
  | error e => exact .inl ⟨e, rfl⟩
  | ok _ => exact .inr ⟨_, rfl⟩

theorem ended_of_wrapUp (s : Simulation σ ω) (failure : Except SimError Unit) :
    ∃ result, (s.wrapUp failure).2 = .ended result ∧ result ≠ .ok .suspended := by
  rcases s.asked_of_wrapUp failure with ⟨e, ended⟩ | ⟨reason, ended⟩
  · exact ⟨_, ended, nofun⟩
  · exact ⟨_, ended, nofun⟩

/-! ## Loops -/

/-- The way of a loop that ends: cycles that go on, and one that ends it. -/
inductive LoopWay (B : Behaviours σ ω) (cap : Option Nat) (s' : Simulation σ ω)
    (result : Except SimError Outcome) : Nat → Simulation σ ω → Prop where
  | ended {fuel : Nat} {s : Simulation σ ω}
      (turned : s.cycle B (fuel + 1) cap = .ok (s', .ended result)) :
      LoopWay B cap s' result (fuel + 1) s
  | again {fuel : Nat} {s s₁ : Simulation σ ω} (turned : s.cycle B (fuel + 1) cap = .ok (s₁, .again))
      (further : LoopWay B cap s' result fuel s₁) : LoopWay B cap s' result (fuel + 1) s

theorem way_of_loop {fuel : Nat} {s s' : Simulation σ ω} {cap : Option Nat}
    {result : Except SimError Outcome} (looped : loop B fuel s cap = .ok (s', result)) :
    LoopWay B cap s' result fuel s := by
  induction fuel generalizing s with
  | zero => cases looped
  | succ fuel ih =>
      rw [loop] at looped
      cases turned : s.cycle B (fuel + 1) cap with
      | error stuck => simp [turned] at looped
      | ok turn =>
          obtain ⟨s₁, verdict⟩ := turn
          simp only [turned] at looped
          cases verdict with
          | again => exact .again turned (ih looped)
          | ended result =>
              cases looped
              exact .ended turned

/-! ## Runs -/

/-- The ways of a run: the simulation has ended before, or the hook does not take the start, or the
loop ends and the run concludes. -/
inductive RunWay (B : Behaviours σ ω) (fuel : Nat) (s : Simulation σ ω) (duration : Option Nat) :
    Simulation σ ω → Except SimError Outcome → Prop where
  | terminated (ended : s.hasEnded = true) : RunWay B fuel s duration s (.error .terminated)
  | untold {s₁ : Simulation σ ω} {e : SimError} (running : s.hasEnded = false)
      (started : s.startHook = (s₁, .error e)) : RunWay B fuel s duration s₁ (.error e)
  | played {s₁ s₂ s' : Simulation σ ω} {final result : Except SimError Outcome}
      (running : s.hasEnded = false) (started : s.startHook = (s₁, .ok ()))
      (looped : loop B fuel s₁ (s₁.capOf duration) = .ok (s₂, final))
      (concluded : s₂.conclude final = (s', result)) : RunWay B fuel s duration s' result

theorem way_of_run {fuel : Nat} {s s' : Simulation σ ω} {duration : Option Nat}
    {result : Except SimError Outcome} (ran : run B fuel s duration = .ok (s', result)) :
    RunWay B fuel s duration s' result := by
  unfold run at ran
  split at ran
  · next ended =>
      cases ran
      exact .terminated ended
  · next running =>
      have running := Bool.eq_false_iff.mpr running
      cases started : s.startHook with
      | mk s₁ begun =>
          simp only [started] at ran
          cases begun with
          | error e =>
              cases ran
              exact .untold running started
          | ok _ =>
              dsimp only at ran
              cases looped : loop B fuel s₁ (s₁.capOf duration) with
              | error stuck => simp [looped] at ran
              | ok turn =>
                  obtain ⟨s₂, final⟩ := turn
                  simp only [looped] at ran
                  exact .played running started looped (Except.ok.inj ran)

/-- Closing the bridge changes the link and the world alone. -/
theorem closeLink_eq (s : Simulation σ ω) :
    ∃ link world, s.closeLink.1 = { s with link, world } := by
  unfold closeLink
  cases s.link with
  | none => exact ⟨s.link, s.world, rfl⟩
  | some l => exact ⟨_, _, rfl⟩

theorem shutdown_eq (s : Simulation σ ω) : ∃ link world, s.shutdown.1 = { s with link, world } := by
  obtain ⟨link, world, closed⟩ := s.closeLink_eq
  unfold shutdown
  generalize s.closeLink = result at closed ⊢
  obtain ⟨s', e | _⟩ := result
  · exact ⟨link, world, closed⟩
  · dsimp only at closed ⊢
    subst closed
    cases hooked : s.hook with
    | none => exact ⟨link, world, rfl⟩
    | some hook => exact ⟨link, _, rfl⟩

/-- What concluding a run changes. -/
theorem conclude_eq (s : Simulation σ ω) (result : Except SimError Outcome) :
    ∃ state link world, (s.conclude result).1 = { s with state, link, world } := by
  unfold conclude
  split
  · exact ⟨.suspended, s.link, s.world, rfl⟩
  · obtain ⟨link, world, same⟩ := shutdown_eq { s with state := .finished }
    generalize shutdown { s with state := .finished } = down at same ⊢
    obtain ⟨s', _ | _⟩ := down
    · exact ⟨.finished, link, world, same⟩
    · exact ⟨.finished, link, world, same⟩
  · obtain ⟨link, world, same⟩ := shutdown_eq { s with state := .failed }
    exact ⟨.failed, link, world, same⟩

theorem outcome_of_conclude {s t : Simulation σ ω} {result : Except SimError Outcome}
    {outcome : Outcome} (concluded : s.conclude result = (t, .ok outcome)) :
    result = .ok outcome := by
  obtain e | _ | reason := result
  · cases concluded
  · cases concluded
    rfl
  · simp only [conclude] at concluded
    generalize shutdown _ = down at concluded
    obtain ⟨s', _ | _⟩ := down <;> cases concluded
    rfl

end Simulation

end DeltaCycle
