import DeltaCycle.Proofs.CommitLog

/-!
# The last tick

Nothing is scheduled past the last tick, so the clock does not get there. Since a duration that
reaches past it ends at the last tick too, the cap of a run never lies before the tick at which the
run begins.
-/

set_option autoImplicit false

namespace DeltaCycle

variable {σ ω : Type} {B : Behaviours σ ω}

namespace Simulation

/-- The clock and the events do not lie past the last tick. -/
structure InTime (s : Simulation σ ω) : Prop where
  now : s.kernel.now ≤ lastTick
  queued : ∀ e ∈ s.queue.toList, e.time ≤ lastTick

theorem time_of_after {s : Simulation σ ω} {ticks time : Nat} (fits : s.after ticks = .ok time) :
    time ≤ lastTick := by
  unfold after at fits
  split at fits
  · next inRange =>
      cases fits
      exact inRange
  · cases fits

namespace InTime

variable {s s' : Simulation σ ω}

theorem of_same (inTime : s.InTime) (now : s'.kernel.now = s.kernel.now)
    (queue : s'.queue = s.queue) : s'.InTime := by
  constructor
  · rw [now]
    exact inTime.now
  · rw [queue]
    exact inTime.queued

theorem push (inTime : s.InTime) {time : Nat} (fits : time ≤ lastTick) (payload : Payload) :
    ({ s with queue := s.queue.push time payload } : Simulation σ ω).InTime := by
  constructor
  · exact inTime.now
  · intro e listed
    cases (s.queue.toList_push time payload).mem_iff.mp listed with
    | head => exact fits
    | tail _ before => exact inTime.queued e before

/-! ## Committing -/

theorem absorb (inTime : s.InTime) (id : SignalId) (commit : Commit) :
    (s.absorb id commit).1.InTime := by
  cases commit with
  | unchanged => exact inTime
  | changed old woken => exact inTime.of_same (now_report _ id old) (queue_report _ id old)
  | deferred delay value stamp =>
      simp only [Simulation.absorb]
      cases fits : s.after delay with
      | error e => exact inTime
      | ok time => exact inTime.push (time_of_after fits) _

theorem step (inTime : s.InTime) (id : SignalId) (f : Signal → Signal × Commit) :
    (s.step id f).1.InTime := by
  unfold Simulation.step
  cases s.kernel.signal? id with
  | none => exact inTime
  | some signal =>
      have stepped : ({ s with kernel := s.kernel.modify id fun _ => (f signal).1 } :
          Simulation σ ω).InTime := inTime.of_same rfl rfl
      exact stepped.absorb id (f signal).2

theorem updateAll (inTime : s.InTime) (failure : Except SimError Unit) (ids : List SignalId) :
    (s.updateAll failure ids).1.InTime :=
  updateAll_induction inTime (fun _ id inTime => inTime.step id _) failure ids

theorem commitPending (inTime : s.InTime) : s.commitPending.1.InTime := by
  have unmarked : ({ s with kernel := { s.kernel with pending := [] } } : Simulation σ ω).InTime :=
    inTime.of_same rfl rfl
  exact unmarked.updateAll _ _

/-! ## Resuming -/

theorem wakeAfter (inTime : s.InTime) (me : Arming) (ticks : Nat) :
    (s.wakeAfter me ticks).1.InTime := by
  unfold Simulation.wakeAfter
  cases fits : s.after ticks with
  | error e => exact inTime
  | ok time => exact inTime.push (time_of_after fits) _

theorem watch (inTime : s.InTime) (me : Arming) (trigger : Trigger) :
    (s.watch me trigger).1.InTime := by
  unfold Simulation.watch
  cases s.kernel.signal? trigger.signal with
  | none => exact inTime
  | some signal => exact inTime.of_same rfl rfl

theorem addBranches (inTime : s.InTime) (B : Behaviours σ ω) (group : Nat)
    (clauses : List (Clause σ)) : (clauses.foldl (addBranch B group) s).InTime := by
  obtain ⟨waiters, ready, same⟩ := addBranches_spec B s group clauses
  rw [same]
  exact inTime.of_same rfl rfl

theorem armOn (inTime : s.InTime) (B : Behaviours σ ω) (me : Arming)
    (alternative : Alternative σ) : (s.armOn B me alternative).1.InTime := by
  cases alternative with
  | trigger trigger => exact inTime.watch me trigger
  | delay ticks => exact inTime.wakeAfter me ticks
  | noop => exact inTime.push inTime.now _
  | spawn child => exact inTime.of_same rfl rfl
  | join clauses =>
      have joined : ({ s with waiters := (s.waiters.openJoin clauses.length me).2 } :
          Simulation σ ω).InTime := inTime.of_same rfl rfl
      exact joined.addBranches B _ clauses
  | refused e => exact inTime

theorem armOnAll (inTime : s.InTime) (B : Behaviours σ ω) (me : Arming)
    (alternatives : List (Alternative σ)) : (s.armOnAll B me alternatives).1.InTime :=
  armOnAll_induction inTime fun _ alternative _ inTime => inTime.armOn B me alternative

theorem settle (inTime : s.InTime) (B : Behaviours σ ω) (me : Arming) (done : Act σ) :
    (s.settle B me done).1.InTime := by
  cases done with
  | completes =>
      obtain ⟨waiters, ready, same⟩ := s.complete_spec me.slot
      rw [Simulation.settle, same]
      exact inTime.of_same rfl rfl
  | fails e => exact inTime.of_same rfl rfl
  | waits body alternatives =>
      exact rearm_induction (inTime.of_same rfl rfl)
        (fun _ inTime => inTime.armOnAll B me alternatives) fun _ _ inTime => inTime.of_same rfl rfl

theorem noteOutputs (inTime : s.InTime) (me : Arming) : (s.noteOutputs me).1.InTime :=
  noteOutputs_induction (inTime.of_same rfl rfl) (fun _ trigger inTime => inTime.watch me trigger)
    fun _ inTime => inTime.of_same rfl rfl

theorem runBody (inTime : s.InTime) {me : Arming} {body : Body σ} {result : Except SimError Unit}
    (ran : runBody B s me body = some (s', result)) : s'.InTime := by
  cases way_of_runBody ran with
  | noted notes =>
      have noted := inTime.noteOutputs me
      rwa [notes] at noted
  | @acted _ done kernel world _ _ acted settled =>
      have left : ({ s with kernel, world } : Simulation σ ω).InTime :=
        inTime.of_same (Kernel.now_of_committed (edits_act acted).committed) rfl
      have after := left.settle B me done
      rwa [settled] at after

theorem runReady (inTime : s.InTime) {fuel : Nat} {failure failure' : Except SimError Unit}
    (ran : runReady B fuel s failure = .ok (s', failure')) : s'.InTime := by
  replace ran := way_of_runReady ran
  induction ran with
  | idle => exact inTime
  | @resumed _ s _ _ _ a ready popped resumed further ih =>
      refine ih ?_
      unfold runWaiter at resumed
      generalize s.waiters.consume a = claim at resumed
      obtain ⟨_ | ⟨me, body, stale⟩, waiters⟩ := claim
      · cases resumed
        exact inTime.of_same rfl rfl
      · refine InTime.runBody ?_ resumed
        exact inTime.of_same rfl rfl

/-! ## Moving on -/

theorem exchange (inTime : s.InTime) : s.exchange.1.InTime := by
  obtain ⟨kernel, world, link, exchanged, edits, -⟩ := exchange_spec s
  rw [exchanged]
  exact inTime.of_same (Kernel.now_of_committed edits.committed) rfl

theorem purge (inTime : s.InTime) : s.purge.InTime := by
  obtain ⟨signals, purged⟩ := kernel_purge s
  refine inTime.of_same ?_ rfl
  rw [purged]

theorem nextDelta (inTime : s.InTime) : s.nextDelta.1.InTime := by
  obtain ⟨delta, deltas, next⟩ := nextDelta_spec s
  rw [next]
  exact inTime.of_same rfl rfl

theorem drainUpTo (inTime : s.InTime) (count time : Nat) :
    (drainUpTo count s time).1.InTime := by
  refine drainUpTo_induction inTime (fun s₁ payload queue popped inTime => ?_) count
  have left : ({ s₁ with queue } : Simulation σ ω).InTime :=
    ⟨inTime.now, fun e listed => inTime.queued e (EventQueue.mem_of_popDue popped listed)⟩
  cases payload with
  | wake arming => exact left.of_same rfl rfl
  | apply id value stamp => exact left.step id _

theorem moveClock (inTime : s.InTime) {time : Nat} (fits : time ≤ lastTick) :
    (s.moveClock time).1.InTime := by
  have entered := inTime.nextDelta
  unfold Simulation.moveClock
  split
  · exact ⟨fits, inTime.queued⟩
  · generalize s.nextDelta = result at entered ⊢
    obtain ⟨s₁, e | _⟩ := result
    · exact entered
    · exact ⟨fits, entered.queued⟩

theorem advanceTo (inTime : s.InTime) {time : Nat} (fits : time ≤ lastTick) :
    (s.advanceTo time).1.InTime := by
  refine advanceTo_induction (inTime.moveClock fits)
    (fun _ count inTime => inTime.drainUpTo count time) fun s₁ l _ inTime => ?_
  obtain ⟨world, link, sent, -⟩ := sendOutputs_spec s₁ l.bridge
  rw [sent]
  exact inTime.of_same rfl rfl

/-- Where a tick is left, the clock moves to an event, or to a cap before one. -/
theorem leaveTick (inTime : s.InTime) (cap : Option Nat) : (s.leaveTick cap).1.InTime := by
  have within {time : Nat} (next : s.queue.nextTime? = some time) : time ≤ lastTick := by
    obtain ⟨e, listed, rfl⟩ := EventQueue.exists_of_nextTime? next
    exact inTime.queued e listed
  exact leaveTick_induction (P := fun _ t => t.InTime) inTime
    (fun limit time next _ before =>
      ⟨Nat.le_trans (Nat.le_of_lt before) (within next), inTime.queued⟩)
    fun time next _ => inTime.advanceTo (within next)

theorem proceed (inTime : s.InTime) (cap : Option Nat) : (s.proceed cap).1.InTime := by
  have exchanges := inTime.exchange
  have way := way_of_proceed s
  generalize s.settled? = settled at way
  cases way with
  | failed exchanged proceeds =>
      rw [exchanged] at exchanges
      rw [proceeds]
      exact exchanges
  | entered exchanged proceeds =>
      rw [exchanged] at exchanges
      rw [proceeds, fst_goOn]
      exact exchanges.purge.nextDelta
  | settled exchanged pending proceeds =>
      rw [exchanged] at exchanges
      rw [proceeds]
      exact exchanges.purge.leaveTick cap

theorem wrapUp (inTime : s.InTime) (failure : Except SimError Unit) :
    (s.wrapUp failure).1.InTime := by
  obtain ⟨stopRequest, same⟩ := s.wrapUp_eq failure
  rw [same]
  exact inTime.commitPending.purge.of_same rfl rfl

theorem cycle (inTime : s.InTime) {fuel : Nat} {cap : Option Nat} {verdict : Verdict}
    (turned : s.cycle B fuel cap = .ok (s', verdict)) : s'.InTime :=
  cycle_induction turned inTime.commitPending (fun inTime ran => inTime.runReady ran)
    (fun _ inTime => inTime.proceed cap) fun _ failure inTime => inTime.wrapUp failure

/-! ## Runs -/

theorem of_office (inTime : s.InTime) (same : s'.office = s.office) : s'.InTime := by
  have kernel : s'.kernel = s.kernel := congrArg (·.1.kernel) same
  have queue : s'.queue = s.queue := congrArg (·.1.queue) same
  exact inTime.of_same (congrArg Kernel.now kernel) queue

theorem loop (inTime : s.InTime) {fuel : Nat} {cap : Option Nat}
    {result : Except SimError Outcome} (looped : loop B fuel s cap = .ok (s', result)) :
    s'.InTime := by
  replace looped := way_of_loop looped
  induction looped with
  | ended turned => exact inTime.cycle turned
  | again turned further ih => exact ih (inTime.cycle turned)

theorem run (inTime : s.InTime) {fuel : Nat} {duration : Option Nat}
    {result : Except SimError Outcome} (ran : run B fuel s duration = .ok (s', result)) :
    s'.InTime := by
  have begun := inTime.of_office s.office_startHook
  cases way_of_run ran with
  | terminated ended => exact inTime
  | untold running started =>
      rw [started] at begun
      exact begun
  | @played s₁ s₂ _ final _ running started looped concluded =>
      rw [started] at begun
      have concludes := (begun.loop looped).of_office (s₂.office_conclude final)
      rw [concluded] at concludes
      exact concludes

/-- No cap lies before the tick at which a run begins. -/
theorem le_capOf (inTime : s.InTime) (duration : Option Nat) :
    ∀ limit ∈ s.capOf duration, s.kernel.now ≤ limit := by
  intro limit capped
  obtain ⟨d, -, rfl⟩ := Option.map_eq_some_iff.mp capped
  exact Nat.le_min.mpr ⟨Nat.le_add_right _ d, inTime.now⟩

end InTime

/-- A simulation begins at the first tick, with nothing scheduled. -/
theorem inTime_of_build {kernel : Kernel} {instances : List (Instance σ ω)} {world : ω}
    {s : Simulation σ ω} (made : kernel.Made) (built : build B kernel instances world = .ok s) :
    s.InTime := by
  have desk := desk_build built
  have kernel' : s.kernel = kernel := congrArg Desk.kernel desk
  have queue : s.queue = {} := congrArg Desk.queue desk
  constructor
  · rw [kernel', made.sound.atStart.now]
    exact Nat.zero_le _
  · rw [queue]
    exact fun e listed => absurd listed List.not_mem_nil

end Simulation

end DeltaCycle
