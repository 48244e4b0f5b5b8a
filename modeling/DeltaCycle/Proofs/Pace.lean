import DeltaCycle.Proofs.Caps

/-!
# Pace

From one cycle to the next, either the clock moves on and the count of delta cycles begins anew, or
the tick stays the same and another delta cycle of it is entered. Commits, resumes and exchanges
leave the clock and the counts alone.
-/

set_option autoImplicit false

namespace DeltaCycle

variable {σ ω : Type}

/-- How far a simulation has come. -/
structure Pace where
  now : Nat
  /-- The delta cycle within the tick. -/
  delta : Nat
  /-- The delta cycles that were entered so far, in all ticks. -/
  deltas : Nat
  limit : Nat

namespace Pace

/-- Another delta cycle of the tick is entered. -/
def entered (p : Pace) : Pace := { p with delta := p.delta + 1, deltas := p.deltas + 1 }

/-- What leads to the next cycle: another delta cycle that the limit allows, or a later tick that is
not past the cap. -/
inductive Goes (cap : Option Nat) (p : Pace) : Pace → Prop where
  | stays (allowed : p.delta < p.limit) : p.Goes cap p.entered
  | moves {now : Nat} (later : p.now < now) (inTime : ∀ limit ∈ cap, now ≤ limit) :
      p.Goes cap { p with now, delta := 0 }

/-- One more delta cycle of the tick is entered than the limit allows, and the error tells so. -/
structure Exceeds (p p' : Pace) (e : SimError) : Prop where
  entered : p' = p.entered
  past : p.limit ≤ p.delta
  told : e = .deltaCycleLimit p.now p.limit

theorem Goes.limit {cap : Option Nat} {p p' : Pace} (goes : p.Goes cap p') : p'.limit = p.limit := by
  cases goes <;> rfl

end Pace

namespace Simulation

variable {B : Behaviours σ ω}

/-- The pace of a simulation. -/
def pace (s : Simulation σ ω) : Pace := ⟨s.kernel.now, s.delta, s.stats.deltas, s.maxDeltas⟩

/-! ## What leaves the pace alone -/

theorem Moved.pace {s s' : Simulation σ ω} (moved : s.Moved s') : s'.pace = s.pace := by
  obtain ⟨signals, ready, queue, commits, world, rfl⟩ := moved
  rfl

theorem pace_step (s : Simulation σ ω) (id : SignalId) (f : Signal → Signal × Commit) :
    (s.step id f).1.pace = s.pace :=
  (moved_step s id f).pace

theorem pace_commitPending (s : Simulation σ ω) : s.commitPending.1.pace = s.pace :=
  (moved_updateAll { s with kernel := { s.kernel with pending := [] } } _ _).pace

theorem pace_drainUpTo (s : Simulation σ ω) (count time : Nat) :
    (drainUpTo count s time).1.pace = s.pace :=
  (moved_drainUpTo s count time).pace

theorem pace_of_runReady {fuel : Nat} {s s' : Simulation σ ω}
    {failure failure' : Except SimError Unit}
    (ran : runReady B fuel s failure = .ok (s', failure')) : s'.pace = s.pace := by
  obtain ⟨resumes, same⟩ := surroundings_runReady ran
  exact congrArg
    (fun x : Surroundings ω => Pace.mk x.kernel.now x.delta x.stats.deltas x.maxDeltas) same

theorem pace_exchange (s : Simulation σ ω) : s.exchange.1.pace = s.pace := by
  obtain ⟨kernel, world, link, exchanged, edits, -⟩ := exchange_spec s
  rw [exchanged]
  exact congrArg (Pace.mk · s.delta s.stats.deltas s.maxDeltas)
    (Kernel.now_of_committed edits.committed)

theorem pace_purge (s : Simulation σ ω) : s.purge.pace = s.pace := by
  have now := now_purge s
  rw [purge_eq] at now ⊢
  exact congrArg (Pace.mk · s.delta s.stats.deltas s.maxDeltas) now

theorem pace_startHook (s : Simulation σ ω) : s.startHook.1.pace = s.pace := by
  unfold startHook
  split
  · rfl
  · dsimp only
    split <;> rfl

theorem pace_conclude (s : Simulation σ ω) (result : Except SimError Outcome) :
    (s.conclude result).1.pace = s.pace := by
  obtain ⟨state, link, world, same⟩ := s.conclude_eq result
  rw [same]
  rfl

theorem Adds.pace {s s' : Simulation σ ω} {bodies : List (Body σ)} (adds : Adds s bodies s') :
    s'.pace = s.pace := by
  induction adds with
  | refl => rfl
  | add _ title body ih => exact ih
  | link _ link ih => exact ih

/-! ## From cycle to cycle -/

theorem nextDelta_eq (s : Simulation σ ω) :
    s.nextDelta.1.pace = s.pace.entered ∧
      s.nextDelta.2 =
        if s.maxDeltas < s.delta + 1 then .error (.deltaCycleLimit s.kernel.now s.maxDeltas)
        else .ok () := by
  unfold nextDelta
  dsimp only
  split <;> exact ⟨rfl, rfl⟩

theorem goes_of_nextDelta {s s' : Simulation σ ω} (cap : Option Nat)
    (next : s.nextDelta = (s', .ok ())) : s.pace.Goes cap s'.pace := by
  obtain ⟨pace, outcome⟩ := nextDelta_eq s
  rw [next] at pace outcome
  dsimp only at pace outcome
  rw [pace]
  split at outcome
  · cases outcome
  · next allowed => exact .stays (by dsimp only [Simulation.pace]; omega)

theorem exceeds_of_nextDelta {s s' : Simulation σ ω} {e : SimError}
    (next : s.nextDelta = (s', .error e)) : s.pace.Exceeds s'.pace e := by
  obtain ⟨pace, outcome⟩ := nextDelta_eq s
  rw [next] at pace outcome
  dsimp only at pace outcome
  split at outcome
  · next past =>
      cases outcome
      exact ⟨pace, Nat.le_of_lt_succ past, rfl⟩
  · cases outcome

/-- Where the clock goes on to a tick, it stays or moves. -/
theorem goes_of_advanceTo {s s' : Simulation σ ω} {cap : Option Nat} {time : Nat}
    (due : s.kernel.now ≤ time) (inTime : ∀ limit ∈ cap, time ≤ limit)
    (advanced : s.advanceTo time = (s', .ok ())) : s.pace.Goes cap s'.pace := by
  -- What is drained and sent after the clock has moved leaves the pace alone.
  obtain ⟨s₁, moved, pace⟩ : ∃ s₁, s.moveClock time = (s₁, .ok ()) ∧ s'.pace = s₁.pace := by
    obtain ⟨m, d, moved, drained, world, link, rfl⟩ := parts_of_advanceTo advanced
    have pace := pace_drainUpTo m m.queue.size time
    rw [show drainUpTo m.queue.size m time = (d, .ok ()) from drained] at pace
    exact ⟨m, moved, pace⟩
  rw [pace]
  unfold moveClock at moved
  split at moved
  · next later =>
      cases moved
      exact .moves later inTime
  · next here =>
      have same : time = s.kernel.now := Nat.le_antisymm (Nat.not_lt.mp here) due
      subst same
      cases entered : s.nextDelta with
      | mk s₂ result =>
          obtain _ | ⟨⟩ := result
          · simp [entered] at moved
          · have goes := goes_of_nextDelta cap entered
            have now : s₂.kernel.now = s.kernel.now := by
              obtain ⟨delta, deltas, same⟩ := s.nextDelta_spec
              rw [entered] at same
              exact congrArg (·.kernel.now) same
            simp only [entered] at moved
            cases moved
            simp only [Simulation.pace, now] at goes ⊢
            exact goes

theorem goes_of_leaveTick {s s' : Simulation σ ω} {cap : Option Nat}
    (onwards : s.kernel.now ≤ s'.kernel.now) (left : s.leaveTick cap = (s', .again)) :
    s.pace.Goes cap s'.pace := by
  have way := way_of_leaveTick left
  generalize s.onward? cap = onward at way
  cases way with
  | advanced elsewhere next inTime advanced =>
      cases now_of_advanceTo advanced
      exact goes_of_advanceTo onwards inTime advanced

/-- Where a tick is left for a later run, nothing moves, or the clock moves to the cap. -/
theorem pace_of_suspended {s s' : Simulation σ ω} {cap : Option Nat}
    (capped : ∀ limit ∈ cap, s.kernel.now ≤ limit)
    (left : s.leaveTick cap = (s', .ended (.ok .suspended))) :
    s'.pace = s.pace ∨ s.pace.Goes cap s'.pace := by
  have way := way_of_leaveTick left
  generalize s.onward? cap = onward at way
  cases way with
  | held here => exact .inl rfl
  | @stopped limit time elsewhere next present before =>
      cases present
      have later : s.kernel.now < limit :=
        Nat.lt_of_le_of_ne (capped limit rfl) fun same => elsewhere (congrArg some same.symm)
      exact .inr (.moves later fun other same => by cases same; exact Nat.le_refl _)

/-- From one cycle to the next, the clock moves towards the cap, or the delta cycle towards the
limit. -/
theorem Reached.goes_of_cycle {s s' : Simulation σ ω} (reached : Reached B s) {fuel : Nat}
    {cap : Option Nat} (turned : s.cycle B fuel cap = .ok (s', .again)) :
    s.pace.Goes cap s'.pace := by
  have onwards := reached.le_now_of_cycle turned
  obtain ⟨m, s₁, committed, ran, ends⟩ := round_of_cycle turned nofun
  have before : s₁.pace = s.pace := by
    have paced := pace_commitPending s
    rw [committed] at paced
    exact (pace_of_runReady ran).trans paced
  -- A cycle that is followed by another one enters a delta cycle or leaves the tick.
  rcases ends with ⟨-, went⟩ | wrapped
  · have between := (pace_exchange s₁).trans before
    have way := s₁.way_of_proceed
    generalize s₁.settled? = settled at way
    cases way with
    | failed exchanged proceeds => cases (proceeds cap).symm.trans went
    | @entered s₂ sent exchanged proceeds =>
        rw [exchanged] at between
        rw [← between, ← pace_purge s₂]
        exact goes_of_nextDelta cap (goOn_eq_again_iff.mp ((proceeds cap).symm.trans went))
    | @settled s₂ exchanged pending proceeds =>
        rw [exchanged] at between
        replace between := (pace_purge s₂).trans between
        have now : s₂.purge.kernel.now = s.kernel.now := congrArg Pace.now between
        rw [← between]
        exact goes_of_leaveTick (now.trans_le onwards) ((proceeds cap).symm.trans went)
  · obtain ⟨result, ended, -⟩ := ended_of_wrapUp s₁ (.ok ())
    rw [wrapped] at ended
    cases ended

/-- A cycle that suspends its run leaves the pace as it is, or moves the clock to the cap. -/
theorem pace_of_suspended_cycle {s s' : Simulation σ ω} {fuel : Nat} {cap : Option Nat}
    (capped : ∀ limit ∈ cap, s.kernel.now ≤ limit)
    (turned : s.cycle B fuel cap = .ok (s', .ended (.ok .suspended))) :
    s'.pace = s.pace ∨ s.pace.Goes cap s'.pace := by
  have commits := pace_commitPending s
  cases way_of_cycle turned with
  | wrapped committed ran stops ends =>
      obtain ⟨result, ended, running⟩ := ended_of_wrapUp _ _
      rw [ends] at ended
      exact absurd (Verdict.ended.inj ended).symm running
  | @proceeded m s₁ _ committed ran running went =>
      rw [committed] at commits
      obtain ⟨s₂, exchanged, -, -, left⟩ := settled_of_proceed_ended went
      have between := (pace_exchange s₁).trans ((pace_of_runReady ran).trans commits)
      rw [exchanged] at between
      replace between := (pace_purge s₂).trans between
      have now : s₂.purge.kernel.now = s.kernel.now := congrArg Pace.now between
      rw [← between]
      exact pace_of_suspended (fun limit present => now.trans_le (capped limit present)) left

end Simulation

end DeltaCycle
