import DeltaCycle.Proofs.Passage

/-!
# Equipment

The hook and the bridge of a simulation, the limit of its delta cycles and the duration of its runs
are chosen by the caller. No run changes them, whatever becomes of it.
-/

set_option autoImplicit false

namespace DeltaCycle

namespace Simulation

variable {σ ω : Type}

/-- What the caller chooses. -/
structure Equipment (ω : Type) where
  hook : Option (Hook ω)
  bridge : Option (Bridge ω)
  maxDeltas : Nat
  defaultDuration : Option Nat

/-- The equipment of a simulation. -/
def equipment (s : Simulation σ ω) : Equipment ω where
  hook := s.hook
  bridge := s.link.map Link.bridge
  maxDeltas := s.maxDeltas
  defaultDuration := s.defaultDuration

/-- The equipment, as the waiters find it. -/
def Surroundings.equipment (x : Surroundings ω) : Equipment ω where
  hook := x.hook
  bridge := x.link.map Link.bridge
  maxDeltas := x.maxDeltas
  defaultDuration := x.header.defaultDuration

/-- A link with another state is a link to the same bridge. -/
theorem equipment_of_link (s : Simulation σ ω) {kernel : Kernel} {world : ω} {link : Option (Link ω)}
    (bridges : link.map (·.bridge) = s.link.map (·.bridge)) :
    ({ s with kernel, world, link } : Simulation σ ω).equipment = s.equipment :=
  congrArg (Equipment.mk s.hook · s.maxDeltas s.defaultDuration) bridges

theorem Moved.equipment {s s' : Simulation σ ω} (moved : s.Moved s') :
    s'.equipment = s.equipment := by
  obtain ⟨signals, ready, queue, commits, world, rfl⟩ := moved
  rfl

section Commits

variable (s : Simulation σ ω)

theorem equipment_step (id : SignalId) (f : Signal → Signal × Commit) :
    (s.step id f).1.equipment = s.equipment :=
  (moved_step s id f).equipment

theorem equipment_commitPending : s.commitPending.1.equipment = s.equipment :=
  (moved_updateAll { s with kernel := { s.kernel with pending := [] } } _ _).equipment

theorem equipment_fire (payload : Payload) : (s.fire payload).1.equipment = s.equipment :=
  (moved_fire s.queue payload).equipment

theorem equipment_drainUpTo (count time : Nat) :
    (drainUpTo count s time).1.equipment = s.equipment :=
  (moved_drainUpTo s count time).equipment

end Commits

section Rounds

variable {B : Behaviours σ ω} {s s' : Simulation σ ω}

theorem equipment_of_surroundings {stats : RunStats}
    (same : s'.surroundings = { s.surroundings with stats }) : s'.equipment = s.equipment := by
  have shown (s : Simulation σ ω) : s.equipment = s.surroundings.equipment := by
    simp only [equipment, Surroundings.equipment, surroundings, header, Option.map_map]
    rfl
  rw [shown, shown, same]
  rfl

theorem equipment_runWaiter {a : Arming} {result : Except SimError Unit}
    (ran : runWaiter B s a = some (s', result)) : s'.equipment = s.equipment :=
  equipment_of_surroundings (surroundings_runWaiter ran)

theorem equipment_runReady {fuel : Nat} {failure failure' : Except SimError Unit}
    (ran : runReady B fuel s failure = .ok (s', failure')) : s'.equipment = s.equipment := by
  obtain ⟨resumes, same⟩ := surroundings_runReady ran
  exact equipment_of_surroundings same

end Rounds

section Passages

variable (s : Simulation σ ω)

theorem equipment_exchange : s.exchange.1.equipment = s.equipment := by
  obtain ⟨kernel, world, link, same, -, bridges⟩ := s.exchange_spec
  rw [same]
  exact s.equipment_of_link bridges

theorem equipment_purge : s.purge.equipment = s.equipment := by
  rw [purge_eq]
  rfl

theorem equipment_moveClock (time : Nat) : (s.moveClock time).1.equipment = s.equipment := by
  obtain ⟨now, delta, deltas, timeSteps, same⟩ := s.moveClock_spec time
  rw [same]
  rfl

theorem equipment_nextDelta : s.nextDelta.1.equipment = s.equipment := by
  obtain ⟨delta, deltas, next⟩ := s.nextDelta_spec
  rw [next]
  rfl

theorem equipment_advanceTo (time : Nat) : (s.advanceTo time).1.equipment = s.equipment := by
  refine advanceTo_induction (P := fun t => t.equipment = s.equipment) (s.equipment_moveClock time)
    (fun s₁ count kept => (s₁.equipment_drainUpTo count time).trans kept) ?_
  intro s₁ l _ kept
  obtain ⟨world, link, sent, bridges⟩ := s₁.sendOutputs_spec l.bridge
  rw [sent]
  exact (s₁.equipment_of_link bridges).trans kept

theorem equipment_proceed (cap : Option Nat) : (s.proceed cap).1.equipment = s.equipment :=
  proceed_induction (P := fun t => t.equipment = s.equipment) s.equipment_exchange
    (fun s₁ kept => s₁.equipment_purge.trans kept)
    (fun s₁ kept => s₁.equipment_nextDelta.trans kept) (fun _ _ kept => kept)
    (fun s₁ time kept => (s₁.equipment_advanceTo time).trans kept) cap

theorem equipment_wrapUp (failure : Except SimError Unit) :
    (s.wrapUp failure).1.equipment = s.equipment := by
  obtain ⟨stopRequest, same⟩ := s.wrapUp_eq failure
  rw [same]
  exact (s.commitPending.1.equipment_purge).trans s.equipment_commitPending

theorem equipment_startHook : s.startHook.1.equipment = s.equipment := by
  unfold startHook
  split
  · rfl
  · dsimp only
    split <;> rfl

theorem equipment_closeLink : s.closeLink.1.equipment = s.equipment := by
  unfold closeLink
  cases linked : s.link with
  | none => rfl
  | some l =>
      have bridge : (l.close s.world).1.bridge = l.bridge := by
        unfold Link.close
        split <;> rfl
      refine s.equipment_of_link ?_
      rw [linked, Option.map_some, Option.map_some, bridge]

theorem equipment_shutdown : s.shutdown.1.equipment = s.equipment := by
  have closed := s.equipment_closeLink
  unfold shutdown
  generalize s.closeLink = result at closed ⊢
  obtain ⟨s', _ | _⟩ := result
  · exact closed
  · dsimp only
    split <;> exact closed

theorem equipment_conclude (result : Except SimError Outcome) :
    (s.conclude result).1.equipment = s.equipment := by
  unfold conclude
  split
  · rfl
  · have down := equipment_shutdown { s with state := .finished }
    generalize shutdown { s with state := .finished } = result at down ⊢
    obtain ⟨s', _ | _⟩ := result <;> exact down
  · exact equipment_shutdown { s with state := .failed }

end Passages

/-! ## Cycles and runs -/

variable {B : Behaviours σ ω} {s s' : Simulation σ ω}

theorem equipment_cycle {fuel : Nat} {cap : Option Nat} {verdict : Verdict}
    (turned : s.cycle B fuel cap = .ok (s', verdict)) : s'.equipment = s.equipment :=
  cycle_induction (P := fun t => t.equipment = s.equipment) turned s.equipment_commitPending
    (fun kept ran => (equipment_runReady ran).trans kept)
    (fun s₁ kept => (s₁.equipment_proceed cap).trans kept)
    (fun s₁ failure kept => (s₁.equipment_wrapUp failure).trans kept)

theorem equipment_loop {fuel : Nat} {cap : Option Nat} {result : Except SimError Outcome}
    (looped : loop B fuel s cap = .ok (s', result)) : s'.equipment = s.equipment := by
  replace looped := way_of_loop looped
  induction looped with
  | ended turned => exact equipment_cycle turned
  | again turned further ih => exact ih.trans (equipment_cycle turned)

theorem equipment_run {fuel : Nat} {duration : Option Nat} {result : Except SimError Outcome}
    (ran : run B fuel s duration = .ok (s', result)) : s'.equipment = s.equipment := by
  have starts := s.equipment_startHook
  cases way_of_run ran with
  | terminated ended => rfl
  | untold running started =>
      rw [started] at starts
      exact starts
  | @played s₁ s₂ _ final _ running started looped concluded =>
      rw [started] at starts
      have concludes := s₂.equipment_conclude final
      rw [concluded] at concludes
      exact concludes.trans ((equipment_loop looped).trans starts)

end Simulation

end DeltaCycle
