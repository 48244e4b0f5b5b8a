import DeltaCycle.Proofs.ShadowsAtRest

/-!
# Where a simulation stands

A simulation that can run stands before a round: it was just built, or it went on after a round of
its history, in the same run or in a later one. So what is known of histories is known of every
round that a run goes through.
-/

set_option autoImplicit false

namespace DeltaCycle

open Roster

variable {σ ω : Type}

namespace Simulation

variable {B : Behaviours σ ω} {rounds : List (Round σ)} {ledger : List Tag}
  {way : Option Nat × List Change} {s s' m : Simulation σ ω} {cap : Option Nat} {fuel : Nat}

theorem Adjusts.trans {s'' : Simulation σ ω} (first : s.Adjusts s') (second : s'.Adjusts s'') :
    s.Adjusts s'' := by
  obtain ⟨hook, hookStarted, state, maxDeltas, defaultDuration, world, rfl⟩ := first
  obtain ⟨hook, hookStarted, state, maxDeltas, defaultDuration, world, rfl⟩ := second
  exact ⟨_, _, _, _, _, _, rfl⟩

/-- A simulation stands before a round: the rounds before it, the armings that were issued in them,
and what was taken from the queue on the way. -/
inductive Stands (B : Behaviours σ ω) :
    List (Round σ) → List Tag → Option Nat × List Change → Simulation σ ω → Prop where
  | fresh {kernel : Kernel} {instances : List (Instance σ ω)} {world : ω} {s s₁ : Simulation σ ω}
      (built : build B kernel instances world = .ok s) (idle : kernel.Idle)
      (adjusted : s.Adjusts s₁) : Stands B [] s.rootTags (none, []) s₁
  | later {rounds : List (Round σ)} {ledger : List Tag} {s s₁ : Simulation σ ω} {cap : Option Nat}
      (history : History B rounds ledger s (.ok ())) (running : s.kernel.stopRequest = none)
      (goesOn : s.GoesOn cap s₁) : Stands B rounds ledger (s.passage cap) s₁

/-! ## Rounds -/

/-- The round before which a simulation stands is the next one of its history. -/
theorem Stands.plays (stands : Stands B rounds ledger way s) {round : Round σ}
    {failure : Except SimError Unit}
    (plays : s.playRound B fuel ledger way = some (round, s', failure)) :
    History B (rounds ++ [round]) (ledger ++ round.turns.flatMap Turn.issues) s' failure := by
  cases stands with
  | fresh built idle adjusted => exact .first built idle adjusted plays
  | later history running goesOn => exact history.next running goesOn plays

/-- A roster tracks a simulation that stands before a round. -/
theorem Stands.follows (stands : Stands B rounds ledger way s) :
    ∃ resumes r, Follows ledger resumes s r := by
  cases stands with
  | fresh built idle adjusted =>
      obtain ⟨marks, tracks⟩ := tracks_build idle built
      have follows : Follows _ _ _ _ :=
        ⟨⟨marks, tracks⟩, rested_rooted _, known_build built, rfl⟩
      exact ⟨_, _, follows.adjusts adjusted⟩
  | later history running goesOn =>
      obtain ⟨r₀, r, -, -, follows, -⟩ := history.replays
      exact ⟨_, _, follows.goesOn goesOn⟩

theorem playRound_of_runReady {failure : Except SimError Unit}
    (committed : s.commitPending = (m, .ok ()))
    (ran : runReady B fuel m (.ok ()) = .ok (s', failure)) :
    s.playRound B fuel ledger way = some
      ({ now := s.kernel.now, drained := way.1, changes := way.2 ++ s.commits,
         turns := m.turns B fuel ledger }, s', failure) := by
  unfold playRound
  rw [committed]
  dsimp only
  rw [ran]

theorem Stands.again (stands : Stands B rounds ledger way s)
    (turned : s.cycle B fuel cap = .ok (s', .again)) :
    ∃ rounds' ledger' way', Stands B rounds' ledger' way' s' := by
  cases way_of_cycle turned with
  | proceeded committed ran running went =>
      have history := stands.plays (playRound_of_runReady committed ran)
      exact ⟨_, _, _, .later history running (.again went)⟩
  | @wrapped m s₁ failure _ committed ran stops ends =>
      obtain ⟨result, ended, -⟩ := ended_of_wrapUp s₁ failure
      rw [ends] at ended
      cases ended

/-! ## Loops -/

/-- A loop comes to a cycle: the steps that are granted to it, and the simulation at its
beginning. -/
inductive Comes (B : Behaviours σ ω) (cap : Option Nat) :
    Nat → Simulation σ ω → Nat → Simulation σ ω → Prop where
  | here {fuel : Nat} {s : Simulation σ ω} : Comes B cap (fuel + 1) s (fuel + 1) s
  | again {fuel granted : Nat} {s s₁ c : Simulation σ ω}
      (turned : s.cycle B (fuel + 1) cap = .ok (s₁, .again)) (comes : Comes B cap fuel s₁ granted c) :
      Comes B cap (fuel + 1) s granted c

/-- A loop that ends comes to a cycle that ends it. -/
theorem comes_of_loop {result : Except SimError Outcome}
    (looped : loop B fuel s cap = .ok (s', result)) :
    ∃ granted c, Comes B cap fuel s granted c ∧ c.cycle B granted cap = .ok (s', .ended result) := by
  replace looped := way_of_loop looped
  induction looped with
  | ended turned => exact ⟨_, _, .here, turned⟩
  | again turned further ih =>
      obtain ⟨granted, c, comes, ends⟩ := ih
      exact ⟨granted, c, .again turned comes, ends⟩

theorem Comes.reached {granted : Nat} {c : Simulation σ ω} (comes : Comes B cap fuel s granted c)
    (reached : Reached B s) : Reached B c := by
  induction comes with
  | here => exact reached
  | again turned comes ih => exact ih (reached.cycled turned)

/-- A cycle that ends a loop that comes to it gives its result. -/
theorem Comes.loop {granted : Nat} {c : Simulation σ ω} {result : Except SimError Outcome}
    (comes : Comes B cap fuel s granted c) (ends : c.cycle B granted cap = .ok (s', .ended result)) :
    loop B fuel s cap = .ok (s', result) := by
  induction comes with
  | here =>
      rw [Simulation.loop, ends]
  | again turned comes ih =>
      rw [Simulation.loop, turned]
      exact ih ends

theorem Stands.comes (stands : Stands B rounds ledger way s) {granted : Nat} {c : Simulation σ ω}
    (comes : Comes B cap fuel s granted c) :
    ∃ rounds' ledger' way', Stands B rounds' ledger' way' c := by
  induction comes generalizing rounds ledger way with
  | here => exact ⟨rounds, ledger, way, stands⟩
  | again turned comes ih =>
      obtain ⟨rounds', ledger', way', stands'⟩ := stands.again turned
      exact ih stands'

/-- A loop that ends although nobody failed or asked for it ends after a round of the history. -/
theorem Stands.rests (stands : Stands B rounds ledger way s) {outcome : Outcome}
    (looped : loop B fuel s cap = .ok (s', .ok outcome))
    (unasked : ∀ reason, outcome ≠ .finished (.requested reason)) :
    ∃ rounds' ledger' h, History B rounds' ledger' h (.ok ()) ∧ h.kernel.stopRequest = none ∧
      h.proceed cap = (s', .ended (.ok outcome)) := by
  obtain ⟨granted, c, comes, ends⟩ := comes_of_loop looped
  obtain ⟨rounds', ledger', way', stands'⟩ := stands.comes comes
  cases way_of_cycle ends with
  | proceeded committed ran running went =>
      exact ⟨_, _, _, stands'.plays (playRound_of_runReady committed ran), running, went⟩
  | @wrapped m s₁ failure _ committed ran stops wraps =>
      have asked := asked_of_wrapUp s₁ failure
      rw [wraps] at asked
      rcases asked with ⟨e, same⟩ | ⟨reason, same⟩
      · cases same
      · cases same
        exact absurd rfl (unasked reason)

/-! ## Runs -/

/-- A simulation that runs have led to and that has not ended stands before a round. -/
theorem Operated.stands {s s' : Simulation σ ω} (operated : Operated B s)
    (running : s.hasEnded = false) (adjusted : s.Adjusts s') :
    ∃ rounds ledger way, Stands B rounds ledger way s' := by
  induction operated generalizing s' with
  | built made built => exact ⟨_, _, _, .fresh built made.sound.atStart.idle adjusted⟩
  | @adjusted s s₁ operated adjusts state ih =>
      have running' : s.hasEnded = false := by
        unfold hasEnded at running ⊢
        rwa [state] at running
      exact ih running' (adjusts.trans adjusted)
  | @ran s s₁ fuel duration result operated ran ih =>
      have begins := s.adjusts_startHook
      cases way_of_run ran with
      | terminated ended => cases running.symm.trans ended
      | untold running' started =>
          rw [started] at begins
          exact ih running' (begins.trans adjusted)
      | @played t₁ t₂ _ final _ running' started looped concluded =>
          rw [started] at begins
          obtain ⟨rounds, ledger, way, stands⟩ := ih running' begins
          by_cases stops : final = .ok .suspended
          · subst stops
            cases concluded
            obtain ⟨rounds', ledger', h, history, unasked, paused⟩ := stands.rests looped nofun
            have moved : t₂.Adjusts { t₂ with state := .suspended } := ⟨_, _, _, _, _, _, rfl⟩
            exact ⟨_, _, _, .later history unasked (.later paused (moved.trans adjusted))⟩
          · have ended := t₂.ended_conclude stops
            rw [concluded] at ended
            cases running.symm.trans ended

end Simulation

end DeltaCycle
