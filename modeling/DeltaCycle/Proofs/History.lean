import DeltaCycle.Proofs.Beginnings
import DeltaCycle.Proofs.Explained

/-!
# Histories

A history of a simulation lists the rounds that it went through, over all its runs, as long as
nothing failed but possibly waiters in the last round. Each history is replayed by the roster of
the roots.
-/

set_option autoImplicit false

namespace DeltaCycle

open Roster

variable {σ ω : Type} {B : Behaviours σ ω}

namespace Simulation

/-- What a caller may change between runs. -/
def Adjusts (s s' : Simulation σ ω) : Prop :=
  ∃ hook hookStarted state maxDeltas defaultDuration world,
    s' = { s with hook, hookStarted, state, maxDeltas, defaultDuration, world }

theorem Adjusts.refl (s : Simulation σ ω) : s.Adjusts s := ⟨_, _, _, _, _, _, rfl⟩

/-- The round at the beginning of a cycle, the simulation after it, and the first failure of a
waiter in it, if the commit phase succeeds and the resumes come to an end. On the way to the
round, the entries of a tick may have been taken from the queue. -/
def playRound (B : Behaviours σ ω) (fuel : Nat) (ledger : List Tag)
    (way : Option Nat × List Change) (s : Simulation σ ω) :
    Option (Round σ × Simulation σ ω × Except SimError Unit) :=
  match s.commitPending with
  | (_, .error _) => none
  | (middle, .ok _) =>
      match runReady B fuel middle (.ok ()) with
      | .error _ => none
      | .ok (s', failure) =>
          some
            ({ now := s.kernel.now
               drained := way.1
               changes := way.2 ++ s.commits
               turns := middle.turns B fuel ledger },
              s', failure)

/-- The rounds of a loop. -/
def roundsOf (B : Behaviours σ ω) :
    Nat → List Tag → Option Nat × List Change → Simulation σ ω → Option Nat → List (Round σ)
  | 0, _, _, _, _ => []
  | fuel + 1, ledger, way, s, cap =>
      match s.playRound B (fuel + 1) ledger way with
      | none => []
      | some (round, s', _) =>
          round ::
            match s.cycle B (fuel + 1) cap with
            | .ok (s'', .again) =>
                roundsOf B fuel (ledger ++ round.turns.flatMap Turn.issues) (s'.passage cap) s'' cap
            | _ => []

/-- A simulation goes on after a round, in the same run or in a later one. -/
inductive GoesOn (s : Simulation σ ω) (cap : Option Nat) : Simulation σ ω → Prop where
  | again {s' : Simulation σ ω} (went : s.proceed cap = (s', .again)) : GoesOn s cap s'
  | later {s' s'' : Simulation σ ω} (paused : s.proceed cap = (s', .ended (.ok .suspended)))
      (adjusted : s'.Adjusts s'') : GoesOn s cap s''

/-- The first armings of the waiters with which a simulation is built. -/
def rootTags (s : Simulation σ ω) : List Tag :=
  (List.range s.waiters.lastToken).map fun number => ⟨.root number, 0⟩

/-- A simulation that was just built is tracked by its roots. -/
theorem tracks_build {kernel : Kernel} {instances : List (Instance σ ω)} {world : ω}
    {s : Simulation σ ω} (idle : kernel.Idle) (built : build B kernel instances world = .ok s) :
    ∃ marks, Tracks s.rootTags s marks (rooted
      ((List.range (startingBodies kernel instances).length).zip
        (startingBodies kernel instances))) := by
  obtain ⟨marks, tracks⟩ := Tracks.of_adds idle (adds_build built)
    List.length_range List.nodup_range
  have length := tracks.seats.length
  rw [List.length_map, List.length_range] at length
  rw [rootTags, ← length]
  exact ⟨marks, tracks⟩

/-- The rounds that a simulation went through, the armings that were issued in them, the
simulation after the last one, and the first failure of a waiter in it. -/
inductive History (B : Behaviours σ ω) :
    List (Round σ) → List Tag → Simulation σ ω → Except SimError Unit → Prop where
  | first {kernel : Kernel} {instances : List (Instance σ ω)} {world : ω} {s s₁ s' : Simulation σ ω}
      {fuel : Nat} {round : Round σ} {failure : Except SimError Unit}
      (built : build B kernel instances world = .ok s) (idle : kernel.Idle)
      (adjusted : s.Adjusts s₁)
      (plays : s₁.playRound B fuel s.rootTags (none, []) = some (round, s', failure)) :
      History B [round] (s.rootTags ++ round.turns.flatMap Turn.issues) s' failure
  | next {rounds : List (Round σ)} {ledger : List Tag} {s s₁ s' : Simulation σ ω}
      {cap : Option Nat} {fuel : Nat} {round : Round σ} {failure : Except SimError Unit}
      (history : History B rounds ledger s (.ok ())) (running : s.kernel.stopRequest = none)
      (goesOn : s.GoesOn cap s₁)
      (plays : s₁.playRound B fuel ledger (s.passage cap) = some (round, s', failure)) :
      History B (rounds ++ [round]) (ledger ++ round.turns.flatMap Turn.issues) s' failure

end Simulation

open Simulation

/-- The roster after a round keeps tracking the simulation. -/
structure Follows (ledger : List Tag) (resumes : Nat) (s : Simulation σ ω) (r : Roster σ) :
    Prop where
  tracks : ∃ marks, Tracks ledger s marks r
  rested : r.Rested
  known : s.OutputsKnown
  counted : s.stats.resumes = resumes

theorem Follows.adjusts {ledger : List Tag} {resumes : Nat} {s s' : Simulation σ ω} {r : Roster σ}
    (follows : Follows ledger resumes s r) (adjusted : s.Adjusts s') :
    Follows ledger resumes s' r := by
  obtain ⟨hook, hookStarted, state, maxDeltas, defaultDuration, world, rfl⟩ := adjusted
  obtain ⟨⟨marks, tracks⟩, rested, known, counted⟩ := follows
  exact ⟨⟨marks, tracks.of_books rfl rfl rfl rfl⟩, rested, known, counted⟩

theorem Follows.goesOn {ledger : List Tag} {resumes : Nat} {s s' : Simulation σ ω} {r : Roster σ}
    (follows : Follows ledger resumes s r) {cap : Option Nat} (goesOn : s.GoesOn cap s') :
    Follows ledger resumes s' (r.advance (s.passage cap).2 (s.passage cap).1) := by
  obtain ⟨⟨marks, tracks⟩, rested, known, counted⟩ := follows
  have framed := frame_proceed s cap
  have known' := known.of_frame framed
  have counted' := resumes_of_frame framed
  cases goesOn with
  | again went =>
      rw [went] at known' counted'
      exact ⟨⟨marks, tracks.proceed went fun _ same => by cases same⟩, rested, known',
        counted'.trans counted⟩
  | later paused adjusted =>
      rw [paused] at known' counted'
      have tracks' := tracks.proceed paused fun _ same => by cases same
      exact Follows.adjusts ⟨⟨marks, tracks'⟩, rested, known', counted'.trans counted⟩ adjusted

theorem Follows.plays {ledger : List Tag} {resumes fuel : Nat} {s s' : Simulation σ ω}
    {r : Roster σ} {way : Option Nat × List Change} {round : Round σ}
    {failure : Except SimError Unit} (follows : Follows ledger resumes s (r.advance way.2 way.1))
    (plays : s.playRound B fuel ledger way = some (round, s', failure)) :
    ∃ r', Plays round.now (r.advance round.changes round.drained) round.turns r' ∧ r'.Quiet ∧
      Follows (ledger ++ round.turns.flatMap Turn.issues) (resumes + round.turns.length) s' r' ∧
      (failure = .ok () ↔ ∀ turn ∈ round.turns, turn.deed.isFailure = false) := by
  obtain ⟨⟨marks, tracks⟩, rested, known, counted⟩ := follows
  unfold playRound at plays
  have tracks₁ := tracks.commitPending
  have framed : s.commitPending.1.frame = s.frame := frame_updateAll _ _ _
  have now := now_commitPending s
  generalize s.commitPending = commit at plays tracks₁ framed now
  obtain ⟨middle, e | ⟨⟩⟩ := commit
  · cases plays
  · dsimp only at plays
    cases ran : Simulation.runReady B fuel middle (.ok ()) with
    | error stuck => simp [ran] at plays
    | ok result =>
        obtain ⟨s₁, failure₁⟩ := result
        simp only [ran, Option.some.injEq, Prod.mk.injEq] at plays
        obtain ⟨rfl, rfl, rfl⟩ := plays
        have known₁ := known.of_frame framed
        rw [advance_advance] at tracks₁
        obtain ⟨marks', r', tracks', plays, rested', quiet, resumed, failures⟩ :=
          tracks₁.runReady rested known₁ ran
        rw [and_iff_right rfl] at failures
        dsimp only at now
        rw [now] at plays
        refine ⟨r', plays, quiet, ⟨⟨marks', tracks'⟩, rested', ?_, ?_⟩, failures⟩
        · exact known₁.of_surroundings (surroundings_runReady ran).choose_spec
        · rw [resumed, resumes_of_frame framed, counted]

/-- A history is replayed by the roster of its roots. Nobody failed at all if nobody failed in the
last round. -/
theorem Simulation.History.replays {rounds : List (Round σ)} {ledger : List Tag}
    {s : Simulation σ ω} {failure : Except SimError Unit}
    (history : History B rounds ledger s failure) :
    ∃ (r₀ r : Roster σ), r₀.Begins ∧ r₀.Replays rounds r ∧
      Follows ledger (rounds.flatMap Round.turns).length s r ∧
      (failure = .ok () ↔ ∀ round ∈ rounds, ∀ turn ∈ round.turns, turn.deed.isFailure = false) := by
  induction history with
  | @first kernel instances world s s₁ s' fuel round failure built idle adjusted plays =>
      obtain ⟨marks, tracks⟩ := tracks_build idle built
      have begins := begins_rooted
        ((List.range (startingBodies kernel instances).length).zip (startingBodies kernel instances))
      have rested := rested_rooted
        ((List.range (startingBodies kernel instances).length).zip (startingBodies kernel instances))
      have counted : s.stats.resumes = 0 := congrArg RunStats.resumes (adds_build built).stats
      have follows : Follows s.rootTags 0 s _ :=
        ⟨⟨marks, tracks⟩, rested, known_build built, counted⟩
      have follows := follows.adjusts adjusted
      rw [← advance_nil (rooted _)] at follows
      obtain ⟨r, played, quiet, follows', failures⟩ := follows.plays plays
      have length : 0 + round.turns.length = ([round].flatMap Round.turns).length := by simp
      rw [length] at follows'
      refine ⟨_, r, begins, Replays.nil.concat played quiet, follows', ?_⟩
      rw [failures, List.forall_mem_singleton]
  | @next rounds ledger s s₁ s' cap fuel round failure history running goesOn plays ih =>
      obtain ⟨r₀, r, begins, replays, follows, earlier⟩ := ih
      obtain ⟨r', played, quiet, follows', failures⟩ := (follows.goesOn goesOn).plays plays
      have length : (rounds.flatMap Round.turns).length + round.turns.length =
          ((rounds ++ [round]).flatMap Round.turns).length := by simp
      rw [length] at follows'
      refine ⟨r₀, r', begins, replays.concat played quiet, follows', ?_⟩
      rw [failures, List.forall_mem_append, List.forall_mem_singleton,
        and_iff_right (earlier.mp rfl)]

/-! ## The rounds of runs -/

namespace Simulation

theorem cycle_of_playRound {fuel : Nat} {ledger : List Tag} {way : Option Nat × List Change}
    {s s' : Simulation σ ω} {round : Round σ} {failure : Except SimError Unit}
    (plays : s.playRound B fuel ledger way = some (round, s', failure)) (cap : Option Nat) :
    (failure = .ok () ∧ s'.kernel.stopRequest = none ∧ s.cycle B fuel cap = .ok (s'.proceed cap)) ∨
      s.cycle B fuel cap = .ok (s'.wrapUp failure) := by
  unfold playRound at plays
  unfold cycle
  generalize s.commitPending = commit at plays ⊢
  obtain ⟨middle, e | ⟨⟩⟩ := commit
  · cases plays
  · dsimp only at plays ⊢
    cases ran : Simulation.runReady B fuel middle (.ok ()) with
    | error stuck => simp [ran] at plays
    | ok result =>
        obtain ⟨s₁, failure₁⟩ := result
        simp only [ran, Option.some.injEq, Prod.mk.injEq] at plays
        obtain ⟨-, rfl, rfl⟩ := plays
        dsimp only
        split
        · next running => exact .inl ⟨rfl, running, rfl⟩
        · exact .inr rfl

theorem again_of_playRound {fuel : Nat} {ledger : List Tag} {way : Option Nat × List Change}
    {s s' s'' : Simulation σ ω} {round : Round σ} {failure : Except SimError Unit}
    {cap : Option Nat} (plays : s.playRound B fuel ledger way = some (round, s', failure))
    (again : s.cycle B fuel cap = .ok (s'', .again)) :
    failure = .ok () ∧ s'.kernel.stopRequest = none ∧ s'.proceed cap = (s'', .again) := by
  rcases cycle_of_playRound plays cap with ⟨fine, running, proceeds⟩ | wraps
  · rw [again] at proceeds
    exact ⟨fine, running, (Except.ok.inj proceeds).symm⟩
  · obtain ⟨result, ended, -⟩ := ended_of_wrapUp s' failure
    rw [again] at wraps
    rw [← Except.ok.inj wraps] at ended
    cases ended

/-- The rounds of a loop that goes on after a history continue the history. -/
theorem History.loop {rounds : List (Round σ)} {ledger : List Tag} {s s₁ : Simulation σ ω}
    {before : Option Nat} (history : History B rounds ledger s (.ok ()))
    (running : s.kernel.stopRequest = none) (goesOn : s.GoesOn before s₁) (fuel : Nat)
    (cap : Option Nat) :
    ∃ ledger' s' failure,
      History B (rounds ++ roundsOf B fuel ledger (s.passage before) s₁ cap) ledger' s' failure := by
  induction fuel generalizing rounds ledger s s₁ before with
  | zero => exact ⟨ledger, s, .ok (), by rw [roundsOf, List.append_nil]; exact history⟩
  | succ fuel ih =>
      rw [roundsOf]
      cases plays : s₁.playRound B (fuel + 1) ledger (s.passage before) with
      | none => exact ⟨ledger, s, .ok (), by rw [List.append_nil]; exact history⟩
      | some result =>
          obtain ⟨round, s', failure⟩ := result
          have further := history.next running goesOn plays
          dsimp only
          split
          · next s'' again =>
              obtain ⟨rfl, running', proceeds⟩ := again_of_playRound plays again
              have rest := ih further running' (.again proceeds)
              rwa [List.append_assoc] at rest
          · exact ⟨_, s', failure, further⟩

/-- The rounds of a loop that starts with a simulation that was just built are a history. -/
theorem history_of_loop {kernel : Kernel} {instances : List (Instance σ ω)} {world : ω}
    {s s₁ : Simulation σ ω} (built : build B kernel instances world = .ok s) (idle : kernel.Idle)
    (adjusted : s.Adjusts s₁) (fuel : Nat) (cap : Option Nat)
    (played : roundsOf B fuel s.rootTags (none, []) s₁ cap ≠ []) :
    ∃ ledger s' failure,
      History B (roundsOf B fuel s.rootTags (none, []) s₁ cap) ledger s' failure := by
  cases fuel with
  | zero => exact absurd rfl played
  | succ fuel =>
      rw [roundsOf] at played ⊢
      cases plays : s₁.playRound B (fuel + 1) s.rootTags (none, []) with
      | none => simp [plays] at played
      | some result =>
          obtain ⟨round, s', failure⟩ := result
          have first := History.first built idle adjusted plays
          dsimp only
          split
          · next s'' again =>
              obtain ⟨rfl, running, proceeds⟩ := again_of_playRound plays again
              exact first.loop running (.again proceeds) fuel cap
          · exact ⟨_, s', failure, first⟩

end Simulation

end DeltaCycle
