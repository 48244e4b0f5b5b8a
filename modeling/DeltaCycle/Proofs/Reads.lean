import DeltaCycle.Proofs.PaddedCycles
import DeltaCycle.Proofs.RefusedWrites

/-!
# Sessions with additional reads

Processes that also read proposed values leave additional marks. Where these make no difference to the
commit phases, a session comes to the same results by the same changes. Elsewhere it need not: a mark
of a signal with a delay puts something into the queue, also if nothing was proposed, and an earlier
mark changes the order of the commits.
-/

set_option autoImplicit false

namespace DeltaCycle

variable {σ ω : Type}

namespace Behaviours

/-- The behaviours of processes and blocks that first read the proposed value of a signal. -/
def reading (B : Behaviours σ ω) (id : SignalId) : Behaviours σ ω where
  name := B.name
  resume state := .ask (.next id) fun _ => B.resume state
  react body := .ask (.next id) fun _ => B.react body

theorem peeks_reading {known : SignalId → Prop} (B : Behaviours σ ω) {id : SignalId}
    (there : known id) : B.Peeks known (B.reading id) :=
  ⟨rfl, fun state => .read there fun _ => .refl known (B.resume state),
    fun body => .read there fun _ => .refl known (B.react body)⟩

end Behaviours

namespace Simulation

variable {known : SignalId → Prop} {B B' : Behaviours σ ω} {s s' t : Simulation σ ω} {c : Counters}
  {marks : List SignalId} {fuel enough more : Nat} {cap : Option Nat}

/-- What a simulation leads to has the same signals. -/
theorem Leads.holds (leads : Leads B s t) (reached : Reached B s) (holds : s.kernel.Holds known) :
    t.kernel.Holds known := by
  have same := congrArg (·.signals.size) (leads.blueprint reached)
  simp only [Kernel.blueprint, Kernel.reset, Array.size_map] at same
  exact holds.of_size same

/-! ## Loops -/

/-- The rounds that are played in a loop: the simulation after each of the commit phases. -/
def loopRounds (B : Behaviours σ ω) :
    Nat → Simulation σ ω → Option Nat → List (Simulation σ ω)
  | 0, _, _ => []
  | fuel + 1, s, cap =>
      s.commitPending.1 ::
        match s.cycle B (fuel + 1) cap with
        | .ok (s, .again) => loopRounds B fuel s cap
        | _ => []

theorem loop_goes_on (turned : s.cycle B (fuel + 1) cap = .ok (s', .again)) :
    Simulation.loop B (fuel + 1) s cap = Simulation.loop B fuel s' cap ∧
      loopCommits B (fuel + 1) s cap =
        s.cycleCommits B (fuel + 1) cap ++ loopCommits B fuel s' cap := by
  rw [Simulation.loop, loopCommits, turned]
  exact ⟨rfl, rfl⟩

theorem loop_ends {result : Except SimError Outcome}
    (turned : s.cycle B (fuel + 1) cap = .ok (s', .ended result)) :
    Simulation.loop B (fuel + 1) s cap = .ok (s', result) ∧
      loopCommits B (fuel + 1) s cap = s.cycleCommits B (fuel + 1) cap := by
  rw [Simulation.loop, loopCommits, turned, List.append_nil]
  exact ⟨rfl, rfl⟩

namespace Laps

theorem ends {result : Except SimError Outcome}
    (laps : Laps B B' fuel c marks s cap s' (.ended result)) (le : fuel ≤ more + 1) :
    ∃ c' marks', Simulation.loop B' (more + 2) (s.padded c marks) cap =
        .ok (s'.padded c' marks', result) ∧
      loopCommits B' (more + 2) (s.padded c marks) cap = s.cycleCommits B fuel cap ∧
      (result = .ok .suspended → Rides c' marks' s') := by
  have enough : fuel ≤ more + 2 := Nat.le_succ_of_le le
  have suspends : result = .ok .suspended → Continues (.ended result) :=
    fun suspended => .inr (congrArg Verdict.ended suspended)
  cases laps with
  | once c' marks' turned commits rides =>
      obtain ⟨looped, logged⟩ := loop_ends (cycle_mono turned enough)
      refine ⟨c', marks', looped, ?_, rides ∘ suspends⟩
      rw [logged, cycleCommits_mono turned enough, commits]
  | twice c' q departures turned left departs commits rides =>
      obtain ⟨looped, logged⟩ := loop_goes_on (cycle_mono turned enough)
      obtain ⟨looped', logged'⟩ := loop_ends (left (more + 1))
      refine ⟨c', [], looped.trans looped', ?_, rides ∘ suspends⟩
      rw [logged, logged', cycleCommits_mono turned enough, departs, commits]

theorem goes_on (laps : Laps B B' fuel c marks s cap s' .again) (le : fuel ≤ more + 1) :
    ∃ c' marks' rest, more ≤ rest ∧
      Simulation.loop B' (more + 2) (s.padded c marks) cap =
        Simulation.loop B' rest (s'.padded c' marks') cap ∧
      loopCommits B' (more + 2) (s.padded c marks) cap =
        s.cycleCommits B fuel cap ++ loopCommits B' rest (s'.padded c' marks') cap ∧
      Rides c' marks' s' := by
  have enough : fuel ≤ more + 2 := Nat.le_succ_of_le le
  cases laps with
  | once c' marks' turned commits rides =>
      obtain ⟨looped, logged⟩ := loop_goes_on (cycle_mono turned enough)
      refine ⟨c', marks', more + 1, Nat.le_succ more, looped, ?_, rides (.inl rfl)⟩
      rw [logged, cycleCommits_mono turned enough, commits]
  | twice c' q departures turned left departs commits rides =>
      obtain ⟨looped, logged⟩ := loop_goes_on (cycle_mono turned enough)
      obtain ⟨looped', logged'⟩ := loop_goes_on (left (more + 1))
      refine ⟨c', [], more, Nat.le_refl more, looped.trans looped', ?_, rides (.inl rfl)⟩
      rw [logged, logged', cycleCommits_mono turned enough, departs, ← commits, List.append_assoc]

end Laps

/-- A loop of a padded simulation goes through the same, where the rounds are tacit. It takes twice as
many cycles at most. -/
theorem Rides.loop (rides : Rides c marks s) (peeks : B.Peeks known B') (reached : Reached B s)
    (holds : s.kernel.Holds known) {result : Except SimError Outcome}
    (looped : loop B fuel s cap = .ok (s', result)) (unlimited : Unlimited result)
    (silent : ∀ m ∈ loopRounds B fuel s cap, m.tacit B B' enough = true) (le : fuel ≤ enough)
    (granted : 2 * fuel ≤ more) :
    ∃ c' marks', Simulation.loop B' more (s.padded c marks) cap = .ok (s'.padded c' marks', result) ∧
      loopCommits B' more (s.padded c marks) cap = loopCommits B fuel s cap ∧
      (result = .ok .suspended → Rides c' marks' s') := by
  replace looped := way_of_loop looped
  -- Each cycle is matched by one cycle of the padded simulation, or by two, after which it rides on.
  induction looped generalizing c marks more with
  | @ended fuel s turned =>
      rw [loopRounds, List.forall_mem_cons] at silent
      have laps := rides.cycle peeks holds turned (fun r same => Verdict.ended.inj same ▸ unlimited)
        silent.1 le
      obtain ⟨more, rfl⟩ : ∃ rest, more = rest + 2 := Nat.exists_eq_add_of_le' (by omega)
      rw [(loop_ends turned).2]
      exact laps.ends (by omega)
  | @again fuel s s₁ turned further ih =>
      rw [loopRounds, turned, List.forall_mem_cons] at silent
      have laps := rides.cycle peeks holds turned nofun silent.1 le
      have leads : Leads B s s₁ := .cycled .stays turned
      obtain ⟨more, rfl⟩ : ∃ rest, more = rest + 2 := Nat.exists_eq_add_of_le' (by omega)
      have fewer : 2 * fuel ≤ more := by omega
      have fits : fuel + 1 ≤ more + 1 := by omega
      obtain ⟨c₁, marks₁, rest, granted', looped, logged, rides₁⟩ := laps.goes_on fits
      obtain ⟨c', marks', looped', logged', rides'⟩ := ih rides₁ (leads.reached reached)
        (leads.holds reached holds) silent.2 (Nat.le_of_succ_le le) (Nat.le_trans fewer granted')
      refine ⟨c', marks', looped.trans looped', ?_, rides'⟩
      rw [logged, logged', (loop_goes_on turned).2]

/-! ## Runs -/

theorem startHook_padded (s : Simulation σ ω) (c : Counters) (marks : List SignalId) :
    (s.padded c marks).startHook = paddedWith c marks s.startHook := by
  have told : (s.padded c marks).hookStarted = s.hookStarted := rfl
  have hook : (s.padded c marks).hook = s.hook := rfl
  unfold startHook
  rw [told, hook]
  split
  · rfl
  · cases s.hook <;> rfl

theorem conclude_padded (s : Simulation σ ω) (c : Counters) (marks : List SignalId)
    (result : Except SimError Outcome) :
    (s.padded c marks).conclude result = paddedWith c marks (s.conclude result) := by
  have closes (s : Simulation σ ω) :
      (s.padded c marks).closeLink = paddedWith c marks s.closeLink := by
    have linked : (s.padded c marks).link = s.link := rfl
    unfold closeLink
    rw [linked]
    cases s.link <;> rfl
  have shuts (s : Simulation σ ω) : (s.padded c marks).shutdown = paddedWith c marks s.shutdown := by
    unfold shutdown
    rw [closes]
    rcases s.closeLink with ⟨m, _ | _⟩
    · rfl
    · have hook : (m.padded c marks).hook = m.hook := rfl
      dsimp only [paddedWith]
      rw [hook]
      cases m.hook <;> rfl
  rcases result with e | (_ | reason)
  · have failed : ({ s.padded c marks with state := .failed } : Simulation σ ω).shutdown =
        paddedWith c marks { s with state := .failed }.shutdown := shuts { s with state := .failed }
    exact congrArg (fun p : Simulation σ ω × Except SimError Unit => (p.1, Except.error e)) failed
  · rfl
  · have finished : ({ s.padded c marks with state := .finished } : Simulation σ ω).shutdown =
        paddedWith c marks { s with state := .finished }.shutdown :=
      shuts { s with state := .finished }
    dsimp only [conclude]
    rw [finished]
    generalize shutdown { s with state := .finished } = down
    obtain ⟨m, _ | _⟩ := down <;> rfl

/-- The rounds that are played in a run. -/
def runRounds (B : Behaviours σ ω) (fuel : Nat) (s : Simulation σ ω) (duration : Option Nat) :
    List (Simulation σ ω) :=
  if s.hasEnded then
    []
  else
    match s.startHook with
    | (_, .error _) => []
    | (s, .ok _) => loopRounds B fuel s (s.capOf duration)

/-- The rounds that are played in a call. -/
def answerRounds (B : Behaviours σ ω) (fuel : Nat) (s : Simulation σ ω) :
    Call → List (Simulation σ ω)
  | .run duration => s.runRounds B fuel duration
  | .runToCompletion => { s with defaultDuration := none }.runRounds B fuel none

/-- The rounds that are played in a session. -/
def playRounds (B : Behaviours σ ω) (fuel : Nat) :
    Simulation σ ω → List (Move ω) → List (Simulation σ ω)
  | _, [] => []
  | s, .setHook hook :: moves => (s.setHook hook).playRounds B fuel moves
  | s, .setMaxDeltas maxDeltas :: moves => (s.setMaxDeltas maxDeltas).playRounds B fuel moves
  | s, .setDefaultDuration defaultDuration :: moves =>
      { s with defaultDuration }.playRounds B fuel moves
  | s, .call call :: moves =>
      s.answerRounds B fuel call ++
        match s.answer B fuel call with
        | .error _ => []
        | .ok (s, _) => s.playRounds B fuel moves

theorem Rides.of_kept (rides : Rides c marks s) (kernel : s'.kernel = s.kernel)
    (ready : s'.ready = s.ready) (pace : s'.pace = s.pace) : Rides c marks s' := by
  obtain ⟨effective, paced⟩ := rides
  refine ⟨?_, ?_⟩
  · rw [kernel]
    exact effective
  · rw [kernel, ready]
    rcases paced with follows | ⟨follows, idle⟩
    · exact .inl (follows.of_pace pace)
    · exact .inr ⟨follows.of_pace pace, idle⟩

theorem Rides.startHook (rides : Rides c marks s) : Rides c marks s.startHook.1 := by
  unfold Simulation.startHook
  split
  · exact rides
  · dsimp only
    split
    · exact rides.of_kept rfl rfl rfl
    · exact rides.of_kept rfl rfl rfl

/-- A padded simulation may go on, or has ended as well. -/
def Onward (c : Counters) (marks : List SignalId) (s : Simulation σ ω) : Prop :=
  s.hasEnded = true ∨ Rides c marks s

/-- A run of a padded simulation is the same, where the rounds are tacit. -/
theorem Onward.run (onward : Onward c marks s) (peeks : B.Peeks known B') (reached : Reached B s)
    (holds : s.kernel.Holds known) {duration : Option Nat} {result : Except SimError Outcome}
    (ran : s.run B fuel duration = .ok (s', result)) (unlimited : Unlimited result)
    (silent : ∀ m ∈ s.runRounds B fuel duration, m.tacit B B' enough = true) (le : fuel ≤ enough)
    (granted : 2 * fuel ≤ more) :
    ∃ c' marks', (s.padded c marks).run B' more duration = .ok (s'.padded c' marks', result) ∧
      runCommits B' more (s.padded c marks) duration = runCommits B fuel s duration ∧
      Onward c' marks' s' := by
  have ends : (s.padded c marks).hasEnded = s.hasEnded := rfl
  have starts := s.startHook_padded c marks
  have adjusts := s.adjusts_startHook
  unfold Simulation.run runCommits
  unfold runRounds at silent
  rw [ends, starts]
  cases way_of_run ran with
  | terminated ended =>
      rw [if_pos ended, if_pos ended, if_pos ended]
      exact ⟨c, marks, rfl, rfl, .inl ended⟩
  | untold running started =>
      have going : ¬s.hasEnded = true := by simp [running]
      have rides₁ := (onward.resolve_left going).startHook
      rw [started] at rides₁
      rw [if_neg going, if_neg going, if_neg going, started]
      exact ⟨c, marks, rfl, rfl, .inr rides₁⟩
  | @played s₁ s₂ _ final _ running started looped concluded =>
      have going : ¬s.hasEnded = true := by simp [running]
      have rides₁ := (onward.resolve_left going).startHook
      rw [started] at rides₁ adjusts
      rw [if_neg going, started] at silent
      rw [if_neg going, if_neg going, if_neg going, started]
      have leads : Leads B s s₁ := .adjusted .stays adjusts
      have fine : Unlimited final := by
        intro time limit failed
        subst failed
        exact unlimited time limit (congrArg Prod.snd concluded).symm
      obtain ⟨c', marks', looped', logged, rides'⟩ := rides₁.loop peeks (leads.reached reached)
        (leads.holds reached holds) looped fine silent le granted
      have cap : (s₁.padded c marks).capOf duration = s₁.capOf duration := rfl
      have concludes := s₂.conclude_padded c' marks' final
      rw [concluded] at concludes
      dsimp only [paddedWith] at concludes ⊢
      rw [cap, looped', logged]
      refine ⟨c', marks', congrArg Except.ok concludes, rfl, ?_⟩
      by_cases suspended : final = .ok .suspended
      · subst suspended
        cases concluded
        exact .inr ((rides' rfl).of_kept rfl rfl rfl)
      · have stopped := s₂.ended_conclude suspended
        rw [concluded] at stopped
        exact .inl stopped

/-! ## Sessions -/

theorem Onward.of_kept (onward : Onward c marks s) (ended : s'.hasEnded = s.hasEnded)
    (kernel : s'.kernel = s.kernel) (ready : s'.ready = s.ready) (pace : s'.pace = s.pace) :
    Onward c marks s' := by
  rcases onward with stopped | rides
  · exact .inl (ended.trans stopped)
  · exact .inr (rides.of_kept kernel ready pace)

theorem Onward.answer (onward : Onward c marks s) (peeks : B.Peeks known B') (reached : Reached B s)
    (holds : s.kernel.Holds known) {call : Call} {result : Except SimError Outcome}
    (answered : s.answer B fuel call = .ok (s', result)) (unlimited : Unlimited result)
    (silent : ∀ m ∈ s.answerRounds B fuel call, m.tacit B B' enough = true) (le : fuel ≤ enough)
    (granted : 2 * fuel ≤ more) :
    ∃ c' marks', (s.padded c marks).answer B' more call = .ok (s'.padded c' marks', result) ∧
      (s.padded c marks).answerCommits B' more call = s.answerCommits B fuel call ∧
      Onward c' marks' s' := by
  cases call with
  | run duration => exact onward.run peeks reached holds answered unlimited silent le granted
  | runToCompletion =>
      have adjusts : s.Adjusts { s with defaultDuration := none } := ⟨_, _, _, _, _, _, rfl⟩
      have onward₁ : Onward c marks { s with defaultDuration := none } :=
        onward.of_kept rfl rfl rfl rfl
      exact onward₁.run peeks (.adjusted reached adjusts) holds answered unlimited silent le granted

theorem Onward.play (onward : Onward c marks s) (peeks : B.Peeks known B') (reached : Reached B s)
    (holds : s.kernel.Holds known) {moves : List (Move ω)} (fixed : ∀ n, .setMaxDeltas n ∉ moves)
    {results : List (Except SimError Outcome)} (played : s.play B fuel moves = .ok (t, results))
    (unlimited : ∀ result ∈ results, Unlimited result)
    (silent : ∀ m ∈ s.playRounds B fuel moves, m.tacit B B' enough = true) (le : fuel ≤ enough)
    (granted : 2 * fuel ≤ more) :
    ∃ c' marks', (s.padded c marks).play B' more moves = .ok (t.padded c' marks', results) ∧
      (s.padded c marks).playCommits B' more moves = s.playCommits B fuel moves := by
  induction moves generalizing s c marks results with
  | nil =>
      cases played
      exact ⟨c, marks, rfl, rfl⟩
  | cons move moves ih =>
      have fixed' : ∀ n, .setMaxDeltas n ∉ moves :=
        fun n listed => fixed n (List.mem_cons_of_mem move listed)
      cases move with
      | setMaxDeltas n => exact absurd List.mem_cons_self (fixed n)
      | setHook hook =>
          have adjusts : s.Adjusts (s.setHook hook) := ⟨_, _, _, _, _, _, rfl⟩
          have onward₁ : Onward c marks (s.setHook hook) := onward.of_kept rfl rfl rfl rfl
          exact ih onward₁ (.adjusted reached adjusts) holds fixed' played unlimited silent
      | setDefaultDuration defaultDuration =>
          have adjusts : s.Adjusts { s with defaultDuration } := ⟨_, _, _, _, _, _, rfl⟩
          have onward₁ : Onward c marks { s with defaultDuration } := onward.of_kept rfl rfl rfl rfl
          exact ih onward₁ (.adjusted reached adjusts) holds fixed' played unlimited silent
      | call call =>
          obtain ⟨s₁, result, results', answered, others, rfl⟩ := play_call played
          rw [List.forall_mem_cons] at unlimited
          rw [playRounds, answered, List.forall_mem_append] at silent
          obtain ⟨c₁, marks₁, answered', logged, onward₁⟩ :=
            onward.answer peeks reached holds answered unlimited.1 silent.1 le granted
          have leads := leads_of_answer answered
          obtain ⟨c', marks', others', logged'⟩ := ih onward₁ (leads.reached reached)
            (leads.holds reached holds) fixed' others unlimited.2 silent.2
          refine ⟨c', marks', ?_, ?_⟩
          · rw [Simulation.play, answered']
            dsimp only
            rw [others']
          · rw [playCommits, playCommits, answered, answered', logged]
            dsimp only
            rw [logged']

/-- Building does not depend on what processes do. -/
theorem build_of_name (named : B'.name = B.name) (kernel : Kernel) (instances : List (Instance σ ω))
    (world : ω) : build B' kernel instances world = build B kernel instances world := by
  have one (s : Simulation σ ω) (i : Instance σ ω) : s.addInstance B' i = s.addInstance B i := by
    cases i <;> simp only [addInstance, named]
  have all (instances : List (Instance σ ω)) (s : Simulation σ ω) :
      s.addInstances B' instances = s.addInstances B instances := by
    induction instances generalizing s with
    | nil => rfl
    | cons i rest ih => simp only [addInstances, one, ih]
  simp only [build, all]

/-- Reads of proposed values change nothing where in each round the marks they leave make no
difference. -/
theorem reads_that_make_no_difference_are_harmless {kernel : Kernel} (made : kernel.Made)
    {instances : List (Instance σ ω)} {world : ω} (built : build B kernel instances world = .ok s)
    (peeks : B.Peeks (fun id => (kernel.signal? id).isSome = true) B') {limit wide : Nat}
    (broad : 2 * limit < wide) {moves : List (Move ω)} (fixed : ∀ n, .setMaxDeltas n ∉ moves)
    {results : List (Except SimError Outcome)}
    (played : (s.setMaxDeltas limit).play B fuel moves = .ok (t, results))
    (unlimited : ∀ time n, .error (.deltaCycleLimit time n) ∉ results)
    (silent : ∀ m ∈ (s.setMaxDeltas limit).playRounds B fuel moves, m.tacit B B' fuel = true) :
    build B' kernel instances world = .ok s ∧
      ∀ more, 2 * fuel ≤ more →
        ∃ c marks, (s.setMaxDeltas wide).play B' more moves = .ok (t.padded c marks, results) ∧
          (s.setMaxDeltas wide).playCommits B' more moves =
            (s.setMaxDeltas limit).playCommits B fuel moves := by
  refine ⟨(build_of_name peeks.name kernel instances world).trans built, fun more granted => ?_⟩
  have adjusts : s.Adjusts (s.setMaxDeltas limit) := ⟨_, _, _, _, _, _, rfl⟩
  have reached : Reached B (s.setMaxDeltas limit) := .adjusted (.built made built) adjusts
  have start : s.kernel = kernel := congrArg Desk.kernel (desk_build built)
  have holds : s.kernel.Holds fun id => (kernel.signal? id).isSome = true := by
    intro id there
    rw [start]
    exact there
  have pace := (adds_build built).pace
  have delta : s.delta = 0 := congrArg Pace.delta pace
  have follows : Follows ⟨s.delta, s.stats.deltas, wide⟩ (s.setMaxDeltas limit) 0 := by
    refine ⟨?_, broad, ?_⟩
    · exact delta.trans_le (Nat.zero_le limit)
    · exact delta.trans_le (Nat.zero_le _)
  have rides : Rides ⟨s.delta, s.stats.deltas, wide⟩ s.kernel.pending (s.setMaxDeltas limit) :=
    ⟨rfl, .inl follows⟩
  obtain ⟨c, marks, played', commits⟩ := Onward.play (.inr rides) peeks reached holds fixed played
    (fun result listed time n same => unlimited time n (same ▸ listed)) silent (Nat.le_refl fuel)
    granted
  exact ⟨c, marks, played', commits⟩

/-- A process that lights a lamp at once, and ends two ticks later. -/
def lamplighter : Behaviours Bool Unit where
  name _ := "lamplighter"
  resume
    | false => (Activity.setNext ⟨0⟩ (.bool true)).bind fun _ => .done (.wait true (.delay 2))
    | true => .done .done
  react state := .done state

/-- A lamp that is lit at once. -/
def lamp : Kernel := (Kernel.declare {} "lamp" (.bool false) none).2

/-- A simulation of the lamp and the lamplighter. -/
def dusk : Simulation Bool Unit :=
  ({ kernel := lamp, world := () } : Simulation Bool Unit).addWaiter "lamplighter" (.process false)
    none

/-- What the calls of a session return. -/
def returns (played : Except Stuck (Simulation σ ω × List (Except SimError Outcome))) :
    Option (List (Except SimError Outcome)) := played.toOption.map Prod.snd

theorem exists_of_returns {played : Except Stuck (Simulation σ ω × List (Except SimError Outcome))}
    {results : List (Except SimError Outcome)} (same : returns played = some results) :
    ∃ t, played = .ok (t, results) := by
  obtain _ | ⟨t, results'⟩ := played
  · cases same
  · cases same
    exact ⟨t, rfl⟩

/-- A run of a tick, and one to the end. -/
def evening : List (Move Unit) := [.call (.run (some 1)), .call (.run none)]

/-- The lamplighter may look at the lamp before it lights it, and before it ends. -/
theorem the_lamplighter_may_look_at_the_lamp :
    lamplighter.Peeks (fun id => (lamp.signal? id).isSome = true) (lamplighter.reading ⟨0⟩) ∧
      returns ((dusk.setMaxDeltas 3).play lamplighter 9 evening) =
        some [.ok .suspended, .ok (.finished .noMoreEvents)] ∧
      (∀ m ∈ (dusk.setMaxDeltas 3).playRounds lamplighter 9 evening,
        m.tacit lamplighter (lamplighter.reading ⟨0⟩) 9 = true) ∧
      ∀ more, 18 ≤ more →
        returns ((dusk.setMaxDeltas 7).play (lamplighter.reading ⟨0⟩) more evening) =
            some [.ok .suspended, .ok (.finished .noMoreEvents)] ∧
          (dusk.setMaxDeltas 7).playCommits (lamplighter.reading ⟨0⟩) more evening =
            (dusk.setMaxDeltas 3).playCommits lamplighter 9 evening := by
  have made : lamp.Made := .signal .empty "lamp" (.bool false) none
  have built : build lamplighter lamp [.process false] () = .ok dusk := rfl
  have peeks : lamplighter.Peeks (fun id => (lamp.signal? id).isSome = true)
      (lamplighter.reading ⟨0⟩) := lamplighter.peeks_reading rfl
  have returned : returns ((dusk.setMaxDeltas 3).play lamplighter 9 evening) =
      some [.ok .suspended, .ok (.finished .noMoreEvents)] := by decide +kernel
  have silent : ∀ m ∈ (dusk.setMaxDeltas 3).playRounds lamplighter 9 evening,
      m.tacit lamplighter (lamplighter.reading ⟨0⟩) 9 = true := by decide +kernel
  obtain ⟨t, played⟩ := exists_of_returns returned
  refine ⟨peeks, returned, silent, fun more granted => ?_⟩
  obtain ⟨-, plays⟩ := reads_that_make_no_difference_are_harmless made built peeks
    (show 2 * 3 < 7 by decide) (fun n listed => by simp [evening] at listed) played
    (fun time n listed => by simp at listed) silent
  obtain ⟨c, marks, played', commits⟩ := plays more granted
  rw [played']
  exact ⟨rfl, commits⟩

/-- A process that ends at once. -/
def bystander : Behaviours Unit Unit where
  name _ := "bystander"
  resume _ := .done .done
  react _ := .done ()

/-- A simulation of a gauge and a bystander. -/
def standing : Simulation Unit Unit :=
  ({ kernel := .gauge, world := () } : Simulation Unit Unit).addWaiter "bystander" (.process ()) none

/-- If it looks at the gauge, which follows five ticks later, the bystander keeps the run going. -/
theorem a_look_at_the_gauge_keeps_the_run_going :
    bystander.Peeks (fun id => (Kernel.gauge.signal? id).isSome = true) (bystander.reading ⟨0⟩) ∧
      returns (standing.play bystander 9 [.call (.run (some 1))]) =
        some [.ok (.finished .noMoreEvents)] ∧
      returns (standing.play (bystander.reading ⟨0⟩) 9 [.call (.run (some 1))]) =
        some [.ok .suspended] :=
  ⟨bystander.peeks_reading rfl, by decide +kernel, by decide +kernel⟩

end Simulation

end DeltaCycle
