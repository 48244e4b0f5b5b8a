import DeltaCycle.Proofs.Inertia
import DeltaCycle.Proofs.ShadowsAtRest
import DeltaCycle.Proofs.SplitRuns

/-!
# Committed changes

The changes that a run commits, in order: those of its commit phases, and those that come due where
a tick is left. A run counts them, and none of them comes before the tick at which the run begins
or after its cap.
-/

set_option autoImplicit false

namespace DeltaCycle

variable {σ ω : Type} {B : Behaviours σ ω}

theorem EventQueue.nextTime?_eq_none_iff {q : EventQueue} :
    q.nextTime? = none ↔ q.toList = [] := by
  obtain ⟨heap, pushed, wellFormed, fresh⟩ := q
  cases heap with
  | empty => exact ⟨fun _ => rfl, fun _ => rfl⟩
  | node size top left right => exact ⟨nofun, nofun⟩

/-- The tick of the earliest entry is that of an entry. -/
theorem EventQueue.exists_of_nextTime? {q : EventQueue} {time : Nat}
    (next : q.nextTime? = some time) : ∃ e ∈ q.toList, e.time = time := by
  obtain ⟨heap, pushed, wellFormed, fresh⟩ := q
  cases heap with
  | empty => cases next
  | node size top left right =>
      cases next
      exact ⟨top, List.mem_cons_self .., rfl⟩

namespace Simulation

/-! ## The changes of a run -/

/-- The changes that entries of the queue make while it is drained, up to the first that fails. -/
def drained : Nat → Simulation σ ω → Nat → List Change
  | 0, _, _ => []
  | count + 1, s, time =>
      match s.queue.popDue time with
      | none => []
      | some (payload, queue) =>
          (changeOfPayload? { s with queue } payload).toList ++
            match fire { s with queue } payload with
            | (s, .ok _) => drained count s time
            | (_, .error _) => []

/-- The changes that are committed where a tick is left. -/
def departures (s : Simulation σ ω) (cap : Option Nat) : List Change :=
  if cap = some s.kernel.now then
    []
  else
    match s.queue.nextTime? with
    | none => []
    | some time =>
        match cap.filter (· < time) with
        | some _ => []
        | none =>
            match s.moveClock time with
            | (_, .error _) => []
            | (s, .ok _) => s.drained s.queue.size time

/-- Where the clock moves on, the entries that are due make the changes. -/
def arrived (s : Simulation σ ω) (time : Nat) : List Change :=
  match s.moveClock time with
  | (_, .error _) => []
  | (s, .ok _) => s.drained s.queue.size time

theorem departures_eq (s : Simulation σ ω) (cap : Option Nat) :
    s.departures cap = (s.onward? cap).elim [] s.arrived :=
  (s.elim_onward? cap [] s.arrived).symm

/-- The changes that are committed in a cycle before it looks at the cap: in its commit phase, and
in the one after a waiter failed or a process asked for the end. -/
def roundCommits (B : Behaviours σ ω) (fuel : Nat) (s : Simulation σ ω) : List Change :=
  s.commits ++
    match s.rounded? B fuel with
    | none => []
    | some (s, failure) =>
        if failure.isOk && s.kernel.stopRequest.isNone then [] else s.commits

/-- The changes that are committed in a cycle. -/
def cycleCommits (B : Behaviours σ ω) (fuel : Nat) (s : Simulation σ ω) (cap : Option Nat) :
    List Change :=
  s.roundCommits B fuel ++
    match s.rested? B fuel with
    | none => []
    | some s => s.departures cap

/-- The changes that are committed in a loop, in order. -/
def loopCommits (B : Behaviours σ ω) : Nat → Simulation σ ω → Option Nat → List Change
  | 0, _, _ => []
  | fuel + 1, s, cap =>
      s.cycleCommits B (fuel + 1) cap ++
        match s.cycle B (fuel + 1) cap with
        | .ok (s, .again) => loopCommits B fuel s cap
        | _ => []

/-- The changes that are committed in a run, in order. -/
def runCommits (B : Behaviours σ ω) (fuel : Nat) (s : Simulation σ ω) (duration : Option Nat) :
    List Change :=
  if s.hasEnded then
    []
  else
    match s.startHook with
    | (_, .error _) => []
    | (s, .ok _) => loopCommits B fuel s (s.capOf duration)

theorem runCommits_of_started {s s' : Simulation σ ω} (running : s.hasEnded = false)
    (started : s.startHook = (s', .ok ())) (fuel : Nat) (duration : Option Nat) :
    runCommits B fuel s duration = loopCommits B fuel s' (s'.capOf duration) := by
  simp only [runCommits, running, started, Bool.false_eq_true, if_false]

/-! ## They are counted -/

theorem stats_report (s : Simulation σ ω) (id : SignalId) (old : Value) :
    (s.report id old).1.stats = s.stats := by
  obtain ⟨world, told⟩ := report_spec s id old
  rw [told]

theorem count_of_step (s : Simulation σ ω) (id : SignalId) (f : Signal → Signal × Commit) :
    (s.step id f).1.stats.commits = s.stats.commits + (s.changeOf? id f).toList.length := by
  unfold step changeOf?
  cases s.kernel.signal? id with
  | none => rfl
  | some signal =>
      dsimp only
      generalize f signal = turned
      obtain ⟨signal', commit⟩ := turned
      cases commit with
      | unchanged => rfl
      | deferred delay value stamp =>
          simp only [absorb]
          split <;> rfl
      | changed old woken =>
          exact congrArg RunStats.commits (stats_report _ id old)

theorem count_of_commitPending (s : Simulation σ ω) :
    s.commitPending.1.stats.commits = s.stats.commits + s.commits.length := by
  have each (ids : List SignalId) (s : Simulation σ ω) (failure : Except SimError Unit) :
      (s.updateAll failure ids).1.stats.commits =
        s.stats.commits + (s.updates ids).length := by
    induction ids generalizing s failure with
    | nil => rfl
    | cons id rest ih =>
        rw [updateAll, updates, List.length_append, ← Nat.add_assoc, ← count_of_step]
        exact ih _ _
  exact each _ { s with kernel := { s.kernel with pending := [] } } _

theorem count_of_drainUpTo (s : Simulation σ ω) (count time : Nat) :
    (drainUpTo count s time).1.stats.commits =
      s.stats.commits + (s.drained count time).length := by
  induction count generalizing s with
  | zero => rfl
  | succ count ih =>
      rw [drainUpTo, drained]
      cases s.queue.popDue time with
      | none => rfl
      | some due =>
          obtain ⟨payload, queue⟩ := due
          have fired : (fire { s with queue } payload).1.stats.commits =
              s.stats.commits + (changeOfPayload? { s with queue } payload).toList.length := by
            cases payload with
            | wake a => rfl
            | apply id value stamp => exact count_of_step { s with queue } id _
          dsimp only
          rw [List.length_append, ← Nat.add_assoc, ← fired]
          generalize fire { s with queue } payload = result
          obtain ⟨s', _ | _⟩ := result
          · rfl
          · exact ih s'

theorem count_of_rounded {fuel : Nat} {s s' : Simulation σ ω} {failure : Except SimError Unit}
    (rounded : s.rounded? B fuel = some (s', failure)) :
    s'.stats.commits = s.stats.commits + s.commits.length := by
  obtain ⟨m, committed, ran⟩ := rounded?_eq_some_iff.mp rounded
  have counted := s.count_of_commitPending
  rw [committed] at counted
  obtain ⟨resumes, same⟩ := surroundings_runReady ran
  have stats := congrArg Surroundings.stats same
  exact (congrArg RunStats.commits stats).trans counted

theorem count_of_advanceTo (s : Simulation σ ω) (time : Nat) :
    (s.advanceTo time).1.stats.commits = s.stats.commits + (s.arrived time).length := by
  unfold advanceTo arrived
  obtain ⟨now, delta, deltas, timeSteps, moved⟩ := moveClock_spec s time
  generalize s.moveClock time = result at moved ⊢
  obtain ⟨s₁, e | _⟩ := result
  · exact congrArg (·.stats.commits) moved
  · have drained := count_of_drainUpTo s₁ s₁.queue.size time
    rw [show s₁.stats.commits = s.stats.commits from
      congrArg (·.stats.commits) moved] at drained
    dsimp only [drain]
    generalize drainUpTo s₁.queue.size s₁ time = result at drained ⊢
    obtain ⟨s₂, _ | _⟩ := result
    · exact drained
    · dsimp only at drained ⊢
      cases s₂.openLink? with
      | none => exact drained
      | some l =>
          obtain ⟨world, link, sent, -⟩ := sendOutputs_spec s₂ l.bridge
          exact (congrArg (·.stats.commits) sent).trans drained

theorem count_of_leaveTick (s : Simulation σ ω) (cap : Option Nat) :
    (s.leaveTick cap).1.stats.commits = s.stats.commits + (s.departures cap).length := by
  rw [departures_eq]
  exact leaveTick_induction
    (P := fun onward t => t.stats.commits = s.stats.commits + (onward.elim [] s.arrived).length)
    rfl (fun _ _ _ _ _ => rfl) fun time _ _ => s.count_of_advanceTo time

theorem count_of_settled {s q : Simulation σ ω} (settles : s.settled? = some q) :
    q.stats = s.stats := by
  obtain ⟨kernel, world, link, same, -⟩ := exchange_spec s
  have way := way_of_proceed s
  rw [settles] at way
  cases way with
  | settled exchanged pending proceeds =>
      rw [exchanged] at same
      rw [purge_eq]
      exact congrArg (·.stats) same

theorem count_of_unsettled {s : Simulation σ ω} (unsettled : s.settled? = none)
    (cap : Option Nat) : (s.proceed cap).1.stats.commits = s.stats.commits := by
  obtain ⟨kernel, world, link, same, -⟩ := exchange_spec s
  have way := way_of_proceed s
  rw [unsettled] at way
  cases way with
  | failed exchanged proceeds =>
      rw [exchanged] at same
      rw [proceeds]
      exact congrArg (·.stats.commits) same
  | @entered m sent exchanged proceeds =>
      obtain ⟨delta, deltas, next⟩ := nextDelta_spec m.purge
      rw [exchanged] at same
      rw [proceeds, fst_goOn, next, purge_eq]
      exact congrArg (·.stats.commits) same

theorem count_of_wrapUp (s : Simulation σ ω) (failure : Except SimError Unit) :
    (s.wrapUp failure).1.stats.commits = s.stats.commits + s.commits.length := by
  obtain ⟨stopRequest, same⟩ := s.wrapUp_eq failure
  rw [← count_of_commitPending, same, purge_eq]

/-- The ways of a cycle, each with the changes that it commits: a commit fails, or the cycle wraps up
and commits once more, or it stays in its tick, or it comes to rest and leaves the tick. -/
inductive CommitWay (B : Behaviours σ ω) (fuel : Nat) (s : Simulation σ ω) (cap : Option Nat)
    (s' : Simulation σ ω) (verdict : Verdict) : List Change → Prop where
  | refused {e : SimError} (committed : s.commitPending = (s', .error e)) :
      CommitWay B fuel s cap s' verdict s.commits
  | wrapped {s₁ : Simulation σ ω} {failure : Except SimError Unit}
      (rounded : s.rounded? B fuel = some (s₁, failure))
      (ends : s₁.wrapUp failure = (s', verdict)) :
      CommitWay B fuel s cap s' verdict (s.commits ++ s₁.commits)
  | stayed {s₁ : Simulation σ ω} (rounded : s.rounded? B fuel = some (s₁, .ok ()))
      (unsettled : s₁.settled? = none) (went : s₁.proceed cap = (s', verdict)) :
      CommitWay B fuel s cap s' verdict s.commits
  | left {s₁ q : Simulation σ ω} (rounded : s.rounded? B fuel = some (s₁, .ok ()))
      (settles : s₁.settled? = some q) (left : q.leaveTick cap = (s', verdict)) :
      CommitWay B fuel s cap s' verdict (s.commits ++ q.departures cap)

theorem commitWay_of_cycle {fuel : Nat} {s s' : Simulation σ ω} {cap : Option Nat}
    {verdict : Verdict} (turned : s.cycle B fuel cap = .ok (s', verdict)) :
    CommitWay B fuel s cap s' verdict (s.cycleCommits B fuel cap) := by
  simp only [cycleCommits, roundCommits, rested?]
  cases way_of_cycle turned with
  | refused committed =>
      simp only [rounded?, committed, List.append_nil]
      exact .refused committed
  | @proceeded m s₁ _ committed ran running went =>
      have rounded := rounded?_of_round committed ran
      simp only [rounded, running, Except.isOk, Except.toBool, Option.isNone_none, Bool.and_self,
        if_true, List.append_nil]
      cases settles : s₁.settled? with
      | none =>
          rw [List.append_nil]
          exact .stayed rounded settles went
      | some q =>
          obtain ⟨-, -, leaves⟩ := proceed_of_settled (ready_of_runReady ran) running settles
          exact .left rounded settles ((leaves cap).symm.trans went)
  | @wrapped m s₁ failure _ committed ran stops ends =>
      have rounded := rounded?_of_round committed ran
      have way : CommitWay B fuel s cap s' verdict (s.commits ++ s₁.commits) :=
        .wrapped rounded ends
      obtain e | ⟨⟩ := failure
      · simpa [rounded, Except.isOk, Except.toBool] using way
      · obtain ⟨reason, asked⟩ := Option.ne_none_iff_exists'.mp (stops rfl)
        simpa [rounded, asked] using way

/-- A cycle counts the changes that are committed in it. -/
theorem count_of_cycle {fuel : Nat} {s s' : Simulation σ ω} {cap : Option Nat} {verdict : Verdict}
    (turned : s.cycle B fuel cap = .ok (s', verdict)) :
    s'.stats.commits = s.stats.commits + (s.cycleCommits B fuel cap).length := by
  have way := commitWay_of_cycle turned
  generalize s.cycleCommits B fuel cap = commits at way
  cases way with
  | refused committed =>
      have counted := s.count_of_commitPending
      rwa [committed] at counted
  | @wrapped s₁ failure rounded ends =>
      have counted := s₁.count_of_wrapUp failure
      rwa [ends, count_of_rounded rounded, Nat.add_assoc, ← List.length_append] at counted
  | stayed rounded unsettled went =>
      have counted := count_of_unsettled unsettled cap
      rwa [went, count_of_rounded rounded] at counted
  | @left s₁ q rounded settles left =>
      have counted := q.count_of_leaveTick cap
      rwa [left, count_of_settled settles, count_of_rounded rounded, Nat.add_assoc,
        ← List.length_append] at counted

theorem count_of_loop {fuel : Nat} {s s' : Simulation σ ω} {cap : Option Nat}
    {result : Except SimError Outcome} (looped : loop B fuel s cap = .ok (s', result)) :
    s'.stats.commits = s.stats.commits + (loopCommits B fuel s cap).length := by
  replace looped := way_of_loop looped
  induction looped with
  | @ended fuel s turned => rw [loopCommits, turned, count_of_cycle turned, List.append_nil]
  | @again fuel s s₁ turned further ih =>
      rw [loopCommits, turned, ih, count_of_cycle turned, List.length_append, Nat.add_assoc]

/-- A run counts the changes that are committed in it. -/
theorem count_of_run {fuel : Nat} {s s' : Simulation σ ω} {duration : Option Nat}
    {result : Except SimError Outcome} (ran : run B fuel s duration = .ok (s', result)) :
    s'.stats.commits = s.stats.commits + (runCommits B fuel s duration).length := by
  have concluded (s : Simulation σ ω) (result : Except SimError Outcome) :
      (s.conclude result).1.stats = s.stats := by
    obtain ⟨state, link, world, same⟩ := s.conclude_eq result
    rw [same]
  have started : s.startHook.1.stats = s.stats := by
    obtain ⟨hook, hookStarted, state, maxDeltas, defaultDuration, world, same⟩ :=
      s.adjusts_startHook
    rw [same]
  unfold runCommits
  cases way_of_run ran with
  | terminated ended =>
      rw [if_pos ended]
      rfl
  | untold running started' =>
      rw [started'] at started ⊢
      rw [if_neg (Bool.eq_false_iff.mp running)]
      exact congrArg RunStats.commits started
  | @played s₁ s₂ _ final _ running started' looped ends =>
      rw [started'] at started ⊢
      rw [if_neg (Bool.eq_false_iff.mp running)]
      have same := concluded s₂ final
      rw [ends] at same
      dsimp only at started ⊢
      rw [← started, ← count_of_loop looped]
      exact congrArg RunStats.commits same

/-! ## Their times -/

theorem drained_subset (s : Simulation σ ω) (count time : Nat) :
    s.drained count time ⊆ s.arrivals count time := by
  induction count generalizing s with
  | zero => exact List.Subset.refl _
  | succ count ih =>
      rw [drained, arrivals]
      cases s.queue.popDue time with
      | none => exact List.Subset.refl _
      | some due =>
          obtain ⟨payload, queue⟩ := due
          dsimp only
          refine List.append_subset.mpr ⟨List.subset_append_left .., ?_⟩
          refine List.Subset.trans ?_ (List.subset_append_right ..)
          generalize fire { s with queue } payload = fired
          obtain ⟨s', e | _⟩ := fired
          · exact List.nil_subset _
          · exact ih s'

theorem time_of_commits (s : Simulation σ ω) : ∀ c ∈ s.commits, c.time = s.kernel.now := by
  have each (ids : List SignalId) (s : Simulation σ ω) :
      ∀ c ∈ s.updates ids, c.time = s.kernel.now := by
    induction ids generalizing s with
    | nil => exact fun c listed => absurd listed List.not_mem_nil
    | cons id rest ih =>
        refine List.forall_mem_append.mpr ⟨fun c changes => ?_, fun c listed => ?_⟩
        · exact (changeOf?_spec (Option.mem_toList.mp changes)).2.1
        · exact (ih _ c listed).trans (now_step s id Signal.update)
  exact each _ _

theorem time_of_roundCommits (fuel : Nat) (s : Simulation σ ω) :
    ∀ c ∈ s.roundCommits B fuel, c.time = s.kernel.now := by
  refine List.forall_mem_append.mpr ⟨s.time_of_commits, ?_⟩
  cases rounded : s.rounded? B fuel with
  | none => exact fun c listed => absurd listed List.not_mem_nil
  | some turned =>
      obtain ⟨s', failure⟩ := turned
      dsimp only
      split
      · exact fun c listed => absurd listed List.not_mem_nil
      · intro c listed
        exact (s'.time_of_commits c listed).trans (cycle_of_rounded rounded).2.1

/-- Where a tick is left, changes are committed at the tick of the earliest event, unless the cap
comes before it or is the tick that is left. -/
theorem time_of_departures {s : Simulation σ ω} {cap : Option Nat} {c : Change}
    (listed : c ∈ s.departures cap) :
    s.queue.nextTime? = some c.time ∧ cap ≠ some s.kernel.now ∧ ∀ limit ∈ cap, c.time ≤ limit := by
  unfold departures at listed
  split at listed
  · cases listed
  · next elsewhere =>
      cases next : s.queue.nextTime? with
      | none => simp [next] at listed
      | some time =>
          simp only [next] at listed
          cases capped : cap.filter (· < time) with
          | some limit => simp [capped] at listed
          | none =>
              simp only [capped] at listed
              cases moved : s.moveClock time with
              | mk s' result =>
                  cases result with
                  | error e => simp [moved] at listed
                  | ok _ =>
                      simp only [moved] at listed
                      have now := time_of_arrivals s' _ time c (drained_subset _ _ _ listed)
                      rw [now_moveClock moved] at now
                      subst now
                      refine ⟨rfl, elsewhere, fun limit present => ?_⟩
                      have uncapped := Option.filter_eq_none_iff.mp capped limit present
                      simpa using uncapped

theorem Reached.ahead {s : Simulation σ ω} (reached : Reached B s) : s.desk.Ahead :=
  reached.keeps (fun _ _ _ listed => absurd listed List.not_mem_nil) Desk.Step.ahead

/-- A simulation that rests in a cycle is what a cycle under a cap at its tick leaves. -/
theorem Reached.rested {s q : Simulation σ ω} (reached : Reached B s) {fuel : Nat}
    (rested : s.rested? B fuel = some q) : Reached B q := by
  obtain ⟨-, -, leaves⟩ := cycle_of_rested rested
  have stopped : q.leaveTick (some q.kernel.now) = (q, .ended (.ok .suspended)) :=
    leaveTick_of_way (.held rfl)
  exact reached.cycled ((leaves (some q.kernel.now)).trans (congrArg Except.ok stopped))

/-- Where the clock goes on from a tick, it goes to the tick of the earliest event. -/
theorem now_of_leaveTick {s s' : Simulation σ ω} {cap : Option Nat}
    (left : s.leaveTick cap = (s', .again)) : s.queue.nextTime? = some s'.kernel.now := by
  have way := way_of_leaveTick left
  generalize s.onward? cap = onward at way
  cases way with
  | advanced elsewhere next inTime advanced =>
      rw [now_of_advanceTo advanced]
      exact next

/-- The clock does not go back from cycle to cycle. -/
theorem Reached.le_now_of_cycle {s s' : Simulation σ ω} (reached : Reached B s) {fuel : Nat}
    {cap : Option Nat} (turned : s.cycle B fuel cap = .ok (s', .again)) :
    s.kernel.now ≤ s'.kernel.now := by
  cases rested : s.rested? B fuel with
  | none =>
      obtain ⟨out, ignores⟩ := cycle_of_unrested rested
      exact Nat.le_of_eq (ignores.now s' ((ignores.gives cap).symm.trans turned)).symm
  | some q =>
      obtain ⟨-, now, leaves⟩ := cycle_of_rested rested
      obtain ⟨e, listed, time⟩ := EventQueue.exists_of_nextTime?
        (now_of_leaveTick (Except.ok.inj ((leaves cap).symm.trans turned)))
      rw [← now, ← time]
      exact (reached.rested rested).ahead e listed

/-- No change is committed before the tick at which a loop begins. -/
theorem Reached.le_time_of_loopCommits {s : Simulation σ ω} (reached : Reached B s) (fuel : Nat)
    (cap : Option Nat) : ∀ c ∈ loopCommits B fuel s cap, s.kernel.now ≤ c.time := by
  induction fuel generalizing s with
  | zero => exact fun c listed => absurd listed List.not_mem_nil
  | succ fuel ih =>
      rw [loopCommits, cycleCommits]
      refine List.forall_mem_append.mpr ⟨List.forall_mem_append.mpr ⟨?_, ?_⟩, ?_⟩
      · exact fun c listed => Nat.le_of_eq (time_of_roundCommits (fuel + 1) s c listed).symm
      · cases rested : s.rested? B (fuel + 1) with
        | none => exact fun c listed => absurd listed List.not_mem_nil
        | some q =>
            intro c listed
            obtain ⟨e, listed', time⟩ :=
              EventQueue.exists_of_nextTime? (time_of_departures listed).1
            rw [← (cycle_of_rested rested).2.1, ← time]
            exact (reached.rested rested).ahead e listed'
      · split
        · next s' turned =>
            intro c listed
            exact Nat.le_trans (reached.le_now_of_cycle turned) (ih (reached.cycled turned) c listed)
        · exact fun c listed => absurd listed List.not_mem_nil

/-- The clock does not pass the cap from cycle to cycle. -/
theorem le_cap_of_cycle {s s' : Simulation σ ω} {fuel cap : Nat} (before : s.kernel.now ≤ cap)
    (turned : s.cycle B fuel (some cap) = .ok (s', .again)) : s'.kernel.now ≤ cap := by
  cases rested : s.rested? B fuel with
  | none =>
      obtain ⟨out, ignores⟩ := cycle_of_unrested rested
      have now := ignores.now s' ((ignores.gives _).symm.trans turned)
      exact Nat.le_trans (Nat.le_of_eq now) before
  | some q =>
      obtain ⟨-, now, leaves⟩ := cycle_of_rested rested
      have left := Except.ok.inj ((leaves (some cap)).symm.trans turned)
      exact (leaveTick_of_not_suspended (Nat.le_trans (Nat.le_of_eq now) before)
        (Nat.le_refl cap) left nofun).2 rfl

/-- No change is committed after the cap of a loop. -/
theorem time_of_loopCommits_le {s : Simulation σ ω} {cap : Nat} (before : s.kernel.now ≤ cap)
    (fuel : Nat) : ∀ c ∈ loopCommits B fuel s (some cap), c.time ≤ cap := by
  induction fuel generalizing s with
  | zero => exact fun c listed => absurd listed List.not_mem_nil
  | succ fuel ih =>
      rw [loopCommits, cycleCommits]
      refine List.forall_mem_append.mpr ⟨List.forall_mem_append.mpr ⟨?_, ?_⟩, ?_⟩
      · intro c listed
        rw [time_of_roundCommits (fuel + 1) s c listed]
        exact before
      · cases s.rested? B (fuel + 1) with
        | none => exact fun c listed => absurd listed List.not_mem_nil
        | some q => exact fun c listed => (time_of_departures listed).2.2 cap rfl
      · split
        · next s' turned => exact ih (le_cap_of_cycle before turned)
        · exact fun c listed => absurd listed List.not_mem_nil

end Simulation

end DeltaCycle
