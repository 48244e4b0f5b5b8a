import DeltaCycle.Proofs.PaddedRounds
import DeltaCycle.Proofs.Reuse

/-!
# Cycles of padded simulations

A padded simulation goes through the cycles of a simulation if its additional marks come to nothing in
each commit phase. Where the tick would be left, it takes a cycle more in which nothing happens.
-/

set_option autoImplicit false

namespace DeltaCycle

variable {σ ω : Type}

namespace Simulation

variable {known : SignalId → Prop} {B B' : Behaviours σ ω} {s s' m : Simulation σ ω} {c : Counters}
  {marks : List SignalId} {fuel : Nat} {cap : Option Nat} {verdict : Verdict}

/-! ## Commits -/

theorem effective_purge (s : Simulation σ ω) :
    s.purge.kernel.effective = s.kernel.effective := by
  refine funext (Kernel.effective_congr (fun id => ?_) fun id => ?_)
  · unfold Kernel.steady
    rw [signal?_purge]
    split
    · cases s.kernel.signal? id <;> rfl
    · rfl
  · unfold Kernel.prompt
    rw [signal?_purge]
    split
    · cases s.kernel.signal? id <;> rfl
    · rfl

theorem wrapUp_padded (c : Counters)
    (same : s.kernel.effective marks = s.kernel.effective s.kernel.pending)
    (failure : Except SimError Unit) :
    (s.padded c marks).wrapUp failure = paddedWith c [] (s.wrapUp failure) := by
  unfold wrapUp
  rw [(commitPending_padded c same).1]
  dsimp only [paddedWith]
  rw [purge_padded]
  cases firstError failure s.commitPending.2 <;> rfl

theorem cycleCommits_of_refused {e : SimError} (committed : s.commitPending = (m, .error e)) :
    s.cycleCommits B fuel cap = s.commits := by
  simp only [cycleCommits, roundCommits, rested?, rounded?, committed, List.append_nil]

theorem cycleCommits_of_wrapped {failure : Except SimError Unit}
    (committed : s.commitPending = (m, .ok ()))
    (ran : runReady B fuel m (.ok ()) = .ok (s', failure))
    (stops : failure = .ok () → s'.kernel.stopRequest ≠ none) :
    s.cycleCommits B fuel cap = s.commits ++ s'.commits := by
  simp only [cycleCommits, roundCommits, rested?, rounded?_of_round committed ran]
  cases failure with
  | error e => simp [Except.isOk, Except.toBool]
  | ok _ =>
      obtain ⟨reason, asked⟩ := Option.ne_none_iff_exists'.mp (stops rfl)
      simp [asked]

/-! ## A cycle -/

/-- A padded simulation at the beginning of a cycle. Its marks come to the same, and it has entered
twice as many delta cycles of the tick at most, or one more if nothing is left to do in the round. -/
structure Rides (c : Counters) (marks : List SignalId) (s : Simulation σ ω) : Prop where
  effective : s.kernel.effective marks = s.kernel.effective s.kernel.pending
  paced : Follows c s 0 ∨
    Follows c s 1 ∧ s.ready.pop? = none ∧ s.kernel.pending = [] ∧ marks = []

/-- A padded simulation within a cycle. If it has entered one delta cycle too many already, it has no
additional marks. -/
structure Level (known : SignalId → Prop) (c : Counters) (marks : List SignalId)
    (s : Simulation σ ω) : Prop where
  more : Pads known s.kernel.pending marks
  paced : Follows c s 0 ∨ Follows c s 1 ∧ marks = s.kernel.pending

theorem Level.follows (level : Level known c marks s) : Follows c s 1 :=
  level.paced.elim Follows.mono And.left

theorem Rides.commitPending (rides : Rides c marks s) {result : Except SimError Unit}
    (committed : s.commitPending = (m, result)) :
    (s.padded c marks).commitPending = (m.padded c [], result) ∧
      (s.padded c marks).commits = s.commits ∧ m.kernel.pending = [] ∧
      (Follows c m 0 ∨ Follows c m 1 ∧ m.ready.pop? = none) := by
  obtain ⟨commits, changes⟩ := commitPending_padded c rides.effective
  let unmarked : Simulation σ ω := { s with kernel := { s.kernel with pending := [] } }
  have pending := pending_of_padded (s := unmarked)
    (f := (·.updateAll (.ok ()) s.kernel.pending.reverse))
    fun c marks => updateAll_padded _ c marks _ _
  replace pending : s.commitPending.1.kernel.pending = [] := pending
  have paced := pace_commitPending s
  rw [committed] at commits pending paced
  refine ⟨commits, changes, pending, ?_⟩
  rcases rides.paced with follows | ⟨follows, idle, nothing, -⟩
  · exact .inl (follows.of_pace paced)
  · cases (commitPending_of_unmarked nothing).symm.trans committed
    exact .inr ⟨follows, idle⟩

theorem level_of_round (peeks : B.Peeks known B') (holds : m.kernel.Holds known)
    (unmarked : m.kernel.pending = [])
    (paced : Follows c m 0 ∨ Follows c m 1 ∧ m.ready.pop? = none) {failure : Except SimError Unit}
    (ran : runReady B fuel m (.ok ()) = .ok (s, failure)) :
    ∃ marks, runReady B' fuel (m.padded c []) (.ok ()) = .ok (s.padded c marks, failure) ∧
      Level known c marks s := by
  rcases paced with follows | ⟨follows, idle⟩
  · have none : Pads known m.kernel.pending [] := by
      rw [unmarked]
      exact .nil
    obtain ⟨marks, more, ran'⟩ := runReady_padded peeks holds c ran none
    exact ⟨marks, ran', more, .inl (follows.of_pace (pace_of_runReady ran))⟩
  · cases (runReady_of_idle idle fuel (.ok ())).symm.trans ran
    have idle' : (s.padded c []).ready.pop? = none := idle
    refine ⟨[], runReady_of_idle idle' fuel (.ok ()), ?_, .inr ⟨follows, unmarked.symm⟩⟩
    rw [unmarked]
    exact .nil

theorem Level.exchange (level : Level known c marks s) :
    ∃ marks', (s.padded c marks).exchange = paddedWith c marks' s.exchange ∧
      Level known c marks' s.exchange.1 := by
  rcases level.paced with follows | ⟨follows, same⟩
  · obtain ⟨marks', more, exchanged⟩ := exchange_padded c level.more
    exact ⟨marks', exchanged, more, .inl (follows.of_pace (pace_exchange s))⟩
  · subst same
    exact ⟨_, exchange_same c, .refl known _, .inr ⟨follows.of_pace (pace_exchange s), rfl⟩⟩

/-- Another cycle follows, in the same run or in a later one. -/
def Continues (verdict : Verdict) : Prop := verdict = .again ∨ verdict = .ended (.ok .suspended)

theorem not_continues_of_ended {result : Except SimError Outcome} (final : result ≠ .ok .suspended) :
    ¬Continues (.ended result) := by
  rintro (again | suspended)
  · cases again
  · cases suspended
    exact final rfl

theorem not_continues_of_failed {e : SimError} : ¬Continues (.ended (.error e)) :=
  not_continues_of_ended (by simp)

/-- The end of a cycle of a padded simulation. It is the same, or it takes a further cycle in which
nothing happens. -/
inductive Parts (c : Counters) (marks : List SignalId) (s : Simulation σ ω) (cap : Option Nat)
    (s' : Simulation σ ω) (verdict : Verdict) : Prop where
  | once (c' : Counters) (marks' : List SignalId)
      (went : (s.padded c marks).proceed cap = (s'.padded c' marks', verdict))
      (partings : (s.padded c marks).partings cap = s.partings cap)
      (rides : Continues verdict → Rides c' marks' s')
  | twice (c' : Counters) (q t : Simulation σ ω)
      (went : (s.padded c marks).proceed cap = (q, .again))
      (partings : (s.padded c marks).partings cap = [])
      (committed : q.commitPending = (t, .ok ())) (commits : q.commits = []) (rest : t.AtRest)
      (left : t.leaveTick cap = (s'.padded c' [], verdict))
      (departures : t.departures cap = s.partings cap)
      (rides : Continues verdict → Rides c' [] s')

theorem pending_purge (s : Simulation σ ω) : s.purge.kernel.pending = s.kernel.pending := by
  obtain ⟨signals, purged⟩ := kernel_purge s
  rw [purged]

theorem proceed_of_busy {sent : Bool} (exchanged : s.exchange = (s', .ok sent))
    (busy : (!s'.kernel.pending.isEmpty || sent) = true) (cap : Option Nat) :
    s.proceed cap = goOn s'.purge.nextDelta ∧ s.partings cap = [] := by
  rw [← pending_purge] at busy
  rw [proceed_eq, partings, settled?, exchanged]
  dsimp only
  rw [if_pos busy, if_pos busy]
  exact ⟨rfl, rfl⟩

theorem proceed_of_quiet (exchanged : s.exchange = (s', .ok false))
    (quiet : s'.kernel.pending = []) (cap : Option Nat) :
    s.proceed cap = s'.purge.leaveTick cap ∧ s.partings cap = s'.purge.departures cap := by
  rw [← pending_purge] at quiet
  rw [proceed_eq, partings, settled?, exchanged]
  dsimp only
  rw [quiet]
  exact ⟨rfl, rfl⟩

theorem AtRest.padded (rest : s.AtRest) (c : Counters) : (s.padded c []).AtRest :=
  ⟨rfl, rest.ready, rest.stopRequest, rest.stale, rest.link⟩

/-- Where a simulation leaves a tick from rest, a padded one without additional marks rides on. -/
theorem AtRest.leaves (rest : s.AtRest) (follows : Follows c s 1)
    (left : s.leaveTick cap = (s', verdict))
    (unlimited : ∀ result, verdict = .ended result → Unlimited result) :
    ∃ c', (s.padded c []).leaveTick cap = (s'.padded c' [], verdict) ∧
      (s.padded c []).departures cap = s.departures cap ∧
      (Continues verdict → Rides c' [] s') := by
  obtain ⟨c', left', departures, follows', again⟩ := follows.leaveTick left unlimited []
  have pending := s.pending_leaveTick cap
  rw [left, rest.pending] at pending
  replace pending : s'.kernel.pending = [] := pending
  refine ⟨c', left', departures, fun goes => ⟨by rw [pending], ?_⟩⟩
  rcases goes with rfl | rfl
  · exact .inl (again rfl)
  · have ready := ready_of_suspended left
    exact .inr ⟨follows', ready ▸ rest.ready, pending, rfl⟩

section Exchanged

variable {marks' : List SignalId} (level : Level known c marks' m)
  (same : m.kernel.effective marks' = m.kernel.effective m.kernel.pending)

include level same

/-- Where the next delta cycle is entered, it is entered with additional marks as well. -/
theorem Level.parts_of_busy {sent : Bool} (exchanged : s.exchange = (m, .ok sent))
    (exchanged' : (s.padded c marks).exchange = (m.padded c marks', .ok sent))
    (busy : (!m.kernel.pending.isEmpty || sent) = true) (went : s.proceed cap = (s', verdict))
    (unlimited : ∀ result, verdict = .ended result → Unlimited result) :
    Parts c marks s cap s' verdict := by
  have busy' : (!(m.padded c marks').kernel.pending.isEmpty || sent) = true := by
    cases marks' with
    | cons id rest => rfl
    | nil =>
        rw [List.sublist_nil.mp level.more.sublist] at busy
        exact busy
  obtain ⟨proceeds, partings⟩ := proceed_of_busy exchanged busy cap
  obtain ⟨proceeds', partings'⟩ := proceed_of_busy exchanged' busy' cap
  have paced : m.purge.pace = m.pace := pace_purge m
  have kept := kernel_nextDelta m.purge
  rw [proceeds] at went
  cases entered : m.purge.nextDelta with
  | mk t result =>
      rw [entered] at went kept
      obtain e | ⟨⟩ := result
      · cases went
        obtain ⟨-, -, told⟩ := exceeds_of_nextDelta entered
        exact absurd (congrArg Except.error told) (unlimited _ rfl _ _)
      · cases went
        obtain ⟨c', entered', follows⟩ := (level.follows.of_pace paced).nextDelta entered marks'
        refine .once c' marks' ?_ (partings'.trans partings.symm) fun _ => ⟨?_, .inl follows⟩
        · rw [proceeds', purge_padded, entered']
          rfl
        · replace kept : s'.kernel = m.purge.kernel := kept
          rw [kept, effective_purge, pending_purge, same]

/-- Where the tick is left, additional marks come to nothing, but the tick is not left before they
did. -/
theorem Level.parts_of_quiet (exchanged : s.exchange = (m, .ok false))
    (exchanged' : (s.padded c marks).exchange = (m.padded c marks', .ok false))
    (quiet : m.kernel.pending = []) (ready : s.ready.pop? = none)
    (running : s.kernel.stopRequest = none) (went : s.proceed cap = (s', verdict))
    (unlimited : ∀ result, verdict = .ended result → Unlimited result) :
    Parts c marks s cap s' verdict := by
  obtain ⟨proceeds, partings⟩ := proceed_of_quiet exchanged quiet cap
  have rest := atRest_of_exchange ready running exchanged ((pending_purge m).trans quiet)
  have paced : m.purge.pace = m.pace := pace_purge m
  rw [proceeds] at went
  by_cases none : marks' = []
  · subst none
    obtain ⟨proceeds', partings'⟩ := proceed_of_quiet exchanged' rfl cap
    rw [purge_padded] at proceeds' partings'
    obtain ⟨c', left, departures, rides⟩ := rest.leaves (level.follows.of_pace paced) went unlimited
    refine .once c' [] (proceeds'.trans left) ?_ rides
    rw [partings, partings', departures]
  · -- The padded simulation enters a delta cycle first, in which its marks come to nothing.
    have follows : Follows c m.purge 0 := by
      rcases level.paced with follows | ⟨-, exhausted⟩
      · exact follows.of_pace paced
      · exact absurd (exhausted.trans quiet) none
    have busy : (!(m.padded c marks').kernel.pending.isEmpty || false) = true := by
      have nonempty : (!marks'.isEmpty || false) = true := by simpa using none
      exact nonempty
    obtain ⟨proceeds', partings'⟩ := proceed_of_busy exchanged' busy cap
    obtain ⟨c₁, entered, follows₁⟩ := follows.falter marks'
    obtain ⟨c', left, departures, rides⟩ := rest.leaves follows₁ went unlimited
    have same' : m.purge.kernel.effective marks' =
        m.purge.kernel.effective m.purge.kernel.pending := by
      rw [effective_purge, pending_purge, same]
    obtain ⟨committed, commits⟩ := commitPending_padded c₁ same'
    rw [rest.commitPending_eq] at committed
    refine .twice c' _ _ ?_ partings' committed ?_ (rest.padded c₁) left ?_ rides
    · rw [proceeds', purge_padded, entered]
      rfl
    · rw [commits, Simulation.commits, rest.pending]
      rfl
    · rw [departures, partings]

end Exchanged

theorem Level.proceed (level : Level known c marks s) (ready : s.ready.pop? = none)
    (running : s.kernel.stopRequest = none) (went : s.proceed cap = (s', verdict))
    (unlimited : ∀ result, verdict = .ended result → Unlimited result)
    (effective : ∀ marks', (s.padded c marks).exchange.1 = s.exchange.1.padded c marks' →
      s.exchange.1.kernel.effective marks' =
        s.exchange.1.kernel.effective s.exchange.1.kernel.pending) :
    Parts c marks s cap s' verdict := by
  obtain ⟨marks', exchanged', level'⟩ := level.exchange
  replace effective := effective marks' (congrArg Prod.fst exchanged')
  cases exchanged : s.exchange with
  | mk t result =>
      rw [exchanged] at exchanged' level' effective
      obtain e | sent := result
      · rw [proceed_eq, exchanged] at went
        cases went
        refine .once c marks' ?_ ?_ fun goes => absurd goes not_continues_of_failed
        · rw [proceed_eq, exchanged']
          rfl
        · rw [partings, partings, settled?, settled?, exchanged, exchanged']
          rfl
      · by_cases busy : (!t.kernel.pending.isEmpty || sent) = true
        · exact level'.parts_of_busy effective exchanged exchanged' busy went unlimited
        · have quiet := busy
          simp only [Bool.not_eq_true, Bool.or_eq_false_iff, Bool.not_eq_false',
            List.isEmpty_iff] at quiet
          obtain ⟨quiet, rfl⟩ := quiet
          exact level'.parts_of_quiet effective exchanged exchanged' quiet ready running went
            unlimited

/-- A cycle of a padded simulation. It is the same, or it is two, and nothing happens in the second
one but the end of the tick. -/
inductive Laps (B B' : Behaviours σ ω) (fuel : Nat) (c : Counters) (marks : List SignalId)
    (s : Simulation σ ω) (cap : Option Nat) (s' : Simulation σ ω) (verdict : Verdict) : Prop where
  | once (c' : Counters) (marks' : List SignalId)
      (turned : (s.padded c marks).cycle B' fuel cap = .ok (s'.padded c' marks', verdict))
      (commits : (s.padded c marks).cycleCommits B' fuel cap = s.cycleCommits B fuel cap)
      (rides : Continues verdict → Rides c' marks' s')
  | twice (c' : Counters) (q : Simulation σ ω) (departures : List Change)
      (turned : (s.padded c marks).cycle B' fuel cap = .ok (q, .again))
      (left : ∀ fuel, q.cycle B' fuel cap = .ok (s'.padded c' [], verdict))
      (departs : ∀ fuel, q.cycleCommits B' fuel cap = departures)
      (commits : (s.padded c marks).cycleCommits B' fuel cap ++ departures =
        s.cycleCommits B fuel cap)
      (rides : Continues verdict → Rides c' [] s')

/-- A cycle in which nothing is left to do after the commit phase only leaves the tick. -/
theorem cycle_of_rest (committed : s.commitPending = (m, .ok ())) (rest : m.AtRest) (fuel : Nat)
    (cap : Option Nat) :
    s.cycle B fuel cap = .ok (m.leaveTick cap) ∧
      s.cycleCommits B fuel cap = s.commits ++ m.departures cap := by
  have ran : runReady B fuel m (.ok ()) = .ok (m, .ok ()) := rest.runReady_eq fuel (.ok ())
  obtain ⟨proceeds, partings⟩ := proceed_of_quiet rest.exchange_eq rest.pending cap
  rw [cycle_of_round committed ran rest.stopRequest, proceeds,
    cycleCommits_of_round committed ran rest.stopRequest, partings, purge_of_stale rest.stale]
  exact ⟨rfl, rfl⟩

theorem verdict_of_wrapUp {failure : Except SimError Unit} (ends : s.wrapUp failure = (s', verdict)) :
    ∃ result, verdict = .ended result ∧ result ≠ .ok .suspended := by
  unfold wrapUp at ends
  dsimp only at ends
  split at ends <;> cases ends <;> exact ⟨_, rfl, nofun⟩

theorem cycle_of_wrap {failure : Except SimError Unit} (committed : s.commitPending = (m, .ok ()))
    (ran : runReady B fuel m (.ok ()) = .ok (s', failure))
    (stops : failure = .ok () → s'.kernel.stopRequest ≠ none) (cap : Option Nat) :
    s.cycle B fuel cap = .ok (s'.wrapUp failure) := by
  refine ((cycle_of_rounded (rounded?_of_round committed ran)).2.2 cap).2 ?_
  cases failure with
  | error e => exact .inl nofun
  | ok _ => exact .inr (stops rfl)

section Rounds

variable {r : Simulation σ ω} {marks' : List SignalId} {failure : Except SimError Unit}
  (committed : s.commitPending = (m, .ok ())) (ran : runReady B fuel m (.ok ()) = .ok (r, failure))
  (committed' : (s.padded c marks).commitPending = (m.padded c [], .ok ()))
  (commits : (s.padded c marks).commits = s.commits)
  (ran' : runReady B' fuel (m.padded c []) (.ok ()) = .ok (r.padded c marks', failure))

include committed ran committed' commits ran'

/-- A cycle of a padded simulation that goes on after its round. -/
theorem Laps.of_parts (fine : failure = .ok ()) (running : r.kernel.stopRequest = none)
    (parts : Parts c marks' r cap s' verdict) : Laps B B' fuel c marks s cap s' verdict := by
  subst fine
  have running' : (r.padded c marks').kernel.stopRequest = none := running
  have turned' := cycle_of_round committed' ran' running' cap
  have commits' := cycleCommits_of_round committed' ran' running' cap
  have own := cycleCommits_of_round committed ran running cap
  rw [commits] at commits'
  rcases parts with ⟨c', marks'', goes, partings, rides⟩ |
    ⟨c', q, t, goes, partings, settled, quiet, rest, left, departures, rides⟩
  · refine .once c' marks'' ?_ ?_ rides
    · rw [turned', goes]
    · rw [commits', own, partings]
  · refine .twice c' q (t.departures cap) ?_ (fun fuel => ?_) (fun fuel => ?_) ?_ rides
    · rw [turned', goes]
    · rw [(cycle_of_rest settled rest fuel cap).1, left]
    · rw [(cycle_of_rest settled rest fuel cap).2, quiet, List.nil_append]
    · rw [commits', partings, List.append_nil, departures, own]

/-- A cycle of a padded simulation that ends the run after its round. -/
theorem Laps.of_wrapped (stops : failure = .ok () → r.kernel.stopRequest ≠ none)
    (ends : r.wrapUp failure = (s', verdict))
    (same : r.kernel.effective marks' = r.kernel.effective r.kernel.pending) :
    Laps B B' fuel c marks s cap s' verdict := by
  obtain ⟨result, rfl, final⟩ := verdict_of_wrapUp ends
  have ends' := wrapUp_padded c same failure
  rw [ends] at ends'
  refine .once c [] ?_ ?_ fun goes => absurd goes (not_continues_of_ended final)
  · rw [cycle_of_wrap committed' ran' stops cap, ends']
    rfl
  · rw [cycleCommits_of_wrapped committed ran stops, cycleCommits_of_wrapped committed' ran' stops,
      commits, (commitPending_padded c same).2]

end Rounds

/-- A padded simulation goes through a cycle, if its round is tacit. -/
theorem Rides.cycle (rides : Rides c marks s) (peeks : B.Peeks known B')
    (holds : s.kernel.Holds known) (turned : s.cycle B fuel cap = .ok (s', verdict))
    (unlimited : ∀ result, verdict = .ended result → Unlimited result) {enough : Nat}
    (silent : s.commitPending.1.tacit B B' enough = true) (le : fuel ≤ enough) :
    Laps B B' fuel c marks s cap s' verdict := by
  have size := congrArg (·.2.1) (frame_updateAll
    { s with kernel := { s.kernel with pending := [] } } (.ok ()) s.kernel.pending.reverse)
  have held : s.commitPending.1.kernel.Holds known := holds.of_size size
  cases way_of_cycle turned with
  | refused committed =>
      obtain ⟨committed', commits, -, -⟩ := rides.commitPending committed
      refine .once c [] ?_ ?_ fun goes => absurd goes not_continues_of_failed
      · simp only [Simulation.cycle, committed']
      · rw [cycleCommits_of_refused committed, cycleCommits_of_refused committed', commits]
  | @proceeded m r _ committed ran running went =>
      rw [committed] at silent held
      obtain ⟨committed', commits, unmarked, paced⟩ := rides.commitPending committed
      obtain ⟨marks', ran', level⟩ := level_of_round peeks held unmarked paced ran
      refine .of_parts committed ran committed' commits ran' rfl running ?_
      refine level.proceed (ready_of_runReady ran) running went unlimited fun marks'' exchanged => ?_
      have running' : (r.padded c marks').kernel.stopRequest = none := running
      have bid := bids?_of_round ran
      have bid' := bids?_of_round ran'
      rw [running] at bid
      rw [running', exchanged] at bid'
      exact effective_of_tacit peeks held unmarked silent le bid bid'
  | @wrapped m r failure _ committed ran stops ends =>
      rw [committed] at silent held
      obtain ⟨committed', commits, unmarked, paced⟩ := rides.commitPending committed
      obtain ⟨marks', ran', level⟩ := level_of_round peeks held unmarked paced ran
      refine .of_wrapped committed ran committed' commits ran' stops ends ?_
      have stopped : ¬(failure.isOk && r.kernel.stopRequest.isNone) = true := by
        cases failure with
        | error e => simp [Except.isOk, Except.toBool]
        | ok _ => simpa [Except.isOk, Except.toBool] using stops rfl
      have bid := bids?_of_round ran
      have bid' := bids?_of_round ran'
      have kept : (r.padded c marks').kernel.stopRequest = r.kernel.stopRequest := rfl
      rw [if_neg stopped] at bid
      rw [kept, if_neg stopped] at bid'
      exact effective_of_tacit peeks held unmarked silent le bid bid'

end Simulation

end DeltaCycle
