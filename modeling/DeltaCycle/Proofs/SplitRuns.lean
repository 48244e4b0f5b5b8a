import Mathlib
import DeltaCycle.Proofs.Header
import DeltaCycle.Proofs.Rest

/-!
# Runs in pieces

A run that is suspended at its cap and then continued goes the way of one longer run. The
suspended simulation is at rest, so the cycle with which the second run begins only decides
again, under the later cap, how to leave the tick. Where the cap of the first run is never
reached, the later cap decides nothing else.
-/

set_option autoImplicit false

namespace DeltaCycle

namespace Simulation

variable {σ ω : Type} {B : Behaviours σ ω}

/-! ## Leaving a tick under two caps -/

/-- A simulation that stops at a cap is at rest there, and a later cap then decides as it does
for the simulation before. -/
theorem leaveTick_of_suspended {s s₁ : Simulation σ ω} {cap₁ cap₂ : Nat} (rest : s.AtRest)
    (reached : s.kernel.now ≤ cap₁) (le : cap₁ ≤ cap₂)
    (left : s.leaveTick (some cap₁) = (s₁, .ended (.ok .suspended))) :
    s₁.AtRest ∧ s₁.kernel.now = cap₁ ∧
      s₁.leaveTick (some cap₂) = s.leaveTick (some cap₂) := by
  have way := way_of_leaveTick left
  generalize s.onward? (some cap₁) = onward at way
  cases way with
  | held here => exact ⟨rest, (Option.some.inj here).symm, rfl⟩
  | @stopped limit time elsewhere next present early =>
      cases present
      have before : s.kernel.now < cap₁ :=
        Nat.lt_of_le_of_ne reached fun here => elsewhere (congrArg some here.symm)
      have before' : some cap₂ ≠ some s.kernel.now := fun here =>
        absurd (Option.some.inj here) (Nat.ne_of_gt (Nat.lt_of_lt_of_le before le))
      refine ⟨⟨rest.pending, rest.ready, rest.stopRequest, rest.stale, rest.link⟩, rfl, ?_⟩
      unfold leaveTick
      simp only [if_neg before', next, Option.filter_some, decide_eq_true_eq]
      by_cases same : cap₂ = cap₁
      · subst same
        simp only [if_true, if_pos early]
      · have apart : some cap₂ ≠ some cap₁ := fun here => same (Option.some.inj here)
        simp only [if_neg apart]
        by_cases early' : cap₂ < time
        · simp only [if_pos early']
        · simp only [if_neg early']
          rw [advanceTo_of_lt (Nat.lt_trans before early) early]

/-- A tick that is not left for a later run is left in the same way under a later cap. -/
theorem way_of_leaveTick_mono {s s₁ : Simulation σ ω} {cap₁ cap₂ : Nat} {verdict : Verdict}
    (reached : s.kernel.now ≤ cap₁) (le : cap₁ ≤ cap₂)
    (left : s.leaveTick (some cap₁) = (s₁, verdict))
    (running : verdict ≠ .ended (.ok .suspended)) :
    s.LeaveWay (some cap₂) (s.onward? (some cap₁)) s₁ verdict := by
  have way := way_of_leaveTick left
  have past (elsewhere : some cap₁ ≠ some s.kernel.now) : some cap₂ ≠ some s.kernel.now := by
    intro here
    have before : s.kernel.now < cap₁ :=
      Nat.lt_of_le_of_ne reached fun here => elsewhere (congrArg some here.symm)
    exact absurd (Option.some.inj here) (Nat.ne_of_gt (Nat.lt_of_lt_of_le before le))
  have later {time : Nat} (inTime : ∀ limit ∈ some cap₁, time ≤ limit) :
      ∀ limit ∈ some cap₂, time ≤ limit := by
    intro limit present
    cases present
    exact Nat.le_trans (inTime cap₁ rfl) le
  generalize s.onward? (some cap₁) = onward at way
  cases way with
  | held here | stopped elsewhere next present before => exact absurd rfl running
  | exhausted elsewhere last => exact .exhausted (past elsewhere) last
  | failed elsewhere next inTime advanced => exact .failed (past elsewhere) next (later inTime) advanced
  | advanced elsewhere next inTime advanced =>
      exact .advanced (past elsewhere) next (later inTime) advanced

/-- A simulation that does not stop at a cap leaves the tick in the same way under every later
cap, and the clock does not pass the first cap. -/
theorem leaveTick_of_not_suspended {s s₁ : Simulation σ ω} {cap₁ cap₂ : Nat} {verdict : Verdict}
    (reached : s.kernel.now ≤ cap₁) (le : cap₁ ≤ cap₂)
    (left : s.leaveTick (some cap₁) = (s₁, verdict))
    (running : verdict ≠ .ended (.ok .suspended)) :
    s.leaveTick (some cap₂) = (s₁, verdict) ∧ (verdict = .again → s₁.kernel.now ≤ cap₁) := by
  refine ⟨leaveTick_of_way (way_of_leaveTick_mono reached le left running), ?_⟩
  rintro rfl
  have way := way_of_leaveTick left
  generalize s.onward? (some cap₁) = onward at way
  cases way with
  | advanced elsewhere next inTime advanced =>
      rw [now_of_advanceTo advanced]
      exact inTime cap₁ rfl

/-! ## Cycles -/

/-- A transition that does not look at the cap: it always gives the same, which is not a stop
at a cap, and goes on only within the tick. -/
structure IgnoresCap (s : Simulation σ ω)
    (transition : Option Nat → Except Stuck (Simulation σ ω × Verdict))
    (out : Except Stuck (Simulation σ ω × Verdict)) : Prop where
  gives : ∀ cap, transition cap = out
  running : ∀ s₁, out ≠ .ok (s₁, .ended (.ok .suspended))
  now : ∀ s₁, out = .ok (s₁, .again) → s₁.kernel.now = s.kernel.now

theorem IgnoresCap.of_failure {s : Simulation σ ω} (s' : Simulation σ ω)
    {transition : Option Nat → Except Stuck (Simulation σ ω × Verdict)} (e : SimError)
    (gives : ∀ cap, transition cap = .ok (s', .ended (.error e))) :
    s.IgnoresCap transition (.ok (s', .ended (.error e))) := by
  refine ⟨gives, fun s₁ stopped => ?_, fun s₁ again => ?_⟩
  · cases stopped
  · cases again

/-- The simulation after the round of a cycle and the first failure in it, if the commit phase
succeeds and the resumes come to an end. -/
def rounded? (B : Behaviours σ ω) (fuel : Nat) (s : Simulation σ ω) :
    Option (Simulation σ ω × Except SimError Unit) :=
  match s.commitPending with
  | (_, .error _) => none
  | (s, .ok _) => (runReady B fuel s (.ok ())).toOption

/-- The simulation in a cycle before it looks at the cap, if it gets there. -/
def rested? (B : Behaviours σ ω) (fuel : Nat) (s : Simulation σ ω) : Option (Simulation σ ω) :=
  match s.rounded? B fuel with
  | some (s, .ok _) => if s.kernel.stopRequest.isNone then s.settled? else none
  | _ => none

theorem rounded?_eq_some_iff {fuel : Nat} {s s₁ : Simulation σ ω} {failure : Except SimError Unit} :
    s.rounded? B fuel = some (s₁, failure) ↔
      ∃ m, s.commitPending = (m, .ok ()) ∧ runReady B fuel m (.ok ()) = .ok (s₁, failure) := by
  unfold rounded?
  constructor
  · intro rounded
    cases committed : s.commitPending with
    | mk m result =>
        rw [committed] at rounded
        cases result with
        | error e => cases rounded
        | ok _ =>
            dsimp only at rounded
            cases ran : runReady B fuel m (.ok ()) with
            | error stuck =>
                rw [ran] at rounded
                cases rounded
            | ok played =>
                rw [ran] at rounded
                cases rounded
                exact ⟨m, rfl, ran⟩
  · intro played
    obtain ⟨m, committed, ran⟩ := played
    rw [committed]
    dsimp only
    rw [ran]
    rfl

/-- A cycle whose commits succeed plays a round. -/
theorem rounded?_of_round {fuel : Nat} {s m s₁ : Simulation σ ω} {failure : Except SimError Unit}
    (committed : s.commitPending = (m, .ok ()))
    (ran : runReady B fuel m (.ok ()) = .ok (s₁, failure)) :
    s.rounded? B fuel = some (s₁, failure) :=
  rounded?_eq_some_iff.mpr ⟨m, committed, ran⟩

/-- After a round in which nobody failed or asked for the end, the cycle rests if it settles. -/
theorem rested?_of_round {fuel : Nat} {s m s₁ : Simulation σ ω}
    (committed : s.commitPending = (m, .ok ()))
    (ran : runReady B fuel m (.ok ()) = .ok (s₁, .ok ()))
    (running : s₁.kernel.stopRequest = none) : s.rested? B fuel = s₁.settled? := by
  rw [rested?, rounded?_of_round committed ran]
  dsimp only
  rw [running]
  rfl

theorem round_of_rested {fuel : Nat} {s q : Simulation σ ω} (rested : s.rested? B fuel = some q) :
    ∃ m s₁, s.commitPending = (m, .ok ()) ∧ runReady B fuel m (.ok ()) = .ok (s₁, .ok ()) ∧
      s₁.kernel.stopRequest = none ∧ s₁.settled? = some q := by
  unfold rested? at rested
  split at rested
  · next s₁ _ rounded =>
      obtain ⟨m, committed, ran⟩ := rounded?_eq_some_iff.mp rounded
      split at rested
      · next running =>
          exact ⟨m, s₁, committed, ran, Option.isNone_iff_eq_none.mp running, rested⟩
      · cases rested
  · cases rested

/-- A tick that has nothing more to do is at rest before the cap is looked at. -/
theorem proceed_of_settled {s q : Simulation σ ω} (ready : s.ready.pop? = none)
    (running : s.kernel.stopRequest = none) (settles : s.settled? = some q) :
    q.AtRest ∧ q.kernel.now = s.kernel.now ∧ ∀ cap, s.proceed cap = q.leaveTick cap := by
  have way := way_of_proceed s
  rw [settles] at way
  cases way with
  | settled exchanged pending proceeds =>
      have now := now_exchange s
      rw [exchanged] at now
      exact ⟨atRest_of_exchange ready running exchanged pending, (now_purge _).trans now, proceeds⟩

/-- The end of a cycle that does not settle ignores the cap. -/
theorem proceed_of_unsettled {s : Simulation σ ω} (unsettled : s.settled? = none) :
    ∃ out, s.IgnoresCap (fun cap => .ok (s.proceed cap)) out := by
  have way := way_of_proceed s
  rw [unsettled] at way
  cases way with
  | @failed m e exchanged proceeds =>
      exact ⟨_, .of_failure m e fun cap => congrArg Except.ok (proceeds cap)⟩
  | @entered m sent exchanged proceeds =>
      have now := now_exchange s
      rw [exchanged] at now
      have kernel := kernel_nextDelta m.purge
      refine ⟨.ok (goOn m.purge.nextDelta), fun cap => congrArg Except.ok (proceeds cap), ?_, ?_⟩
      · intro s₁ stopped
        generalize m.purge.nextDelta = next at stopped
        obtain ⟨s₂, _ | _⟩ := next <;> cases stopped
      · intro s₁ again
        generalize m.purge.nextDelta = next at again kernel
        obtain ⟨s₂, _ | _⟩ := next
        · cases again
        · cases again
          exact (congrArg Kernel.now kernel).trans ((now_purge m).trans now)

/-- A cycle in which nobody fails or asks for the end goes on. -/
theorem cycle_of_round {fuel : Nat} {s m s' : Simulation σ ω}
    (committed : s.commitPending = (m, .ok ()))
    (ran : runReady B fuel m (.ok ()) = .ok (s', .ok ())) (running : s'.kernel.stopRequest = none)
    (cap : Option Nat) : s.cycle B fuel cap = .ok (s'.proceed cap) := by
  simp only [cycle, committed, ran, running]

theorem cycle_of_rounded {fuel : Nat} {s s' : Simulation σ ω} {failure : Except SimError Unit}
    (rounded : s.rounded? B fuel = some (s', failure)) :
    s'.ready.pop? = none ∧ s'.kernel.now = s.kernel.now ∧ ∀ cap,
      (failure = .ok () → s'.kernel.stopRequest = none →
        cycle B fuel s cap = .ok (s'.proceed cap)) ∧
      (failure ≠ .ok () ∨ s'.kernel.stopRequest ≠ none →
        cycle B fuel s cap = .ok (s'.wrapUp failure)) := by
  obtain ⟨m, committed, ran⟩ := rounded?_eq_some_iff.mp rounded
  have begun := now_commitPending s
  rw [committed] at begun
  have now := now_of_surroundings (surroundings_runReady ran).choose_spec
  refine ⟨ready_of_runReady ran, now.trans begun, fun cap => ⟨fun fine running => ?_, fun stops => ?_⟩⟩
  · subst fine
    exact cycle_of_round committed ran running cap
  · simp only [cycle, committed, ran]
    cases failure with
    | error e => rfl
    | ok _ =>
        cases asked : s'.kernel.stopRequest with
        | some reason => rfl
        | none => simp [asked] at stops

theorem cycle_of_rested {fuel : Nat} {s q : Simulation σ ω} (rested : s.rested? B fuel = some q) :
    q.AtRest ∧ q.kernel.now = s.kernel.now ∧
      ∀ cap, cycle B fuel s cap = .ok (q.leaveTick cap) := by
  obtain ⟨m, s₁, committed, ran, running, settles⟩ := round_of_rested rested
  obtain ⟨ready, now, turn⟩ := cycle_of_rounded (rounded?_of_round committed ran)
  obtain ⟨rest, now', leaves⟩ := proceed_of_settled ready running settles
  refine ⟨rest, now'.trans now, fun cap => ?_⟩
  exact ((turn cap).1 rfl running).trans (congrArg Except.ok (leaves cap))

theorem cycle_of_unrested {fuel : Nat} {s : Simulation σ ω} (unrested : s.rested? B fuel = none) :
    ∃ out, s.IgnoresCap (cycle B fuel s) out := by
  cases rounded : s.rounded? B fuel with
  | none =>
      unfold rounded? at rounded
      cases updated : s.commitPending with
      | mk s' result =>
          rw [updated] at rounded
          cases result with
          | error e =>
              refine ⟨_, .of_failure s' e fun cap => ?_⟩
              rw [cycle, updated]
          | ok _ =>
              cases ran : runReady B fuel s' (.ok ()) with
              | error stuck =>
                  refine ⟨.error stuck, fun cap => ?_, fun s₁ stopped => ?_, fun s₁ again => ?_⟩
                  · simp only [cycle, updated, ran]
                  · cases stopped
                  · cases again
              | ok turned =>
                  dsimp only at rounded
                  rw [ran] at rounded
                  cases rounded
  | some turned =>
      obtain ⟨s', failure⟩ := turned
      obtain ⟨-, now, turn⟩ := cycle_of_rounded rounded
      by_cases stops : failure ≠ .ok () ∨ s'.kernel.stopRequest ≠ none
      · obtain ⟨result, ended, running⟩ := ended_of_wrapUp s' failure
        refine ⟨_, fun cap => (turn cap).2 stops, fun s₁ stopped => ?_, fun s₁ again => ?_⟩
        · rw [Except.ok.inj stopped] at ended
          exact running (Verdict.ended.inj ended).symm
        · rw [Except.ok.inj again] at ended
          cases ended
      · simp only [not_or, not_not] at stops
        obtain ⟨rfl, asked⟩ := stops
        simp only [rested?, rounded, asked, Option.isNone_none, if_true] at unrested
        obtain ⟨out, ignores⟩ := proceed_of_unsettled unrested
        exact ⟨out, fun cap => ((turn cap).1 rfl asked).trans (ignores.gives cap),
          ignores.running, fun s₁ again => (ignores.now s₁ again).trans now⟩

/-- A cycle ignores the cap or comes to rest before it looks at the cap. -/
theorem cycle_cases (B : Behaviours σ ω) (fuel : Nat) (s : Simulation σ ω) :
    (∃ out, s.IgnoresCap (cycle B fuel s) out) ∨
      ∃ q : Simulation σ ω, q.AtRest ∧ q.kernel.now = s.kernel.now ∧
        ∀ cap, cycle B fuel s cap = .ok (q.leaveTick cap) := by
  cases rested : s.rested? B fuel with
  | none => exact .inl (cycle_of_unrested rested)
  | some q => exact .inr ⟨q, cycle_of_rested rested⟩

/-! ## Loops under two caps -/

/-- A loop that stops at a cap leaves a simulation from which the loop under a later cap goes on
as it would have gone from the start. -/
theorem loop_of_suspended {fuel : Nat} {s s₁ : Simulation σ ω} {cap₁ cap₂ : Nat}
    (reached : s.kernel.now ≤ cap₁) (le : cap₁ ≤ cap₂)
    (ran : loop B fuel s (some cap₁) = .ok (s₁, .ok .suspended)) :
    s₁.kernel.now = cap₁ ∧
      ∀ out, LoopsTo B s₁ (some cap₂) out ↔ LoopsTo B s (some cap₂) out := by
  induction fuel generalizing s with
  | zero => cases ran
  | succ fuel ih =>
      rw [loop] at ran
      rcases cycle_cases B (fuel + 1) s with ⟨turn, ignores⟩ | ⟨q, rest, now, leaves⟩
      · rw [ignores.gives] at ran
        obtain stuck | ⟨s', _ | result⟩ := turn
        · cases ran
        · have now := ignores.now s' rfl
          obtain ⟨now₁, same⟩ := ih (Nat.le_trans (Nat.le_of_eq now) reached) ran
          exact ⟨now₁, fun out =>
            (same out).trans (loopsTo_of_again (ignores.gives (some cap₂)) out).symm⟩
        · cases ran
          exact absurd rfl (ignores.running s₁)
      · rw [leaves] at ran
        have reached' : q.kernel.now ≤ cap₁ := Nat.le_trans (Nat.le_of_eq now) reached
        cases left : q.leaveTick (some cap₁) with
        | mk s' verdict =>
            rw [left] at ran
            cases verdict with
            | again =>
                have going : Verdict.again ≠ .ended (.ok .suspended) := by
                  intro same
                  cases same
                obtain ⟨left', now'⟩ := leaveTick_of_not_suspended reached' le left going
                obtain ⟨now₁, same⟩ := ih (now' rfl) ran
                have turned := (leaves (some cap₂)).trans (congrArg Except.ok left')
                exact ⟨now₁, fun out => (same out).trans (loopsTo_of_again turned out).symm⟩
            | ended result =>
                cases ran
                obtain ⟨rest₁, now₁, same⟩ := leaveTick_of_suspended rest reached' le left
                refine ⟨now₁, fun out => ?_⟩
                have turned := leaves (some cap₂)
                have turned₁ := rest₁.cycle_eq (B := B) (fuel + 1) (some cap₂)
                rw [same] at turned₁
                generalize q.leaveTick (some cap₂) = left₂ at turned turned₁
                obtain ⟨s₂, _ | result⟩ := left₂
                · exact (loopsTo_of_again turned₁ out).trans (loopsTo_of_again turned out).symm
                · exact (loopsTo_of_ended turned₁ out).trans (loopsTo_of_ended turned out).symm

/-- A loop that does not stop at its cap goes the same way under a later cap. -/
theorem loop_of_not_suspended {fuel : Nat} {s : Simulation σ ω} {cap₁ cap₂ : Nat}
    {out : Except Stuck (Simulation σ ω × Except SimError Outcome)}
    (reached : s.kernel.now ≤ cap₁) (le : cap₁ ≤ cap₂)
    (ran : loop B fuel s (some cap₁) = out)
    (running : ∀ s₁, out ≠ .ok (s₁, .ok .suspended)) : loop B fuel s (some cap₂) = out := by
  induction fuel generalizing s with
  | zero => exact ran
  | succ fuel ih =>
      rw [loop] at ran ⊢
      rcases cycle_cases B (fuel + 1) s with ⟨turn, ignores⟩ | ⟨q, rest, now, leaves⟩
      · rw [ignores.gives] at ran ⊢
        obtain stuck | ⟨s', _ | result⟩ := turn
        · exact ran
        · have now := ignores.now s' rfl
          exact ih (Nat.le_trans (Nat.le_of_eq now) reached) ran
        · exact ran
      · rw [leaves] at ran ⊢
        have reached' : q.kernel.now ≤ cap₁ := Nat.le_trans (Nat.le_of_eq now) reached
        cases left : q.leaveTick (some cap₁) with
        | mk s' verdict =>
            rw [left] at ran
            have going : verdict ≠ .ended (.ok .suspended) := by
              rintro rfl
              exact running s' ran.symm
            obtain ⟨left', now'⟩ := leaveTick_of_not_suspended reached' le left going
            rw [left']
            cases verdict with
            | again => exact ih (now' rfl) ran
            | ended result => exact ran

/-! ## Runs -/

theorem startHook_eq {s s' : Simulation σ ω} {result : Except SimError Unit}
    (started : s.startHook = (s', result)) :
    s'.kernel = s.kernel ∧ s'.hookStarted = true := by
  unfold startHook at started
  split at started
  · next already =>
      cases started
      exact ⟨rfl, already⟩
  · cases hooked : s.hook with
    | none =>
        simp only [hooked] at started
        cases started
        exact ⟨rfl, rfl⟩
    | some hook =>
        simp only [hooked] at started
        cases started
        exact ⟨rfl, rfl⟩

theorem suspended_of_conclude {s t : Simulation σ ω} {result : Except SimError Outcome}
    (concluded : s.conclude result = (t, .ok .suspended)) :
    result = .ok .suspended ∧ t = { s with state := .suspended } := by
  obtain rfl := outcome_of_conclude concluded
  cases concluded
  exact ⟨rfl, rfl⟩

/-- How a run ends once enough steps are granted, if its loop begins here. -/
def Concludes (B : Behaviours σ ω) (s : Simulation σ ω) (cap : Option Nat)
    (out : Except Stuck (Simulation σ ω × Except SimError Outcome)) : Prop :=
  out ≠ .error .outOfFuel ∧
    ∃ fuel, (loop B fuel s cap).map (fun ended => ended.1.conclude ended.2) = out

theorem concludes_iff (s : Simulation σ ω) (cap : Option Nat)
    (out : Except Stuck (Simulation σ ω × Except SimError Outcome)) :
    Concludes B s cap out ↔
      ∃ looped, LoopsTo B s cap looped ∧
        looped.map (fun ended => ended.1.conclude ended.2) = out := by
  constructor
  · rintro ⟨enough, fuel, gives⟩
    refine ⟨_, ⟨fun exhausted => enough ?_, fuel, rfl⟩, gives⟩
    rw [← gives, exhausted]
    rfl
  · rintro ⟨looped, ⟨enough, fuel, gives⟩, rfl⟩
    refine ⟨fun exhausted => enough ?_, fuel, by rw [gives]⟩
    obtain stuck | ended := looped
    · exact congrArg Except.error (Except.error.inj exhausted)
    · cases exhausted

/-- How a run ends does not depend on the state that was recorded before. -/
theorem concludes_of_state (s : Simulation σ ω) (state : RunState) (cap : Option Nat)
    (out : Except Stuck (Simulation σ ω × Except SimError Outcome)) :
    Concludes B { s with state } cap out ↔ Concludes B s cap out := by
  have same (fuel : Nat) :
      (loop B fuel { s with state } cap).map (fun ended => ended.1.conclude ended.2) =
        (loop B fuel s cap).map (fun ended => ended.1.conclude ended.2) := by
    have taken := loop_withHeader s { s.header with state } B fuel cap
    rw [show ({ s with state } : Simulation σ ω) = s.withHeader { s.header with state } from rfl,
      taken]
    cases ran : loop B fuel s cap with
    | error stuck => rfl
    | ok ended =>
        obtain ⟨s₁, result⟩ := ended
        have kept : s₁.withHeader { s.header with state } = { s₁ with state } := by
          rw [← header_of_loop ran]
          rfl
        simp only [Except.map, headed_mk, kept]
        obtain e | _ | reason := result <;> rfl
  simp only [Concludes, same]

section Runs

variable {s s' : Simulation σ ω} (running : s.hasEnded = false)
  (started : s.startHook = (s', .ok ()))

include running started

theorem run_of_started (fuel : Nat) (duration : Option Nat) :
    run B fuel s duration =
      (loop B fuel s' (s'.capOf duration)).map fun ended => ended.1.conclude ended.2 := by
  simp only [run, running, started, Bool.false_eq_true, if_false]
  obtain stuck | ended := loop B fuel s' (s'.capOf duration) <;> rfl

/-- A run that can begin loops up to its cap. -/
theorem runsTo_iff_concludes (duration : Option Nat)
    (out : Except Stuck (Simulation σ ω × Except SimError Outcome)) :
    RunsTo B s duration out ↔ Concludes B s' (s'.capOf duration) out := by
  simp only [RunsTo, Concludes, run_of_started running started]

/-- A run that can begin and whose duration fits loops for the duration. -/
theorem runsTo_iff {d : Nat} (inRange : s.kernel.now + d ≤ lastTick)
    (out : Except Stuck (Simulation σ ω × Except SimError Outcome)) :
    RunsTo B s (some d) out ↔ Concludes B s' (some (s.kernel.now + d)) out := by
  have cap : s'.capOf (some d) = some (s.kernel.now + d) := by
    rw [← (startHook_eq started).1] at inRange ⊢
    exact congrArg some (Nat.min_eq_left inRange)
  rw [runsTo_iff_concludes running started, cap]

/-- A run that continues a suspended one begins where the first has brought the clock, and goes
the way of the longer run. -/
theorem runsTo_of_started {t : Simulation σ ω} {d₁ d₂ : Nat}
    (inRange : s.kernel.now + d₁ + d₂ ≤ lastTick)
    (first : RunsTo B s (some d₁) (.ok (t, .ok .suspended))) :
    t.kernel.now = s.kernel.now + d₁ ∧
      ∀ out, RunsTo B t (some d₂) out ↔ RunsTo B s (some (d₁ + d₂)) out := by
  obtain ⟨kernel, told⟩ := startHook_eq started
  have inRange₁ : s.kernel.now + d₁ ≤ lastTick := Nat.le_trans (Nat.le_add_right _ d₂) inRange
  have reached : s'.kernel.now ≤ s.kernel.now + d₁ := by
    rw [kernel]
    exact Nat.le_add_right _ d₁
  obtain ⟨looped, ⟨-, fuel, ran⟩, ended⟩ :=
    (concludes_iff s' _ _).mp ((runsTo_iff running started inRange₁ _).mp first)
  obtain stuck | ⟨s₁, result⟩ := looped
  · cases ended
  · obtain ⟨rfl, rfl⟩ := suspended_of_conclude (Except.ok.inj ended)
    obtain ⟨now₁, same⟩ := loop_of_suspended reached (Nat.le_add_right _ d₂) ran
    refine ⟨now₁, fun out => ?_⟩
    have told₁ : s₁.hookStarted = true :=
      (congrArg Header.hookStarted (header_of_loop ran)).trans told
    have started₁ : ({ s₁ with state := .suspended } : Simulation σ ω).startHook =
        ({ s₁ with state := .suspended }, .ok ()) := if_pos told₁
    have second := runsTo_iff (B := B) rfl started₁ (d := d₂)
      (by rw [now₁]; exact inRange) out
    have longer := runsTo_iff (B := B) running started (d := d₁ + d₂)
      (by rw [← Nat.add_assoc]; exact inRange) out
    rw [second, longer, concludes_of_state, concludes_iff, concludes_iff, now₁, ← Nat.add_assoc]
    simp only [same]

/-- A run that is not suspended goes the same way under every longer duration. -/
theorem runsTo_longer_of_started {d₁ d₂ : Nat} (inRange : s.kernel.now + d₁ + d₂ ≤ lastTick)
    {out : Except Stuck (Simulation σ ω × Except SimError Outcome)}
    (first : RunsTo B s (some d₁) out) (going : ∀ t, out ≠ .ok (t, .ok .suspended)) :
    RunsTo B s (some (d₁ + d₂)) out := by
  have inRange₁ : s.kernel.now + d₁ ≤ lastTick := Nat.le_trans (Nat.le_add_right _ d₂) inRange
  have reached : s'.kernel.now ≤ s.kernel.now + d₁ := by
    rw [(startHook_eq started).1]
    exact Nat.le_add_right _ d₁
  obtain ⟨looped, ⟨enough, fuel, ran⟩, ended⟩ :=
    (concludes_iff s' _ _).mp ((runsTo_iff running started inRange₁ _).mp first)
  have going' : ∀ t, looped ≠ .ok (t, .ok .suspended) := by
    rintro t rfl
    exact going { t with state := .suspended } ended.symm
  have longer := loop_of_not_suspended reached (Nat.le_add_right _ d₂) ran going'
  rw [Nat.add_assoc] at longer inRange
  exact (runsTo_iff running started inRange _).mpr
    ((concludes_iff s' _ _).mpr ⟨looped, ⟨enough, fuel, longer⟩, ended⟩)

/-- If a run comes to an end, so does a shorter one. -/
theorem runsTo_shorter_of_started {d₁ d₂ : Nat} (inRange : s.kernel.now + d₁ + d₂ ≤ lastTick)
    {out : Except Stuck (Simulation σ ω × Except SimError Outcome)}
    (whole : RunsTo B s (some (d₁ + d₂)) out) : ∃ out₁, RunsTo B s (some d₁) out₁ := by
  have inRange₁ : s.kernel.now + d₁ ≤ lastTick := Nat.le_trans (Nat.le_add_right _ d₂) inRange
  have reached : s'.kernel.now ≤ s.kernel.now + d₁ := by
    rw [(startHook_eq started).1]
    exact Nat.le_add_right _ d₁
  rw [Nat.add_assoc] at inRange
  obtain ⟨looped, ⟨enough, fuel, ran⟩, -⟩ :=
    (concludes_iff s' _ _).mp ((runsTo_iff running started inRange _).mp whole)
  rw [← Nat.add_assoc] at ran
  have ends : loop B fuel s' (some (s.kernel.now + d₁)) ≠ .error .outOfFuel := by
    intro exhausted
    refine enough (ran.symm.trans ?_)
    refine loop_of_not_suspended reached (Nat.le_add_right _ d₂) exhausted fun t same => ?_
    cases same
  exact ⟨_, (runsTo_iff running started inRange₁ _).mpr
    ((concludes_iff s' _ _).mpr ⟨_, ⟨ends, fuel, rfl⟩, rfl⟩)⟩

end Runs

/-- A run either ends before its loop, in a way that does not depend on the duration, or loops. -/
theorem started_or_refused (s : Simulation σ ω) :
    (s.hasEnded = false ∧ ∃ s', s.startHook = (s', .ok ())) ∨
      ∃ s' e, ∀ (B : Behaviours σ ω) fuel duration, run B fuel s duration = .ok (s', .error e) := by
  cases running : s.hasEnded with
  | true => exact .inr ⟨s, .terminated, fun B fuel duration => by simp only [run, running, if_true]⟩
  | false =>
      cases started : s.startHook with
      | mk s' result =>
          cases result with
          | ok _ => exact .inl ⟨rfl, s', rfl⟩
          | error e =>
              refine .inr ⟨s', e, fun B fuel duration => ?_⟩
              simp only [run, running, started, Bool.false_eq_true, if_false]

theorem runsTo_of_suspended {s t : Simulation σ ω} {d₁ d₂ : Nat}
    (inRange : s.kernel.now + d₁ + d₂ ≤ lastTick)
    (first : RunsTo B s (some d₁) (.ok (t, .ok .suspended))) :
    t.kernel.now = s.kernel.now + d₁ ∧
      ∀ out, RunsTo B t (some d₂) out ↔ RunsTo B s (some (d₁ + d₂)) out := by
  rcases started_or_refused s with ⟨running, s', started⟩ | ⟨s', e, refused⟩
  · exact runsTo_of_started running started inRange first
  · obtain ⟨-, fuel, ran⟩ := first
    rw [refused] at ran
    cases ran

theorem runsTo_longer {s : Simulation σ ω} {d₁ d₂ : Nat}
    (inRange : s.kernel.now + d₁ + d₂ ≤ lastTick)
    {out : Except Stuck (Simulation σ ω × Except SimError Outcome)}
    (first : RunsTo B s (some d₁) out) (going : ∀ t, out ≠ .ok (t, .ok .suspended)) :
    RunsTo B s (some (d₁ + d₂)) out := by
  rcases started_or_refused s with ⟨running, s', started⟩ | ⟨s', e, refused⟩
  · exact runsTo_longer_of_started running started inRange first going
  · simpa only [RunsTo, refused] using first

theorem runsTo_shorter {s : Simulation σ ω} {d₁ d₂ : Nat}
    (inRange : s.kernel.now + d₁ + d₂ ≤ lastTick)
    {out : Except Stuck (Simulation σ ω × Except SimError Outcome)}
    (whole : RunsTo B s (some (d₁ + d₂)) out) : ∃ out₁, RunsTo B s (some d₁) out₁ := by
  rcases started_or_refused s with ⟨running, s', started⟩ | ⟨s', e, refused⟩
  · exact runsTo_shorter_of_started running started inRange whole
  · refine ⟨out, ?_⟩
    simpa only [RunsTo, refused] using whole

/-- Runs of the given durations, one after the other, up to the first that is not suspended. -/
def RunsInPieces (B : Behaviours σ ω) (s : Simulation σ ω) (d : Nat) :
    List Nat → Except Stuck (Simulation σ ω × Except SimError Outcome) → Prop
  | [], out => RunsTo B s (some d) out
  | d' :: ds, out =>
      (RunsTo B s (some d) out ∧ ∀ t, out ≠ .ok (t, .ok .suspended)) ∨
        ∃ t, RunsTo B s (some d) (.ok (t, .ok .suspended)) ∧ RunsInPieces B t d' ds out

/-- Runs in pieces go the way of the single run over the sum of their durations. -/
theorem runsInPieces_iff {s : Simulation σ ω} {d : Nat} {ds : List Nat}
    (inRange : s.kernel.now + (d + ds.sum) ≤ lastTick)
    (out : Except Stuck (Simulation σ ω × Except SimError Outcome)) :
    RunsInPieces B s d ds out ↔ RunsTo B s (some (d + ds.sum)) out := by
  induction ds generalizing s d with
  | nil => exact Iff.rfl
  | cons d' ds ih =>
      rw [List.sum_cons] at inRange ⊢
      have inRange' : s.kernel.now + d + (d' + ds.sum) ≤ lastTick := by
        rw [Nat.add_assoc]
        exact inRange
      have afterwards {t : Simulation σ ω} (first : RunsTo B s (some d) (.ok (t, .ok .suspended))) :
          RunsInPieces B t d' ds out ↔ RunsTo B s (some (d + (d' + ds.sum))) out := by
        obtain ⟨now, same⟩ := runsTo_of_suspended inRange' first
        have inRange₁ : t.kernel.now + (d' + ds.sum) ≤ lastTick := by
          rw [now]
          exact inRange'
        exact (ih inRange₁).trans (same out)
      constructor
      · rintro (⟨first, going⟩ | ⟨t, first, rest⟩)
        · exact runsTo_longer inRange' first going
        · exact (afterwards first).mp rest
      · intro whole
        obtain ⟨out₁, first⟩ := runsTo_shorter inRange' whole
        by_cases suspends : ∃ t, out₁ = .ok (t, .ok .suspended)
        · obtain ⟨t, rfl⟩ := suspends
          exact .inr ⟨t, first, (afterwards first).mpr whole⟩
        · have going (t : Simulation σ ω) : out₁ ≠ .ok (t, .ok .suspended) :=
            fun same => suspends ⟨t, same⟩
          have same := whole.unique (runsTo_longer inRange' first going)
          subst same
          exact .inl ⟨first, going⟩

/-- Splitting a run changes nothing. A suspended run that is continued ends as one run over both
durations does, and in the same simulation. A run that is not suspended ends as every longer run
does. So runs over any partition of a duration end as the single run over it does. -/
theorem splitting_a_run_changes_nothing (B : Behaviours σ ω) (s : Simulation σ ω) (d₁ d₂ : Nat)
    (inRange : s.kernel.now + d₁ + d₂ ≤ lastTick) :
    (∀ t, RunsTo B s (some d₁) (.ok (t, .ok .suspended)) →
      ∀ out, RunsTo B t (some d₂) out ↔ RunsTo B s (some (d₁ + d₂)) out) ∧
    (∀ out, RunsTo B s (some d₁) out → (∀ t, out ≠ .ok (t, .ok .suspended)) →
      RunsTo B s (some (d₁ + d₂)) out) ∧
    (∀ d ds, d + ds.sum = d₁ + d₂ →
      ∀ out, RunsInPieces B s d ds out ↔ RunsTo B s (some (d₁ + d₂)) out) := by
  refine ⟨fun t first => (runsTo_of_suspended inRange first).2,
    fun out first going => runsTo_longer inRange first going, fun d ds partition out => ?_⟩
  rw [← partition]
  refine runsInPieces_iff ?_ out
  rw [partition, ← Nat.add_assoc]
  exact inRange

/-- A process that sleeps three ticks at a time. -/
def sleepy : Behaviours Unit Unit where
  name _ := "sleepy"
  resume _ := .done (.wait () (.delay 3))
  react _ := .done ()

/-- A simulation of one process that sleeps. -/
def bedroom : Simulation Unit Unit :=
  ({ kernel := {}, world := () } : Simulation Unit Unit).addWaiter "sleepy" (.process ()) none

/-- Whether a run is suspended at a tick. -/
def suspendsAt (now : Nat) :
    Except Stuck (Simulation Unit Unit × Except SimError Outcome) → Bool
  | .ok (t, .ok .suspended) => t.kernel.now == now
  | _ => false

/-- The cap of the first run falls between two wakes, and the second run passes a wake. -/
theorem splitting_a_run_between_wakes :
    ∃ t, RunsTo sleepy bedroom (some 4) (.ok (t, .ok .suspended)) ∧
      ∀ out, RunsTo sleepy t (some 3) out ↔ RunsTo sleepy bedroom (some 7) out := by
  have suspends : suspendsAt 4 (run sleepy 9 bedroom (some 4)) = true := by decide +kernel
  have inRange : bedroom.kernel.now + 4 + 3 ≤ lastTick := by decide
  have whole := splitting_a_run_changes_nothing sleepy bedroom 4 3 inRange
  rcases ran : run sleepy 9 bedroom (some 4) with stuck | ⟨t, e | outcome⟩
  · rw [ran] at suspends
    cases suspends
  · rw [ran] at suspends
    cases suspends
  · cases outcome with
    | finished reason =>
        rw [ran] at suspends
        cases suspends
    | suspended =>
        have first : RunsTo sleepy bedroom (some 4) (.ok (t, .ok .suspended)) := ⟨nofun, 9, ran⟩
        exact ⟨t, first, whole.1 t first⟩

end Simulation

end DeltaCycle
