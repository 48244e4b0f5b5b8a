import DeltaCycle.Proofs.ShadowsAtRest
import DeltaCycle.Proofs.SplitRuns

/-!
# Sessions

A session makes one call after the other on a simulation. The first call that fails or finishes
ends the simulation: every later call is refused and leaves it as it is. There is one exception.
Where the hook refuses the start, that call fails although nothing has begun, and the next one
begins the simulation.
-/

set_option autoImplicit false

namespace DeltaCycle

namespace Simulation

variable {σ ω : Type} {B : Behaviours σ ω}

/-- A call that runs a simulation. -/
inductive Call where
  /-- For a duration, or else for the default one. -/
  | run (duration : Option Nat)
  | runToCompletion
deriving Repr, DecidableEq

/-- Answers a call. -/
def answer (B : Behaviours σ ω) (fuel : Nat) (s : Simulation σ ω) :
    Call → Except Stuck (Simulation σ ω × Except SimError Outcome)
  | .run duration => s.run B fuel duration
  | .runToCompletion => s.runToCompletion B fuel

/-- Answers calls one after the other, and tells what each of them returned. -/
def answerAll (B : Behaviours σ ω) (fuel : Nat) :
    Simulation σ ω → List Call →
      Except Stuck (Simulation σ ω × List (Except SimError Outcome))
  | s, [] => .ok (s, [])
  | s, call :: calls =>
      match s.answer B fuel call with
      | .error stuck => .error stuck
      | .ok (s, result) =>
          match answerAll B fuel s calls with
          | .error stuck => .error stuck
          | .ok (s, results) => .ok (s, result :: results)

theorem answer_of_ended {s : Simulation σ ω} (ended : s.hasEnded = true) (fuel : Nat)
    (call : Call) :
    ∃ default, s.answer B fuel call =
      .ok ({ s with defaultDuration := default }, .error .terminated) := by
  cases call with
  | run duration => exact ⟨s.defaultDuration, if_pos ended⟩
  | runToCompletion => exact ⟨none, if_pos ended⟩

/-- An ended simulation refuses every call and stays as it is. -/
theorem answerAll_of_ended {s : Simulation σ ω} (ended : s.hasEnded = true) (fuel : Nat)
    (calls : List Call) :
    ∃ default, s.answerAll B fuel calls =
      .ok ({ s with defaultDuration := default }, calls.map fun _ => .error .terminated) := by
  induction calls generalizing s with
  | nil => exact ⟨s.defaultDuration, rfl⟩
  | cons call calls ih =>
      obtain ⟨default, refused⟩ := answer_of_ended (B := B) ended fuel call
      obtain ⟨default', others⟩ := ih (s := { s with defaultDuration := default }) ended
      refine ⟨default', ?_⟩
      simp only [answerAll, refused, others, List.map_cons]

/-- Where the hook takes the start, a run is suspended, and the hook is not told again, or it ends
the simulation. -/
theorem suspended_or_ended_of_run {fuel : Nat} {s s' : Simulation σ ω} {duration : Option Nat}
    {result : Except SimError Outcome} (told : s.startHook.2 = .ok ())
    (ran : run B fuel s duration = .ok (s', result)) :
    (result = .ok .suspended ∧ s'.startHook.2 = .ok ()) ∨ s'.hasEnded = true := by
  cases way_of_run ran with
  | terminated ended => exact .inr ended
  | untold running started =>
      rw [started] at told
      cases told
  | @played s₁ s₂ _ final _ running started looped concluded =>
      by_cases going : final = .ok .suspended
      · subst going
        cases concluded
        have kept : s₂.hookStarted = true :=
          (congrArg Header.hookStarted (header_of_loop looped)).trans (startHook_eq started).2
        exact .inl ⟨rfl, congrArg Prod.snd (if_pos kept)⟩
      · have ended := s₂.ended_conclude going
        rw [concluded] at ended
        exact .inr ended

theorem startHook_withoutDuration (s : Simulation σ ω) :
    ({ s with defaultDuration := none } : Simulation σ ω).startHook.2 = s.startHook.2 := by
  unfold startHook
  cases s.hookStarted with
  | true => rfl
  | false => cases s.hook <;> rfl

theorem suspended_or_ended_of_answer {fuel : Nat} {s s' : Simulation σ ω} {call : Call}
    {result : Except SimError Outcome} (told : s.startHook.2 = .ok ())
    (answered : s.answer B fuel call = .ok (s', result)) :
    (result = .ok .suspended ∧ s'.startHook.2 = .ok ()) ∨ s'.hasEnded = true := by
  cases call with
  | run duration => exact suspended_or_ended_of_run told answered
  | runToCompletion =>
      rw [← startHook_withoutDuration] at told
      exact suspended_or_ended_of_run told answered

/-- A session in which a call failed or finished has ended the simulation. -/
theorem ended_of_answerAll {fuel : Nat} {s s' : Simulation σ ω} {calls : List Call}
    {results : List (Except SimError Outcome)} (told : s.startHook.2 = .ok ())
    (answered : s.answerAll B fuel calls = .ok (s', results))
    (stopped : ∃ result ∈ results, result ≠ .ok .suspended) : s'.hasEnded = true := by
  induction calls generalizing s results with
  | nil =>
      cases answered
      obtain ⟨result, listed, -⟩ := stopped
      cases listed
  | cons call calls ih =>
      simp only [answerAll] at answered
      cases first : s.answer B fuel call with
      | error stuck => simp [first] at answered
      | ok turn =>
          obtain ⟨s₁, result⟩ := turn
          simp only [first] at answered
          rcases suspended_or_ended_of_answer told first with ⟨rfl, told₁⟩ | ended
          · cases others : s₁.answerAll B fuel calls with
            | error stuck => simp [others] at answered
            | ok rest =>
                obtain ⟨s₂, results₂⟩ := rest
                simp only [others] at answered
                cases answered
                obtain ⟨result, listed, stops⟩ := stopped
                rcases List.mem_cons.mp listed with rfl | later
                · exact absurd rfl stops
                · exact ih told₁ others ⟨result, later, stops⟩
          · obtain ⟨default, refused⟩ := answerAll_of_ended (B := B) ended fuel calls
            simp only [refused] at answered
            cases answered
            exact ended

theorem startHook_of_refused {s : Simulation σ ω} {e : SimError}
    (refused : s.startHook.2 = .error e) :
    ∃ world, s.startHook = ({ s with hookStarted := true, world }, .error e) := by
  unfold startHook at refused ⊢
  split at refused
  · cases refused
  · next untold =>
      rw [if_neg untold]
      cases hooked : s.hook with
      | none => simp [hooked] at refused
      | some hook =>
          simp only [hooked] at refused ⊢
          rw [refused]
          exact ⟨_, rfl⟩

/-- Where the hook refuses the start, a call gives its error and changes nothing else, but for what
the hook did to the world. The hook is not told again. -/
theorem answer_of_refused {s : Simulation σ ω} {e : SimError} (running : s.hasEnded = false)
    (refused : s.startHook.2 = .error e) (fuel : Nat) (call : Call) :
    ∃ world default,
      s.answer B fuel call =
        .ok ({ s with hookStarted := true, world, defaultDuration := default }, .error e) := by
  have refuses {s : Simulation σ ω} (running : s.hasEnded = false)
      (refused : s.startHook.2 = .error e) (duration : Option Nat) :
      ∃ world, run B fuel s duration = .ok ({ s with hookStarted := true, world }, .error e) := by
    obtain ⟨world, started⟩ := startHook_of_refused refused
    refine ⟨world, ?_⟩
    simp only [run, running, started, Bool.false_eq_true, if_false]
  cases call with
  | run duration =>
      obtain ⟨world, ran⟩ := refuses running refused duration
      exact ⟨world, s.defaultDuration, ran⟩
  | runToCompletion =>
      rw [← startHook_withoutDuration] at refused
      obtain ⟨world, ran⟩ := refuses (s := { s with defaultDuration := none }) running refused none
      exact ⟨world, none, ran⟩

/-- A simulation that ended stays so. If the hook takes the start, then after a call that failed or
finished every later one is refused, and nothing changes but the duration of runs that are given
none. If the hook refuses the start, the call that told it fails and leaves a simulation of which the
same is true. -/
theorem a_simulation_that_ended_stays_so (B : Behaviours σ ω) (s : Simulation σ ω) :
    (s.startHook.2 = .ok () → ∀ fuel calls s' results,
      s.answerAll B fuel calls = .ok (s', results) →
      (∃ result ∈ results, result ≠ .ok .suspended) →
      ∀ fuel' later, ∃ default, s'.answerAll B fuel' later =
        .ok ({ s' with defaultDuration := default }, later.map fun _ => .error .terminated)) ∧
    ∀ e, s.hasEnded = false → s.startHook.2 = .error e → ∀ fuel call, ∃ s',
      s.answer B fuel call = .ok (s', .error e) ∧ s'.hasEnded = false ∧
      s'.startHook.2 = .ok () ∧
      ∃ world default,
        s' = { s with hookStarted := true, world, defaultDuration := default } := by
  constructor
  · intro told fuel calls s' results answered stopped fuel' later
    exact answerAll_of_ended (ended_of_answerAll told answered stopped) fuel' later
  · intro e running refused fuel call
    obtain ⟨world, default, answered⟩ := answer_of_refused (B := B) running refused fuel call
    exact ⟨_, answered, running, rfl, world, default, rfl⟩

/-- A clerk whose work a hook watches that refuses the start. -/
def unwatched : Simulation Int Unit :=
  ((({ kernel := ledger, world := () } : Simulation Int Unit).addWaiter "clerk" (.process 1)
    none).setHook {
      start := fun _ w => (w, .error (.trace "begin refused"))
      change := fun _ w => (w, .ok ())
      finish := fun w => (w, .ok ()) })

/-- Whether a session has these results and leaves this value in the first signal. -/
def leaves (results : List (Except SimError Outcome)) (value : Value) :
    Except Stuck (Simulation Int Unit × List (Except SimError Outcome)) → Bool
  | .ok (s, results') => decide (results' = results) && s.kernel.val? ⟨0⟩ == some value
  | .error _ => false

/-- The clerks finish within a tick and cannot be called again. The clerk whose hook refuses the
start can be. -/
theorem the_clerks_go_home :
    (∃ s', counter.answerAll clerks 9 [.run (some 1)] = .ok (s', [.ok (.finished .noMoreEvents)]) ∧
      ∃ default, s'.answerAll clerks 0 [.runToCompletion, .run none] =
        .ok ({ s' with defaultDuration := default }, [.error .terminated, .error .terminated])) ∧
    ∃ s', unwatched.answer clerks 0 .runToCompletion = .ok (s', .error (.trace "begin refused")) ∧
      s'.hasEnded = false := by
  constructor
  · have finishes : leaves [.ok (.finished .noMoreEvents)] (.int 2)
        (counter.answerAll clerks 9 [.run (some 1)]) = true := by decide +kernel
    unfold leaves at finishes
    split at finishes
    · next s' results answered =>
        simp only [Bool.and_eq_true, decide_eq_true_eq] at finishes
        rw [finishes.1] at answered
        refine ⟨s', answered, ?_⟩
        exact (a_simulation_that_ended_stays_so clerks counter).1 rfl 9 _ s' _ answered
          ⟨_, List.mem_singleton_self _, nofun⟩ 0 [.runToCompletion, .run none]
    · cases finishes
  · obtain ⟨s', refused, running, -⟩ := (a_simulation_that_ended_stays_so clerks unwatched).2
      (.trace "begin refused") rfl rfl 0 .runToCompletion
    exact ⟨s', refused, running⟩

/-- The call that fails leaves a simulation that the next call runs to its end, and on the way a
signal changes. -/
theorem a_refused_start_does_not_end_the_simulation :
    leaves [.error (.trace "begin refused")] (.int 0)
      (unwatched.answerAll clerks 9 [.run (some 1)]) = true ∧
    leaves [.error (.trace "begin refused"), .ok (.finished .noMoreEvents)] (.int 1)
      (unwatched.answerAll clerks 9 [.run (some 1), .run (some 1)]) = true := by
  constructor <;> decide +kernel

end Simulation

end DeltaCycle
