import DeltaCycle.Simulation.Run

/-!
# Granted steps

Granting a run more cycles and resumes changes nothing but that it may come to an end. So
a run is said to come to an end if some number of steps suffices, and how it ends does not
depend on that number.
-/

set_option autoImplicit false

namespace DeltaCycle

/-- The second attempt is like the first, unless the first ran out of steps. -/
def Outlasts {α : Type} (first second : Except Stuck α) : Prop :=
  first = .error .outOfFuel ∨ first = second

/-- Where one more step never changes an attempt that did not run out, any number of further
steps changes nothing. -/
theorem Outlasts.mono {α : Type} {attempt : Nat → Except Stuck α}
    (longer : ∀ fuel, Outlasts (attempt fuel) (attempt (fuel + 1))) {fuel more : Nat}
    {out : Except Stuck α} (ended : attempt fuel = out) (enough : out ≠ .error .outOfFuel)
    (le : fuel ≤ more) : attempt more = out := by
  induction le with
  | refl => exact ended
  | step _ ih =>
      rcases longer _ with exhausted | same
      · exact absurd (ih.symm.trans exhausted) enough
      · exact same.symm.trans ih

namespace Simulation

variable {σ ω : Type} {B : Behaviours σ ω}

theorem runReady_outlasts (fuel : Nat) (s : Simulation σ ω) (failure : Except SimError Unit) :
    Outlasts (runReady B fuel s failure) (runReady B (fuel + 1) s failure) := by
  induction fuel generalizing s failure with
  | zero =>
      by_cases idle : s.ready.isEmpty = true
      · right
        have none_ready : s.ready.pop? = none :=
          Fifo.pop?_eq_none_iff.mpr (Fifo.isEmpty_iff.mp idle)
        simp only [runReady, idle, none_ready, if_true]
      · left
        simp only [runReady, idle, if_false, Bool.false_eq_true]
  | succ fuel ih =>
      rw [runReady, runReady]
      cases s.ready.pop? with
      | none => exact .inr rfl
      | some next =>
          obtain ⟨arming, ready⟩ := next
          dsimp only
          cases runWaiter B { s with ready } arming with
          | none => exact .inr rfl
          | some resumed => exact ih resumed.1 (firstError failure resumed.2)

theorem cycle_outlasts (fuel : Nat) (s : Simulation σ ω) (cap : Option Nat) :
    Outlasts (cycle B fuel s cap) (cycle B (fuel + 1) s cap) := by
  unfold cycle
  rcases s.commitPending with ⟨s, _ | _⟩
  · exact .inr rfl
  · dsimp only
    rcases runReady_outlasts (B := B) fuel s (.ok ()) with exhausted | same
    · left
      simp only [exhausted]
    · rw [same]
      exact .inr rfl

theorem loop_outlasts (fuel : Nat) (s : Simulation σ ω) (cap : Option Nat) :
    Outlasts (loop B fuel s cap) (loop B (fuel + 1) s cap) := by
  induction fuel generalizing s with
  | zero => exact .inl rfl
  | succ fuel ih =>
      rw [loop, loop]
      rcases cycle_outlasts (B := B) (fuel + 1) s cap with exhausted | same
      · left
        simp only [exhausted]
      · rw [same]
        rcases cycle B (fuel + 1 + 1) s cap with stuck | ⟨s, _ | result⟩
        · exact .inr rfl
        · exact ih s
        · exact .inr rfl

/-- A loop that does not run out of steps goes the same way with more of them. -/
theorem loop_mono {fuel more : Nat} {s : Simulation σ ω} {cap : Option Nat}
    {out : Except Stuck (Simulation σ ω × Except SimError Outcome)}
    (ran : loop B fuel s cap = out) (enough : out ≠ .error .outOfFuel) (le : fuel ≤ more) :
    loop B more s cap = out :=
  Outlasts.mono (fun fuel => loop_outlasts fuel s cap) ran enough le

/-- How the loop goes once enough steps are granted. -/
def LoopsTo (B : Behaviours σ ω) (s : Simulation σ ω) (cap : Option Nat)
    (out : Except Stuck (Simulation σ ω × Except SimError Outcome)) : Prop :=
  out ≠ .error .outOfFuel ∧ ∃ fuel, loop B fuel s cap = out

/-- How a run goes once enough steps are granted: it returns, or one of its activities does
not go on. -/
def RunsTo (B : Behaviours σ ω) (s : Simulation σ ω) (duration : Option Nat)
    (out : Except Stuck (Simulation σ ω × Except SimError Outcome)) : Prop :=
  out ≠ .error .outOfFuel ∧ ∃ fuel, run B fuel s duration = out

theorem LoopsTo.unique {s : Simulation σ ω} {cap : Option Nat}
    {out out' : Except Stuck (Simulation σ ω × Except SimError Outcome)}
    (first : LoopsTo B s cap out) (second : LoopsTo B s cap out') : out = out' := by
  obtain ⟨enough, fuel, ran⟩ := first
  obtain ⟨enough', fuel', ran'⟩ := second
  have longer := loop_mono ran enough (Nat.le_max_left fuel fuel')
  have longer' := loop_mono ran' enough' (Nat.le_max_right fuel fuel')
  exact longer.symm.trans longer'

/-- After a cycle that goes on, the loop goes as it does from the simulation reached. -/
theorem loopsTo_of_again {fuel : Nat} {s s' : Simulation σ ω} {cap : Option Nat}
    (turned : cycle B (fuel + 1) s cap = .ok (s', .again))
    (out : Except Stuck (Simulation σ ω × Except SimError Outcome)) :
    LoopsTo B s cap out ↔ LoopsTo B s' cap out := by
  have turned' (more : Nat) : cycle B (max fuel more + 1) s cap = .ok (s', .again) :=
    Outlasts.mono (fun fuel => cycle_outlasts fuel s cap) turned nofun
      (Nat.succ_le_succ (Nat.le_max_left fuel more))
  constructor
  · rintro ⟨enough, more, ran⟩
    have longer := loop_mono ran enough (Nat.le_succ_of_le (Nat.le_max_right fuel more))
    rw [loop, turned'] at longer
    exact ⟨enough, max fuel more, longer⟩
  · rintro ⟨enough, more, ran⟩
    refine ⟨enough, max fuel more + 1, ?_⟩
    rw [loop, turned']
    exact loop_mono ran enough (Nat.le_max_right fuel more)

/-- A cycle that ends the loop gives its result. -/
theorem loopsTo_of_ended {fuel : Nat} {s s' : Simulation σ ω} {cap : Option Nat}
    {result : Except SimError Outcome}
    (turned : cycle B (fuel + 1) s cap = .ok (s', .ended result))
    (out : Except Stuck (Simulation σ ω × Except SimError Outcome)) :
    LoopsTo B s cap out ↔ out = .ok (s', result) := by
  have ended : LoopsTo B s cap (.ok (s', result)) := ⟨nofun, fuel + 1, by rw [loop, turned]⟩
  constructor
  · exact fun loops => loops.unique ended
  · rintro rfl
    exact ended

theorem run_outlasts (fuel : Nat) (s : Simulation σ ω) (duration : Option Nat) :
    Outlasts (run B fuel s duration) (run B (fuel + 1) s duration) := by
  unfold run
  split
  · exact .inr rfl
  · rcases s.startHook with ⟨s', _ | _⟩
    · exact .inr rfl
    · dsimp only
      rcases loop_outlasts (B := B) fuel s' (s'.capOf duration) with exhausted | same
      · left
        simp only [exhausted]
      · rw [same]
        exact .inr rfl

theorem RunsTo.unique {s : Simulation σ ω} {duration : Option Nat}
    {out out' : Except Stuck (Simulation σ ω × Except SimError Outcome)}
    (first : RunsTo B s duration out) (second : RunsTo B s duration out') : out = out' := by
  obtain ⟨enough, fuel, ran⟩ := first
  obtain ⟨enough', fuel', ran'⟩ := second
  have outlasts (fuel : Nat) := run_outlasts (B := B) fuel s duration
  have longer := Outlasts.mono outlasts ran enough (Nat.le_max_left fuel fuel')
  have longer' := Outlasts.mono outlasts ran' enough' (Nat.le_max_right fuel fuel')
  exact longer.symm.trans longer'

end Simulation

end DeltaCycle
