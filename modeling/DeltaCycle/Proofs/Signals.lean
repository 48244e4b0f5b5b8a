import DeltaCycle.Proofs.Proceedings

/-!
# One signal in the course of a simulation

What a step of the desk does to a single signal, and how transitions of a signal come out.
-/

set_option autoImplicit false

namespace DeltaCycle

/-! ## Values that are the same -/

namespace Value

@[simp] theorem same_self (v : Value) : v.same v = true := by
  cases v <;> simp [same, Bits.same]

theorem same_symm {v w : Value} (same : v.same w = true) : w.same v = true := by
  cases v <;> cases w <;> simp_all [Value.same, Bits.same]

theorem same_trans {u v w : Value} (first : u.same v = true) (second : v.same w = true) :
    u.same w = true := by
  cases u <;> cases v <;> cases w <;> simp_all [Value.same, Bits.same]

end Value

/-! ## Transitions of a signal -/

/-- What an inertial signal remembers after its update phase found a value proposed. -/
def Inertia.propose (i : Inertia) (next : Value) : Inertia :=
  { i with stamp := if next.same i.lastNext then i.stamp else i.stamp + 1, lastNext := next }

namespace Signal

/-- A value is committed unless it is the same as the one that is committed already. -/
theorem apply_cases (s : Signal) (new : Value) :
    s.val.same new = true ∧ s.apply new = (s, .unchanged) ∨
      s.val.same new = false ∧ ∃ waits woken,
        s.apply new = ({ s with val := new, waits }, .changed s.val woken) := by
  unfold apply
  split
  · next same => exact .inl ⟨same, rfl⟩
  · next other =>
      refine .inr ⟨Bool.eq_false_iff.mpr other, ?_⟩
      split
      · exact ⟨_, _, rfl⟩
      · split <;> exact ⟨_, _, rfl⟩

/-- After a commit, the committed value is the same as the one that was to be committed. -/
theorem apply_spec (s : Signal) (new : Value) :
    ∃ val waits, (s.apply new).1 = { s with val, waits } ∧ val.same new = true ∧
      (val = s.val ∨ val = new) := by
  rcases s.apply_cases new with ⟨same, kept⟩ | ⟨-, waits, woken, changed⟩
  · exact ⟨s.val, s.waits, by rw [kept], same, .inl rfl⟩
  · exact ⟨new, waits, by rw [changed], new.same_self, .inr rfl⟩


theorem update_of_prompt {s : Signal} (prompt : s.inertia = none) : s.update = s.apply s.next := by
  simp only [update, prompt]

theorem update_of_inertial {s : Signal} {i : Inertia} (inertial : s.inertia = some i) :
    s.update =
      ({ s with inertia := some (i.propose s.next) },
        .deferred i.delay s.next (i.propose s.next).stamp) := by
  simp only [update, inertial]
  rfl

theorem applyDeferred_of_prompt {s : Signal} (prompt : s.inertia = none) (value : Value)
    (stamp : Nat) : s.applyDeferred value stamp = (s, .unchanged) := by
  simp only [applyDeferred, prompt]

theorem applyDeferred_of_inertial {s : Signal} {i : Inertia} (inertial : s.inertia = some i)
    (value : Value) (stamp : Nat) :
    s.applyDeferred value stamp = if i.stamp = stamp then s.apply value else (s, .unchanged) := by
  simp only [applyDeferred, inertial]

/-- What a step of the desk does to one signal. -/
inductive Turns (id : SignalId) (s : Signal) : Option Happening → Signal → Prop where
  /-- The step is not about the signal. -/
  | kept {happening : Option Happening} (other : ∀ h ∈ happening, h.signal? ≠ some id) :
      Turns id s happening s
  | rewired (waits : WaitLists) : Turns id s none { s with waits }
  | written (next : Value) : Turns id s (some (.written id next)) { s with next }
  | updated (time : Nat) : Turns id s (some (.updated time id s.next)) s.update.1
  | lost : Turns id s (some (.lost id)) s.update.1
  | arrived (value : Value) (stamp : Nat) :
      Turns id s (some (.arrived id value stamp)) (s.applyDeferred value stamp).1

end Signal

namespace Desk

theorem Step.turns {d d' : Desk} {happening : Option Happening} (step : Desk.Step d happening d')
    (id : SignalId) :
    Option.Rel (fun s s' => s.Turns id happening s') (d.kernel.signal? id) (d'.kernel.signal? id) := by
  have modified {k : Kernel} {id' : SignalId} {f : Signal → Signal} {happening : Option Happening}
      (other : ∀ h ∈ happening, h.signal? = some id') (turns : ∀ s, k.signal? id = some s →
        id' = id → s.Turns id happening (f s)) :
      Option.Rel (fun s s' => s.Turns id happening s') (k.signal? id)
        ((k.modify id' f).signal? id) := by
    rw [Kernel.signal?_modify]
    cases found : k.signal? id with
    | none => split <;> exact .none
    | some s =>
        split
        · next here => exact .some (turns s found here)
        · next elsewhere =>
            refine .some (.kept fun h happens about => elsewhere ?_)
            exact Option.some.inj ((other h happens).symm.trans about)
  have unmoved {k : Kernel} : Option.Rel (fun s s' => s.Turns id none s') (k.signal? id)
      (k.signal? id) := by
    cases k.signal? id with
    | none => exact .none
    | some s => exact .some (.kept nofun)
  cases step with
  | marked k q id' => exact unmoved
  | noted k q stopRequest diagnostics => exact unmoved
  | rewired k q id' f => exact modified nofun fun s _ _ => .rewired (f s.waits)
  | @written k q id' value next fromRule proposed given =>
      refine modified (by simp [Happening.signal?]) ?_
      rintro s - rfl
      exact .written next
  | collected k q =>
      change Option.Rel _ (k.signal? id) (k.signal? id)
      cases k.signal? id with
      | none => exact .none
      | some s => exact .some (.kept (by simp [Happening.signal?]))
  | @updated k q id' signal found =>
      refine modified (by simp [Happening.signal?]) ?_
      rintro s found' rfl
      cases found.symm.trans found'
      exact .updated k.now
  | lost k q id' =>
      refine modified (by simp [Happening.signal?]) ?_
      rintro s - rfl
      exact .lost
  | queued q a ahead => exact unmoved
  | taken k popped => exact unmoved
  | @arrived k q rest time id' value stamp popped =>
      refine modified (by simp [Happening.signal?]) ?_
      rintro s - rfl
      exact .arrived value stamp
  | ticked k undue => exact unmoved

end Desk

end DeltaCycle
