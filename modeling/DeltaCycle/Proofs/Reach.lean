import DeltaCycle.Proofs.Declarations
import DeltaCycle.Proofs.Signals

/-!
# Reached simulations

What can be reached from a simulation of a made kernel by runs, whatever became of them, or by
single cycles of a run. Whatever every step of the desk keeps holds of all that is reached, and
the design of the signals is among it. So the kernel that is handed back at the end is made again.
-/

set_option autoImplicit false

namespace DeltaCycle

variable {σ ω : Type}

/-! ## The design stays -/

namespace Signal

theorem Turns.reset {id : SignalId} {s s' : Signal} {happening : Option Happening}
    (turns : s.Turns id happening s') : s'.reset = s.reset := by
  have applied (new : Value) : (s.apply new).1.reset = s.reset := by
    obtain ⟨val, waits, same, -⟩ := s.apply_spec new
    rw [same]
    rfl
  have updated : s.update.1.reset = s.reset := by
    cases inertia : s.inertia with
    | none =>
        rw [update_of_prompt inertia]
        exact applied s.next
    | some i =>
        rw [update_of_inertial inertia]
        simp only [Signal.reset, inertia]
        rfl
  cases turns with
  | kept other => rfl
  | rewired waits => rfl
  | written next => rfl
  | updated time => exact updated
  | lost => exact updated
  | arrived value stamp =>
      cases inertia : s.inertia with
      | none => rw [applyDeferred_of_prompt inertia]
      | some i =>
          rw [applyDeferred_of_inertial inertia]
          split
          · exact applied value
          · rfl

theorem Turns.design {id : SignalId} {s s' : Signal} {happening : Option Happening}
    (turns : s.Turns id happening s') : s'.design = s.design :=
  congrArg (fun s : Signal => { s with traced := true, driven := none, read := false }) turns.reset

end Signal

/-- The kernel as it was made, but for what was recorded. -/
def Kernel.blueprint (k : Kernel) : Kernel := { k.reset with diagnostics := {} }

namespace Desk

theorem Step.extends {d d' : Desk} {happening : Option Happening}
    (step : Desk.Step d happening d') :
    d.kernel.Extends d'.kernel ∧ d'.kernel.Extends d.kernel := by
  refine ⟨fun id s found => ?_, fun id s' found => ?_⟩
  · have turns := step.turns id
    rw [found] at turns
    generalize d'.kernel.signal? id = signal at turns ⊢
    cases turns with
    | some turn => exact ⟨_, rfl, turn.design⟩
  · have turns := step.turns id
    rw [found] at turns
    generalize d.kernel.signal? id = signal at turns ⊢
    cases turns with
    | some turn => exact ⟨_, rfl, turn.design.symm⟩

theorem Goes.extends {d d' : Desk} {log : List Happening} (goes : Goes d log d') :
    d.kernel.Extends d'.kernel := by
  induction goes with
  | rest d => exact .refl _
  | step first others ih => exact first.extends.1.trans ih

theorem Goes.extended {d d' : Desk} {log : List Happening} (goes : Goes d log d') :
    d'.kernel.Extends d.kernel := by
  induction goes with
  | rest d => exact .refl _
  | step first others ih => exact ih.trans first.extends.2

theorem Step.contention {d d' : Desk} {happening : Option Happening}
    (step : Desk.Step d happening d') : d'.kernel.contention = d.kernel.contention := by
  cases step <;> rfl

theorem Step.blueprint {d d' : Desk} {happening : Option Happening}
    (step : Desk.Step d happening d') : d'.kernel.blueprint = d.kernel.blueprint := by
  have signals : d'.kernel.signals.map Signal.reset = d.kernel.signals.map Signal.reset := by
    refine Array.ext_getElem? fun i => ?_
    have turns := step.turns ⟨i⟩
    rw [Array.getElem?_map, Array.getElem?_map]
    change (d'.kernel.signal? ⟨i⟩).map Signal.reset = (d.kernel.signal? ⟨i⟩).map Signal.reset
    generalize d.kernel.signal? ⟨i⟩ = signal, d'.kernel.signal? ⟨i⟩ = signal' at turns ⊢
    cases turns with
    | none => rfl
    | some turn => exact congrArg some turn.reset
  simp only [Kernel.blueprint, Kernel.reset, signals, step.shadows, step.contention]

end Desk

namespace Simulation

variable {B : Behaviours σ ω}

theorem kernel_of_office {s s' : Simulation σ ω} (same : s'.office = s.office) :
    s'.kernel = s.kernel :=
  congrArg (·.1.kernel) same

/-- On the way to the next round, the bridge writes what it sends and nothing else is written. -/
theorem GoesOn.does {s s' : Simulation σ ω} {cap : Option Nat} (goesOn : s.GoesOn cap s') :
    ∃ log, (∀ h ∈ log, h.IsArrival) ∧ Does s (logOfWrites s.received ++ log) s' := by
  obtain ⟨writes, log, arrivals, proceeds, received⟩ := s.does_proceed cap
  have exchanged (fine : ∀ e, (s.proceed cap).2 ≠ .ended (.error e)) :
      ∃ sent, s.exchange.2 = .ok sent := by
    rw [proceed_eq] at fine
    generalize s.exchange = result at fine ⊢
    obtain ⟨s₁, e | sent⟩ := result
    · exact absurd rfl (fine e)
    · exact ⟨sent, rfl⟩
  cases goesOn with
  | again went =>
      rw [went] at proceeds exchanged
      obtain ⟨sent, fine⟩ := exchanged nofun
      rw [received sent fine] at proceeds
      exact ⟨log, arrivals, proceeds⟩
  | later paused adjusted =>
      rw [paused] at proceeds exchanged
      obtain ⟨sent, fine⟩ := exchanged nofun
      rw [received sent fine] at proceeds
      exact ⟨log, arrivals, proceeds.quietly (.of_office (office_adjusts adjusted))⟩

/-- What runs and cycles reach, from simulations of made kernels. A run may have failed, and the
caller may have changed what callers may change between runs. -/
inductive Reached (B : Behaviours σ ω) : Simulation σ ω → Prop where
  | built {kernel : Kernel} {instances : List (Instance σ ω)} {world : ω} {s : Simulation σ ω}
      (made : kernel.Made) (built : build B kernel instances world = .ok s) : Reached B s
  | adjusted {s s' : Simulation σ ω} (reached : Reached B s) (adjusts : s.Adjusts s') :
      Reached B s'
  | cycled {s s' : Simulation σ ω} {fuel : Nat} {cap : Option Nat} {verdict : Verdict}
      (reached : Reached B s) (turned : s.cycle B fuel cap = .ok (s', verdict)) : Reached B s'
  | ran {s s' : Simulation σ ω} {fuel : Nat} {duration : Option Nat}
      {result : Except SimError Outcome} (reached : Reached B s)
      (ran : run B fuel s duration = .ok (s', result)) : Reached B s'

/-- Whatever is reached is reached by a course of steps from a made kernel. -/
theorem Reached.goes {s : Simulation σ ω} (reached : Reached B s) :
    s.Staffed ∧ ∃ kernel log, kernel.Made ∧ Desk.Goes ⟨kernel, {}⟩ log s.desk := by
  induction reached with
  | @built kernel instances world s made built =>
      refine ⟨staffed_build built, kernel, [], made, ?_⟩
      rw [desk_build built]
      exact .rest _
  | adjusted reached adjusts ih =>
      obtain ⟨staffed, kernel, log, made, goes⟩ := ih
      have does := Does.of_office (office_adjusts adjusts)
      exact ⟨does.staffed staffed, kernel, _, made, goes.trans does.goes⟩
  | cycled reached turned ih =>
      obtain ⟨staffed, kernel, log, made, goes⟩ := ih
      obtain ⟨more, does⟩ := does_cycle staffed turned
      exact ⟨does.staffed staffed, kernel, _, made, goes.trans does.goes⟩
  | ran reached ran ih =>
      obtain ⟨staffed, kernel, log, made, goes⟩ := ih
      obtain ⟨more, does⟩ := does_run staffed ran
      exact ⟨does.staffed staffed, kernel, _, made, goes.trans does.goes⟩

theorem Reached.staffed {s : Simulation σ ω} (reached : Reached B s) : s.Staffed := reached.goes.1

/-- What holds at the start and what every step keeps holds of all that is reached. -/
theorem Reached.keeps {s : Simulation σ ω} (reached : Reached B s) {P : Desk → Prop}
    (start : ∀ kernel : Kernel, kernel.Made → P ⟨kernel, {}⟩)
    (kept : ∀ {d happening d'}, Desk.Step d happening d' → P d → P d') : P s.desk := by
  obtain ⟨-, kernel, log, made, goes⟩ := reached.goes
  exact goes.keeps kept (start kernel made)

theorem Reached.wellDeclared {s : Simulation σ ω} (reached : Reached B s) :
    s.kernel.WellDeclared := by
  have declared := reached.keeps (P := fun d => d.kernel.WellDeclared)
    (fun kernel made => made.sound.declared) fun step declared =>
      declared.of_extends step.extends.1 step.extends.2 step.shadows
  exact declared

/-- What is handed back is the kernel at the start of time. -/
theorem kernel_of_quit {s : Simulation σ ω} {kernel : Kernel} {world : ω}
    (quits : s.quit = (.ok kernel, world)) : kernel = s.kernel.reset := by
  have closed : s.closeLink.1.kernel = s.kernel := kernel_of_office s.office_closeLink
  unfold Simulation.quit at quits
  generalize s.closeLink = result at quits closed
  obtain ⟨s', e | _⟩ := result
  · cases quits
  · cases quits
    rw [← closed]

/-- The kernel that is handed back is made. -/
theorem Reached.quit {s : Simulation σ ω} (reached : Reached B s) {kernel : Kernel} {world : ω}
    (quits : s.quit = (.ok kernel, world)) : kernel.Made := by
  obtain ⟨k, made, same⟩ : ∃ k : Kernel, k.Made ∧ s.kernel.blueprint = k.blueprint := by
    have blueprint := reached.keeps
      (P := fun d => ∃ k : Kernel, k.Made ∧ d.kernel.blueprint = k.blueprint)
      (fun kernel made => ⟨kernel, made, rfl⟩)
      fun step ⟨k, made, same⟩ => ⟨k, made, step.blueprint.trans same⟩
    exact blueprint
  have back := made.handedBack s.kernel.diagnostics
  have equal : ({ k.reset with diagnostics := s.kernel.diagnostics } : Kernel) = s.kernel.reset :=
    congrArg (fun k : Kernel => { k with diagnostics := s.kernel.diagnostics }) same.symm
  rwa [equal, ← kernel_of_quit quits] at back

end Simulation

end DeltaCycle
