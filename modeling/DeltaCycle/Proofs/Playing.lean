import DeltaCycle.Proofs.LastWrite
import DeltaCycle.Proofs.Networks
import DeltaCycle.Proofs.Scripts

/-!
# Playing a script

A script that is resumed makes the writes that are due, and waits for the next one. Where the kinds
of its signals take its values, every write is accepted, and each signal is left with the value of
the last step of its own.
-/

set_option autoImplicit false

namespace DeltaCycle

variable {ω : Type}

/-! ## Plain kernels -/

/-- A kernel in which every signal was declared by its initial value alone: none has a delay, and
none follows from others. -/
structure Kernel.Plain (k : Kernel) : Prop where
  made : k.Made
  prompt : ∀ id s, k.signal? id = some s → s.inertia = none
  free : ∀ id s, k.signal? id = some s → s.shadow = false

/-- In a plain kernel nothing follows from signals. -/
theorem Kernel.Plain.shadows {k : Kernel} (plain : k.Plain) : k.shadows = [] := by
  refine List.eq_nil_iff_forall_not_mem.mpr fun shadow listed => ?_
  obtain ⟨v, s, found, -, derived, -⟩ := (plain.made.sound.declared.wired shadow listed).target
  exact absurd (derived.symm.trans (plain.free _ s found)) nofun

/-- The signal of a step takes its value: it is known, its kind takes the value, and it floats at
the start if the step lets it float. -/
def Kernel.Admits (k : Kernel) (step : ScriptStep) : Prop :=
  ∃ s v, k.signal? step.signal = some s ∧ s.kind.coerce step.value = .ok v ∧
    (step.value.isHighZ = true → s.init.isHighZ = true)

/-! ## What steps leave behind -/

/-- The value of a signal after a step, and at the start if there was none. -/
def Signal.after (s : Signal) : Option ScriptStep → Value
  | none => s.init
  | some step =>
      match s.kind.coerce step.value with
      | .ok v => v
      | .error _ => s.init

/-- A signal after a step: nobody waits on it, and it is proposed what the step says. -/
structure Signal.Played (last : Option ScriptStep) (s s' : Signal) : Prop where
  design : s'.reset = s
  prompt : s'.inertia = none
  unwatched : s'.waits = {}
  next : s'.next = s.after last

theorem Signal.Played.declared {last : Option ScriptStep} {s s' : Signal}
    (played : s.Played last s') :
    s'.shadow = s.shadow ∧ s'.kind = s.kind ∧ s'.init = s.init := by
  rw [← played.design]
  exact ⟨rfl, rfl, rfl⟩

/-- Some steps were played on a kernel, and nobody asked for the end. -/
structure Kernel.Plays (k : Kernel) (done : List ScriptStep) (m : Kernel) : Prop where
  running : m.stopRequest = none
  signals : ∀ id, Option.Rel (Signal.Played (Script.lastOf? done id)) (k.signal? id) (m.signal? id)

namespace Kernel

variable {k m : Kernel} {done : List ScriptStep} {step : ScriptStep}

theorem Plays.signal (plays : k.Plays done m) {id : SignalId} {s : Signal}
    (found : k.signal? id = some s) :
    ∃ s', m.signal? id = some s' ∧ s.Played (Script.lastOf? done id) s' := by
  have related := plays.signals id
  rw [found] at related
  generalize m.signal? id = signal at related
  cases related with
  | some played => exact ⟨_, rfl, played⟩

theorem Plays.played (plays : k.Plays done m) {id : SignalId} {s' : Signal}
    (found : m.signal? id = some s') :
    ∃ s, k.signal? id = some s ∧ s.Played (Script.lastOf? done id) s' := by
  have related := plays.signals id
  rw [found] at related
  generalize k.signal? id = signal at related
  cases related with
  | some played => exact ⟨_, rfl, played⟩

/-- Before anything was written, nothing was played. -/
theorem Plain.plays (plain : k.Plain) : k.Plays [] k := by
  have atStart := plain.made.sound.atStart
  refine ⟨atStart.stopRequest, fun id => ?_⟩
  cases found : k.signal? id with
  | none => exact .none
  | some s =>
      have reset := atStart.signal found
      refine .some ⟨reset, plain.prompt id s found, ?_, ?_⟩
      · rw [← reset]
        rfl
      · rw [← reset]
        rfl

/-- A change of one signal that keeps what was played there, for the steps that count now. -/
theorem Plays.modify {later : List ScriptStep} {id : SignalId} {f : Signal → Signal}
    (plays : k.Plays done m)
    (here : ∀ s s', k.signal? id = some s → s.Played (Script.lastOf? done id) s' →
      s.Played (Script.lastOf? later id) (f s'))
    (elsewhere : ∀ id', id ≠ id' → Script.lastOf? later id' = Script.lastOf? done id') :
    k.Plays later (m.modify id f) := by
  refine ⟨plays.running, fun id' => ?_⟩
  have related := plays.signals id'
  rw [signal?_modify]
  split
  · next same =>
      subst same
      generalize found : k.signal? id = signal, m.signal? id = signal' at related ⊢
      cases related with
      | none => exact .none
      | some played => exact .some (here _ _ found played)
  · next other =>
      rw [elsewhere id' other]
      exact related

theorem Settled.write {id : SignalId} {value : Value} {fromRule : Bool} (settled : m.Settled) :
    (m.write id value fromRule).1.Settled := by
  unfold Kernel.write
  cases m.proposal id value fromRule with
  | error e => exact settled
  | ok next =>
      intro id' s found prompt
      by_cases same : id = id'
      · subst same
        exact .inl (.head _)
      · change ((m.modify id _).signal? id') = some s at found
        rw [signal?_modify, if_neg same] at found
        exact (settled id' s found prompt).imp_left (.tail _)

/-- A step that its signal takes is written. -/
theorem Plays.write (plain : k.Plain) (admits : k.Admits step) (plays : k.Plays done m) :
    ∃ m', m.setNext step.signal step.value = (m', .ok ()) ∧ m'.now = m.now ∧
      k.Plays (done ++ [step]) m' := by
  obtain ⟨s, v, found, coerced, floats⟩ := admits
  obtain ⟨s', found', played⟩ := plays.signal found
  obtain ⟨shadow, kind, init⟩ := played.declared
  have free : s'.shadow = false := shadow.trans (plain.free _ s found)
  have allowed : (step.value.isHighZ && !false && !s.init.isHighZ) = false := by
    cases high : step.value.isHighZ with
    | false => rfl
    | true =>
        rw [floats high]
        rfl
  have accepted : m.proposal step.signal step.value false = .ok v := by
    rw [proposal, lookup, found']
    dsimp only
    rw [free, init, allowed, kind, coerced]
    rfl
  refine ⟨_, write_of_ok accepted, rfl, ?_⟩
  have proposed :
      k.Plays (done ++ [step]) (m.modify step.signal fun s => { s with next := v }) := by
    refine plays.modify (fun s₁ s₁' found₁ played₁ => ?_) fun id other => ?_
    · cases found.symm.trans found₁
      rw [Script.lastOf?_concat, if_pos rfl]
      refine ⟨played₁.design, played₁.prompt, played₁.unwatched, ?_⟩
      rw [Signal.after, coerced]
    · rw [Script.lastOf?_concat, if_neg other]
  exact ⟨proposed.running, proposed.signals⟩

end Kernel

/-! ## One resume of a script -/

namespace Script

variable {k m : Kernel} {done steps rest : List ScriptStep} {name : String} {now : Nat}

/-- The next one of these steps is still to come at a tick, if there is any. -/
def Ahead (now : Nat) (steps : List ScriptStep) : Prop := ∀ step ∈ steps.head?, now < step.time

/-- What a script does with steps that are still to come. -/
def pause (name : String) (now : Nat) : List ScriptStep → Step Script
  | [] => .done
  | step :: rest => .wait ⟨name, step :: rest⟩ (.delay (step.time - now))

theorem play_of_ahead (ahead : Ahead now rest) :
    play (ω := ω) name now rest = .done (pause name now rest) := by
  cases rest with
  | nil => rfl
  | cons step rest => exact if_pos (ahead step rfl)

/-- A script that is resumed makes the writes that are due, in order, and waits for the next one. -/
theorem run_play (plain : k.Plain) (admits : ∀ step ∈ steps, k.Admits step) (plays : k.Plays done m)
    (settled : m.Settled) (w : ω) :
    ∃ due rest m', steps = due ++ rest ∧ (∀ step ∈ due, step.time ≤ now) ∧ Ahead now rest ∧
      (play name now steps).run m w = some (.ok (pause name now rest), m', w) ∧
      m'.now = m.now ∧ k.Plays (done ++ due) m' ∧ m'.Settled := by
  induction steps generalizing done m with
  | nil =>
      refine ⟨[], [], m, rfl, nofun, nofun, rfl, rfl, ?_, settled⟩
      rw [List.append_nil]
      exact plays
  | cons step steps ih =>
      by_cases early : now < step.time
      · have ahead : Ahead now (step :: steps) := fun other next => Option.some.inj next ▸ early
        refine ⟨[], step :: steps, m, rfl, nofun, ahead, ?_, rfl, ?_, settled⟩
        · rw [play_of_ahead ahead]
          rfl
        · rw [List.append_nil]
          exact plays
      · obtain ⟨m₁, writes, now₁, plays₁⟩ := plays.write plain (admits step (.head _))
        have written : (m.setNext step.signal step.value).1.Settled := settled.write
        rw [writes] at written
        obtain ⟨due, rest, m', split, before, ahead, ran, now', plays', settled'⟩ :=
          ih (fun other listed => admits other (.tail _ listed)) plays₁ written
        refine ⟨step :: due, rest, m', by rw [split]; rfl, ?_, ahead, ?_, now'.trans now₁, ?_,
          settled'⟩
        · exact List.forall_mem_cons.mpr ⟨Nat.le_of_not_lt early, before⟩
        · rw [play, if_neg early]
          change (((Activity.ofExcept (m.setNext step.signal step.value).2).bind
            fun _ => play name now steps).run (m.setNext step.signal step.value).1 w) = _
          rw [writes]
          exact ran
        · rw [List.append_cons]
          exact plays'

end Script

/-! ## Committing -/

/-- Where nobody waits on a signal, a commit wakes nobody. -/
theorem Signal.apply_of_unwatched {s : Signal} (unwatched : s.waits = {}) (new : Value) :
    s.apply new = (s, .unchanged) ∨ s.apply new = ({ s with val := new }, .changed s.val []) := by
  obtain ⟨name, val, next, init, kind, inertia, shadow, traced, driven, read, waits⟩ := s
  subst unwatched
  unfold apply
  split
  · exact .inl rfl
  · right
    split
    · rfl
    · split <;> rfl

theorem Signal.Played.update {last : Option ScriptStep} {s s' : Signal}
    (played : s.Played last s') :
    s.Played last s'.update.1 := by
  rw [update_of_prompt played.prompt]
  rcases apply_of_unwatched played.unwatched s'.next with kept | changed
  · rw [kept]
    exact played
  · rw [changed]
    exact ⟨played.design, played.prompt, played.unwatched, played.next⟩

end DeltaCycle
