import DeltaCycle.Proofs.Chronicle

/-!
# Retracing

Each signal is marked as traced or not. Neither the transitions of a signal nor anything that is done
on a kernel looks at the marks: under other marks, all of it gives the same and leaves the marks as
they are.
-/

set_option autoImplicit false

namespace DeltaCycle

variable {σ ω α : Type} {mark : Bool → Bool}

namespace Signal

/-- The signal with another mark. -/
def retraced (mark : Bool → Bool) (s : Signal) : Signal := { s with traced := mark s.traced }

/-- A transition does not look at the mark and leaves it as it is. -/
def Impartial (f : Signal → Signal × Commit) : Prop :=
  ∀ (mark : Bool → Bool) s, f (s.retraced mark) = ((f s).1.retraced mark, (f s).2)

theorem apply_retraced (s : Signal) (new : Value) :
    (s.retraced mark).apply new = ((s.apply new).1.retraced mark, (s.apply new).2) := by
  by_cases kept : s.val.same new = true
  · simp only [apply, retraced, kept, if_true]
  · by_cases rises : (!s.val.truthy && new.truthy) = true
    · simp only [apply, retraced, kept, rises, if_true, if_false, Bool.false_eq_true]
    · by_cases falls : (s.val.truthy && !new.truthy) = true
      all_goals
        simp only [apply, retraced, kept, rises, falls, if_true, if_false, Bool.false_eq_true]

theorem impartial_update : Impartial update := by
  intro mark s
  cases inertia : s.inertia with
  | none =>
      have inertia' : (s.retraced mark).inertia = none := inertia
      rw [update_of_prompt inertia, update_of_prompt inertia']
      exact s.apply_retraced s.next
  | some i =>
      have inertia' : (s.retraced mark).inertia = some i := inertia
      rw [update_of_inertial inertia, update_of_inertial inertia']
      rfl

theorem impartial_applyDeferred (value : Value) (stamp : Nat) :
    Impartial fun s => s.applyDeferred value stamp := by
  intro mark s
  dsimp only
  cases inertia : s.inertia with
  | none =>
      have inertia' : (s.retraced mark).inertia = none := inertia
      rw [applyDeferred_of_prompt inertia, applyDeferred_of_prompt inertia']
  | some i =>
      have inertia' : (s.retraced mark).inertia = some i := inertia
      rw [applyDeferred_of_inertial inertia, applyDeferred_of_inertial inertia']
      split
      · exact s.apply_retraced value
      · rfl

end Signal

namespace Kernel

/-- The kernel with other marks. -/
def retraced (mark : Bool → Bool) (k : Kernel) : Kernel :=
  { k with signals := k.signals.map (Signal.retraced mark) }

theorem retraced_id (k : Kernel) : k.retraced id = k := by
  have same : Signal.retraced id = id := rfl
  unfold retraced
  rw [same, Array.map_id]

variable (k : Kernel) (id : SignalId)

@[simp] theorem now_retraced : (k.retraced mark).now = k.now := rfl

@[simp] theorem signal?_retraced :
    (k.retraced mark).signal? id = (k.signal? id).map (Signal.retraced mark) :=
  Array.getElem?_map

@[simp] theorem val?_retraced : (k.retraced mark).val? id = k.val? id := by
  simp only [val?, signal?_retraced, Option.map_map]
  rfl

@[simp] theorem val_retraced : (k.retraced mark).val id = k.val id := by
  simp only [val, lookup, signal?_retraced]
  cases k.signal? id <;> rfl

@[simp] theorem name_retraced : (k.retraced mark).name id = k.name id := by
  simp only [name, signal?_retraced]
  cases k.signal? id <;> rfl

@[simp] theorem emit_retraced (d : Diagnostic) :
    (k.retraced mark).emit d = (k.emit d).retraced mark := rfl

theorem modify_retraced {f f' : Signal → Signal}
    (same : ∀ s, f' (s.retraced mark) = (f s).retraced mark) :
    (k.retraced mark).modify id f' = (k.modify id f).retraced mark := by
  simp only [retraced, modify, mk.injEq, and_true]
  refine Array.ext_getElem? fun index => ?_
  simp only [Array.getElem?_modify, Array.getElem?_map]
  split
  · simp only [Option.map_map, Function.comp_def, same]
  · rfl

theorem proposal_retraced (value : Value) (fromRule : Bool) :
    (k.retraced mark).proposal id value fromRule = k.proposal id value fromRule := by
  simp only [proposal, lookup, signal?_retraced]
  cases k.signal? id <;> rfl

theorem write_retraced (value : Value) (fromRule : Bool) :
    (k.retraced mark).write id value fromRule =
      ((k.write id value fromRule).1.retraced mark, (k.write id value fromRule).2) := by
  unfold write
  rw [proposal_retraced]
  cases k.proposal id value fromRule with
  | error e => rfl
  | ok next =>
      have same : (k.retraced mark).modify id (fun s => { s with next }) =
          (k.modify id fun s => { s with next }).retraced mark :=
        k.modify_retraced id fun _ => rfl
      dsimp only
      rw [same]
      rfl

theorem next?_retraced :
    (k.retraced mark).next? id =
      (k.next? id).map fun reply => (reply.1, reply.2.retraced mark) := by
  simp only [next?, signal?_retraced, Option.map_map]
  rfl

theorem changeNext_retraced (change : Value → Except ValueError Value) :
    (k.retraced mark).changeNext id change =
      ((k.changeNext id change).1.retraced mark, (k.changeNext id change).2) := by
  unfold changeNext
  rw [next?_retraced]
  cases k.next? id with
  | none => rfl
  | some reply =>
      obtain ⟨current, k'⟩ := reply
      dsimp only [Option.map_some]
      cases change current with
      | error cause =>
          dsimp only
          rw [name_retraced]
      | ok value => exact k'.write_retraced id value false

theorem partValues_retraced (parts : List ConcatPart) :
    (k.retraced mark).partValues parts = k.partValues parts := by
  induction parts with
  | nil => rfl
  | cons part rest ih =>
      have here : (k.retraced mark).partValue part = k.partValue part := by
        cases part with
        | signal id => exact k.val_retraced id
        | literal v => rfl
      simp only [partValues, here, ih]

end Kernel

/-! ## What is done on a kernel -/

theorem Request.perform_retraced (k : Kernel) (w : ω) (r : Request ω) :
    r.perform (k.retraced mark) w =
      (r.perform k w).map fun turn => (turn.1, turn.2.1.retraced mark, turn.2.2) := by
  cases r with
  | now | finish _ | world _ => rfl
  | value signal => simp only [perform, Kernel.val_retraced, Option.map_some]
  | name signal => simp only [perform, Kernel.name_retraced, Option.map_some]
  | next signal =>
      simp only [perform, Kernel.next?_retraced, Option.map_map]
      rfl
  | setNext signal value =>
      simp only [perform, Kernel.setNext, Kernel.write_retraced, Option.map_some]
  | setNextBit signal index bit =>
      simp only [perform, Kernel.setNextBit, Kernel.changeNext_retraced, Option.map_some]
  | setNextSlice signal hi lo content =>
      simp only [perform, Kernel.setNextSlice, Kernel.changeNext_retraced, Option.map_some]

theorem Activity.run_retraced (k : Kernel) (w : ω) (activity : Activity ω α) :
    activity.run (k.retraced mark) w =
      (activity.run k w).map fun turn => (turn.1, turn.2.1.retraced mark, turn.2.2) :=
  run_of_perform Request.perform_retraced k w activity

/-- An activity beside a world that it does not see does what it does alone. -/
theorem Activity.run_beside (τ : Type) (k : Kernel) (w : ω × τ) (activity : Activity ω α) :
    (activity.beside τ).run k w =
      (activity.run k w.1).map fun turn => (turn.1, turn.2.1, turn.2.2, w.2) := by
  induction activity generalizing k w with
  | done answer => rfl
  | fail e => rfl
  | undefined => rfl
  | later go ih => exact ih () k w
  | ask request go ih =>
      cases request with
      | world change => exact ih _ k (change w.1, w.2)
      | next signal =>
          simp only [beside, run, Request.perform]
          cases k.next? signal with
          | none => rfl
          | some reply => exact ih reply.1 reply.2 w
      | _ => exact ih _ _ w

namespace Shadow

theorem derive_retraced (k : Kernel) (parent : SignalId) (f : Value → Except ValueError Value) :
    derive (k.retraced mark) parent f = derive k parent f := by
  simp only [derive, Kernel.val_retraced]

theorem evaluate_retraced (k : Kernel) (s : Shadow) :
    s.evaluate (k.retraced mark) = ((s.evaluate k).1.retraced mark, (s.evaluate k).2) := by
  unfold evaluate
  cases s.rule with
  | slice parent hi lo => simp only [derive_retraced]
  | bit parent index => simp only [derive_retraced]
  | concat parts => simp only [join, Kernel.partValues_retraced]
  | tristate drivers =>
      have values : (k.retraced mark).val? = k.val? := funext k.val?_retraced
      have same : asserted (k.retraced mark) drivers = asserted k drivers := by
        rw [asserted, asserted, values]
      have policy : (k.retraced mark).contention = k.contention := rfl
      simp only [resolve, same, policy, Kernel.name_retraced, Kernel.now_retraced,
        Kernel.emit_retraced]
      rcases asserted k drivers with _ | ⟨v, _ | ⟨v', rest⟩⟩
      · rfl
      · rfl
      · cases k.contention <;> rfl

theorem resume_retraced (k : Kernel) (s : Shadow) :
    s.resume (σ := σ) (k.retraced mark) =
      ((s.resume (σ := σ) k).1.retraced mark, (s.resume (σ := σ) k).2) := by
  unfold resume
  cases clause? (σ := σ) s with
  | none => rfl
  | some clause =>
      rw [evaluate_retraced]
      rcases s.evaluate k with ⟨k', e | v⟩
      · rfl
      · simp only [Kernel.write_retraced]
        rcases k'.write s.target v true with ⟨k'', _ | _⟩ <;> rfl

end Shadow

end DeltaCycle
