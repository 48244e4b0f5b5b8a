import DeltaCycle.Proofs.Inertia
import DeltaCycle.Proofs.Padding
import DeltaCycle.Proofs.Proceedings

/-!
# Marks that make a difference

A commit phase goes through the marked signals in order. It leaves a signal as it is that has no
inertia and keeps its value, and a second mark of a signal without inertia finds it committed. All
other marks are effective, and a commit phase is determined by them.
-/

set_option autoImplicit false

namespace DeltaCycle

variable {σ ω : Type}

namespace Kernel

/-- Whether a signal, if it exists, has no inertia. -/
def prompt (k : Kernel) (id : SignalId) : Bool := (k.signal? id).all (·.inertia.isNone)

/-- Whether a signal, if it exists, has no inertia and keeps its value in the commit phase. -/
def steady (k : Kernel) (id : SignalId) : Bool :=
  (k.signal? id).all fun signal => signal.inertia.isNone && signal.val.same signal.next

/-- The marks that make a difference to a commit phase, the last one first. -/
def effective (k : Kernel) : List SignalId → List SignalId
  | [] => []
  | id :: earlier =>
      if k.steady id || (k.prompt id && earlier.contains id) then k.effective earlier
      else id :: k.effective earlier

variable {k : Kernel} {id : SignalId}

theorem effective_of_steady (steady : k.steady id = true) (earlier : List SignalId) :
    k.effective (id :: earlier) = k.effective earlier := by
  rw [effective, steady, Bool.true_or, if_pos rfl]

theorem effective_of_marked (prompt : k.prompt id = true) {earlier : List SignalId}
    (marked : id ∈ earlier) : k.effective (id :: earlier) = k.effective earlier := by
  rw [effective, prompt, List.contains_iff_mem.mpr marked, Bool.and_self, Bool.or_true, if_pos rfl]

/-- What is effective depends on whether signals are steady and prompt. -/
theorem effective_congr {k' : Kernel} (steady : ∀ id, k'.steady id = k.steady id)
    (prompt : ∀ id, k'.prompt id = k.prompt id) (marks : List SignalId) :
    k'.effective marks = k.effective marks := by
  induction marks with
  | nil => rfl
  | cons id earlier ih => rw [effective, effective, steady, prompt, ih]

/-- Additional marks of signals without inertia that keep their values are not effective. -/
theorem effective_of_pads {known : SignalId → Prop} {marks marks' : List SignalId}
    (pads : Pads known marks marks') (steady : ∀ id, known id → k.steady id = true) :
    k.effective marks' = k.effective marks := by
  induction pads with
  | nil => rfl
  | add there _ ih => rw [effective_of_steady (steady _ there), ih]
  | @keep marks marks' id more ih =>
      by_cases idle : k.steady id = true
      · rw [effective_of_steady idle, effective_of_steady idle, ih]
      · have other : ¬known id := fun there => idle (steady id there)
        have same : marks'.contains id = marks.contains id := by
          rw [Bool.eq_iff_iff, List.contains_iff_mem, List.contains_iff_mem, more.mem_iff other]
        rw [effective, effective, same, ih]

theorem effective_padded (k : Kernel) (marks marks' : List SignalId) :
    (k.padded marks).effective marks' = k.effective marks' := by
  have steady : ∀ id, (k.padded marks).steady id = k.steady id := fun _ => rfl
  have prompt : ∀ id, (k.padded marks).prompt id = k.prompt id := fun _ => rfl
  exact effective_congr steady prompt marks'

theorem modify_of_kept {signal : Signal} (found : k.signal? id = some signal) :
    (k.modify id fun _ => signal) = k := by
  have same : k.signals.modify id.index (fun _ => signal) = k.signals := by
    refine Array.ext_getElem? fun i => ?_
    rw [Array.getElem?_modify]
    split
    · next here =>
        subst here
        change k.signals[id.index]? = some signal at found
        rw [found]
        rfl
    · rfl
  simp only [modify, same]

end Kernel

namespace Signal

theorem update_of_steady {s : Signal} (prompt : s.inertia = none) (same : s.val.same s.next = true) :
    s.update = (s, .unchanged) := by
  rw [update_of_prompt prompt, apply, if_pos same]

theorem steady_update {s : Signal} (prompt : s.inertia = none) :
    s.update.1.inertia = none ∧ s.update.1.val.same s.update.1.next = true := by
  rw [update_of_prompt prompt]
  obtain ⟨val, waits, applied, same, -⟩ := s.apply_spec s.next
  rw [applied]
  exact ⟨prompt, same⟩

end Signal

namespace Simulation

variable {s : Simulation σ ω}

/-! ## Steps -/

theorem unchanged_of_steady {id : SignalId} (steady : s.kernel.steady id = true) :
    ∀ signal, s.kernel.signal? id = some signal → signal.update = (signal, .unchanged) := by
  intro signal found
  rw [Kernel.steady, found, Option.all_some, Bool.and_eq_true, Option.isNone_iff_eq_none] at steady
  exact Signal.update_of_steady steady.1 steady.2

theorem step_of_steady {id : SignalId} (steady : s.kernel.steady id = true) :
    s.step id Signal.update = (s, .ok ()) := by
  unfold step
  cases found : s.kernel.signal? id with
  | none => rfl
  | some signal =>
      have kept := unchanged_of_steady steady signal found
      simp only [kept, absorb, Kernel.modify_of_kept found]

theorem changeOf?_of_steady {id : SignalId} (steady : s.kernel.steady id = true) :
    s.changeOf? id Signal.update = none := by
  cases found : s.kernel.signal? id with
  | none => simp only [changeOf?, found]
  | some signal => exact changeOf?_of_unchanged found (unchanged_of_steady steady signal found)

theorem steady_step {id : SignalId} (steady : s.kernel.steady id = true) (id' : SignalId) :
    (s.step id' Signal.update).1.kernel.steady id = true := by
  by_cases here : id' = id
  · subst here
    rw [step_of_steady steady]
    exact steady
  · rw [Kernel.steady, kernel_step, Kernel.signal?_modify, if_neg here]
    exact steady

theorem prompt_step {id : SignalId} (prompt : s.kernel.prompt id = true) (id' : SignalId) :
    (s.step id' Signal.update).1.kernel.prompt id = true := by
  rw [Kernel.prompt, kernel_step, Kernel.signal?_modify]
  split
  · next here =>
      subst here
      rw [Kernel.prompt] at prompt
      cases found : s.kernel.signal? id' with
      | none => rfl
      | some signal =>
          rw [found, Option.all_some, Option.isNone_iff_eq_none] at prompt
          rw [Option.map_some, Option.all_some, (Signal.steady_update prompt).1]
          rfl
  · exact prompt

/-- Once it was updated, a signal without inertia keeps its value. -/
theorem steady_of_step {id : SignalId} (prompt : s.kernel.prompt id = true) :
    (s.step id Signal.update).1.kernel.steady id = true := by
  rw [Kernel.steady, kernel_step, Kernel.signal?_modify, if_pos rfl]
  rw [Kernel.prompt] at prompt
  cases found : s.kernel.signal? id with
  | none => rfl
  | some signal =>
      rw [found, Option.all_some, Option.isNone_iff_eq_none] at prompt
      obtain ⟨inertia, same⟩ := Signal.steady_update prompt
      rw [Option.map_some, Option.all_some, inertia, same]
      rfl

/-! ## Commit phases -/

theorem steady_updateAll {id : SignalId} {ids : List SignalId}
    (will : s.kernel.steady id = true ∨ s.kernel.prompt id = true ∧ id ∈ ids)
    (failure : Except SimError Unit) :
    (s.updateAll failure ids).1.kernel.steady id = true := by
  induction ids generalizing s failure with
  | nil =>
      rcases will with steady | ⟨-, listed⟩
      · exact steady
      · cases listed
  | cons first rest ih =>
      refine ih ?_ _
      rcases will with steady | ⟨prompt, listed⟩
      · exact .inl (steady_step steady first)
      · rcases List.mem_cons.mp listed with here | later
        · subst here
          exact .inl (steady_of_step prompt)
        · exact .inr ⟨prompt_step prompt first, later⟩

theorem updateAll_concat (s : Simulation σ ω) (failure : Except SimError Unit)
    (ids : List SignalId) (id : SignalId) :
    s.updateAll failure (ids ++ [id]) =
      (((s.updateAll failure ids).1.step id Signal.update).1,
        firstError (s.updateAll failure ids).2
          ((s.updateAll failure ids).1.step id Signal.update).2) := by
  induction ids generalizing s failure with
  | nil => rfl
  | cons first rest ih => exact ih _ _

theorem updates_concat (s : Simulation σ ω) (failure : Except SimError Unit)
    (ids : List SignalId) (id : SignalId) :
    s.updates (ids ++ [id]) =
      s.updates ids ++ ((s.updateAll failure ids).1.changeOf? id Signal.update).toList := by
  induction ids generalizing s failure with
  | nil => simp only [List.nil_append, updates, updateAll, List.append_nil]
  | cons first rest ih =>
      rw [List.cons_append, updates, updates, List.append_assoc,
        ih (s.step first Signal.update).1 (firstError failure (s.step first Signal.update).2)]
      rfl

/-- A commit phase is determined by the marks that make a difference. -/
theorem updateAll_effective (s : Simulation σ ω) (failure : Except SimError Unit)
    (marks : List SignalId) :
    s.updateAll failure (s.kernel.effective marks).reverse = s.updateAll failure marks.reverse ∧
      s.updates (s.kernel.effective marks).reverse = s.updates marks.reverse := by
  induction marks with
  | nil => exact ⟨rfl, rfl⟩
  | cons id earlier ih =>
      rw [List.reverse_cons, updateAll_concat, updates_concat s failure, ← ih.1, ← ih.2]
      by_cases idle : s.kernel.steady id = true ∨ s.kernel.prompt id = true ∧ id ∈ earlier.reverse
      · have steady := steady_updateAll idle failure
        rw [ih.1, step_of_steady steady, changeOf?_of_steady steady]
        have dropped : s.kernel.effective (id :: earlier) = s.kernel.effective earlier := by
          rcases idle with steady | ⟨prompt, marked⟩
          · exact Kernel.effective_of_steady steady earlier
          · exact Kernel.effective_of_marked prompt (List.mem_reverse.mp marked)
        rw [dropped, ← ih.1]
        refine ⟨?_, (List.append_nil _).symm⟩
        cases kept : (s.updateAll failure (s.kernel.effective earlier).reverse).2 <;>
          exact Prod.ext rfl kept
      · have effective : s.kernel.effective (id :: earlier) = id :: s.kernel.effective earlier := by
          rw [List.mem_reverse] at idle
          rw [Kernel.effective, if_neg]
          simpa only [Bool.or_eq_true, Bool.and_eq_true, List.contains_iff_mem] using idle
        rw [effective, List.reverse_cons, updateAll_concat, updates_concat s failure]
        exact ⟨rfl, rfl⟩

/-- Additional marks that make no difference leave a commit phase as it is. -/
theorem commitPending_padded {marks : List SignalId} (c : Counters)
    (same : s.kernel.effective marks = s.kernel.effective s.kernel.pending) :
    (s.padded c marks).commitPending = paddedWith c [] s.commitPending ∧
      (s.padded c marks).commits = s.commits := by
  let m : Simulation σ ω := { s with kernel := { s.kernel with pending := [] } }
  have unmarked : m.kernel.effective = s.kernel.effective := funext (s.kernel.effective_padded [])
  obtain ⟨own, owns⟩ := m.updateAll_effective (.ok ()) s.kernel.pending
  obtain ⟨more, mores⟩ := m.updateAll_effective (.ok ()) marks
  rw [unmarked] at own owns more mores
  rw [same] at more mores
  constructor
  · have committed : (s.padded c marks).commitPending =
        (m.padded c []).updateAll (.ok ()) marks.reverse := rfl
    rw [committed, updateAll_padded, ← more, own]
    rfl
  · have changes : (s.padded c marks).commits = (m.padded c []).updates marks.reverse := rfl
    rw [changes, updates_padded, ← mores, owns]
    rfl

end Simulation

end DeltaCycle
