import DeltaCycle.Proofs.Footprints

/-!
# Refused writes

A write of a whole value that is refused leaves the kernel as it was. A write of a bit or of a slice
reads the proposed value first, and that reading stays when the write is refused: a known signal is
left marked as pending, so that the next update phase visits it, and for an inertial signal hands
its value out once more.
-/

set_option autoImplicit false

namespace DeltaCycle

namespace Kernel

variable {k : Kernel} {id : SignalId}

/-- The kernel after a look at the proposed value of a signal, which marks a known one. -/
def afterLooking (k : Kernel) (id : SignalId) : Kernel :=
  if (k.signal? id).isSome then k.mark id else k

theorem afterLooking_of_unknown (unknown : k.signal? id = none) : k.afterLooking id = k := by
  simp [afterLooking, unknown]

theorem afterLooking_of_known {s : Signal} (known : k.signal? id = some s) :
    k.afterLooking id = k.mark id := by
  simp [afterLooking, known]

theorem write_of_refused {value : Value} {fromRule : Bool} {e : SimError}
    (refused : (k.write id value fromRule).2 = .error e) :
    k.write id value fromRule = (k, .error e) := by
  cases proposed : k.proposal id value fromRule with
  | error cause =>
      have outcome : k.write id value fromRule = (k, .error cause) := by
        simp only [write, proposed]
      rw [outcome] at refused ⊢
      cases refused
      rfl
  | ok next =>
      have outcome : (k.write id value fromRule).2 = .ok () := by
        simp only [write, proposed]
      rw [outcome] at refused
      cases refused

/-- A change of the proposed value that is refused, at whichever stage, leaves the look at it. -/
theorem changeNext_of_refused {change : Value → Except ValueError Value} {e : SimError}
    (refused : (k.changeNext id change).2 = .error e) :
    k.changeNext id change = (k.afterLooking id, .error e) := by
  cases found : k.signal? id with
  | none =>
      have outcome : k.changeNext id change = (k, .error (.unknownSignal id.index)) := by
        simp only [changeNext, next?, found, Option.map_none]
      rw [outcome] at refused ⊢
      cases refused
      rw [afterLooking_of_unknown found]
  | some s =>
      rw [afterLooking_of_known found]
      cases changed : change s.next with
      | error cause =>
          have outcome : k.changeNext id change =
              (k.mark id, .error (.onSignal ((k.mark id).name id) cause)) := by
            simp only [changeNext, next?, found, Option.map_some, changed]
          rw [outcome] at refused ⊢
          cases refused
          rfl
      | ok value =>
          have outcome : k.changeNext id change = (k.mark id).write id value false := by
            simp only [changeNext, next?, found, Option.map_some, changed, setNext]
          rw [outcome] at refused ⊢
          exact write_of_refused refused

/-- What a refused write leaves behind: nothing if it was a write of a whole value, and the mark of
the look at the proposed value if it was a write of a part. Every value stays in both cases. -/
theorem a_refused_write_leaves_at_most_a_mark (k : Kernel) (id : SignalId) (value : Value)
    (index : Nat) (bit : Bool) (hi lo : Nat) (content : Int) (e : SimError) :
    ((k.setNext id value).2 = .error e → (k.setNext id value).1 = k) ∧
      ((k.setNextBit id index bit).2 = .error e →
        (k.setNextBit id index bit).1 = k.afterLooking id) ∧
      ((k.setNextSlice id hi lo content).2 = .error e →
        (k.setNextSlice id hi lo content).1 = k.afterLooking id) := by
  refine ⟨fun refused => ?_, fun refused => ?_, fun refused => ?_⟩
  · exact congrArg Prod.fst (write_of_refused refused)
  · exact congrArg Prod.fst (changeNext_of_refused refused)
  · exact congrArg Prod.fst (changeNext_of_refused refused)

/-- A kernel with one signal, an integer that follows five ticks later. -/
def gauge : Kernel := (Kernel.declare {} "gauge" (.int 0) (some 5)).2

/-- The gauge refuses high impedance, and it refuses to be written by bits or slices. -/
theorem the_gauge_is_left_as_it_was_or_marked :
    (gauge.setNext ⟨0⟩ .highZ).1 = gauge ∧
      (gauge.setNextBit ⟨0⟩ 0 true).1 = gauge.mark ⟨0⟩ ∧
      (gauge.setNextSlice ⟨0⟩ 1 0 1).1 = gauge.mark ⟨0⟩ ∧
      (gauge.setNextBit ⟨7⟩ 0 true).1 = gauge := by
  have known : gauge.signal? ⟨0⟩ = some (.ofInit "gauge" (.int 0) (some 5)) := rfl
  have unknown : gauge.signal? ⟨7⟩ = none := rfl
  have left := a_refused_write_leaves_at_most_a_mark gauge ⟨0⟩ .highZ 0 true 1 0 1
  obtain ⟨whole, -, -⟩ := left (.typeMismatch "gauge" "int" "Z")
  obtain ⟨-, bit, -⟩ := left (.onSignal "gauge" (.unsupported "bit assignment on int"))
  obtain ⟨-, -, slice⟩ := left (.onSignal "gauge" (.unsupported "slice assignment on int"))
  obtain ⟨-, foreign, -⟩ :=
    a_refused_write_leaves_at_most_a_mark gauge ⟨7⟩ .highZ 0 true 1 0 1 (.unknownSignal 7)
  rw [afterLooking_of_known known] at bit slice
  rw [afterLooking_of_unknown unknown] at foreign
  exact ⟨whole rfl, bit rfl, slice rfl, foreign rfl⟩

/-- A refused write of a bit leaves its signal pending though no value was proposed for it. -/
theorem a_refused_bit_leaves_the_gauge_pending :
    (gauge.setNextBit ⟨0⟩ 0 true).2.isOk = false ∧
      (gauge.setNextBit ⟨0⟩ 0 true).1 ≠ gauge ∧
      gauge.pending = [] ∧ (gauge.setNextBit ⟨0⟩ 0 true).1.pending = [⟨0⟩] := by
  decide

end Kernel

end DeltaCycle
