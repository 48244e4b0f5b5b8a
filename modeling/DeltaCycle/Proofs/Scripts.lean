import DeltaCycle.Stimulus
import Mathlib.Data.List.Induction

/-!
# Scripts

A script keeps its steps in the order of their ticks, and steps of one tick in the order in which
they were added. So of the steps that a signal has up to a tick, the last one in the script is the
one that was added last among those of the latest tick.
-/

set_option autoImplicit false

namespace DeltaCycle

namespace Script

variable {name : String} {id : SignalId} {time : Nat} {step : ScriptStep}
variable {steps added : List ScriptStep}

/-- The script to which steps were added in this order. -/
def ofSteps (name : String) (added : List ScriptStep) : Script :=
  added.foldl (fun s step => s.write step.time step.signal step.value) { name }

theorem ofSteps_append (name : String) (added : List ScriptStep) (step : ScriptStep) :
    ofSteps name (added ++ [step]) =
      { ofSteps name added with steps := insert step (ofSteps name added).steps } := by
  rw [ofSteps, List.foldl_append]
  rfl

/-! ## The order of steps -/

/-- The steps are in the order of their ticks. -/
def Ordered (steps : List ScriptStep) : Prop :=
  steps.Pairwise fun step later => step.time ≤ later.time

/-- A step is put between those that are due no later and those that are. -/
theorem insert_split (ordered : Ordered steps) (step : ScriptStep) :
    ∃ front back, steps = front ++ back ∧ insert step steps = front ++ step :: back ∧
      (∀ other ∈ front, other.time ≤ step.time) ∧ ∀ other ∈ back, step.time < other.time := by
  induction steps with
  | nil => exact ⟨[], [], rfl, rfl, nofun, nofun⟩
  | cons other rest ih =>
      obtain ⟨after, ordered⟩ := List.pairwise_cons.mp ordered
      rw [insert]
      split
      · next before =>
          obtain ⟨front, back, rfl, inserted, early, late⟩ := ih ordered
          refine ⟨other :: front, back, rfl, by rw [inserted]; rfl, ?_, late⟩
          exact List.forall_mem_cons.mpr ⟨before, early⟩
      · next behind =>
          refine ⟨[], other :: rest, rfl, rfl, nofun, ?_⟩
          have late := Nat.lt_of_not_le behind
          exact List.forall_mem_cons.mpr
            ⟨late, fun another listed => Nat.lt_of_lt_of_le late (after another listed)⟩

theorem ordered_insert (ordered : Ordered steps) (step : ScriptStep) :
    Ordered (insert step steps) := by
  obtain ⟨front, back, rfl, inserted, early, late⟩ := insert_split ordered step
  obtain ⟨before, after, across⟩ := List.pairwise_append.mp ordered
  rw [inserted]
  refine List.pairwise_append.mpr ⟨before, List.pairwise_cons.mpr ⟨?_, after⟩, ?_⟩
  · exact fun other listed => Nat.le_of_lt (late other listed)
  · intro other listed
    exact List.forall_mem_cons.mpr ⟨early other listed, across other listed⟩

theorem perm_insert (ordered : Ordered steps) (step : ScriptStep) :
    (insert step steps).Perm (step :: steps) := by
  obtain ⟨front, back, rfl, inserted, -, -⟩ := insert_split ordered step
  rw [inserted]
  exact List.perm_middle

/-- A script holds the steps that were added, in the order of their ticks. -/
theorem steps_ofSteps (name : String) (added : List ScriptStep) :
    Ordered (ofSteps name added).steps ∧ (ofSteps name added).steps.Perm added := by
  induction added using List.reverseRecOn with
  | nil => exact ⟨.nil, .nil⟩
  | append_singleton added step ih =>
      obtain ⟨ordered, perm⟩ := ih
      rw [ofSteps_append]
      refine ⟨ordered_insert ordered step, (perm_insert ordered step).trans ?_⟩
      exact (perm.cons step).trans (List.perm_append_singleton step added).symm

/-! ## The step that counts -/

/-- The step is one of a signal, and due by a tick. -/
def Due (id : SignalId) (time : Nat) (step : ScriptStep) : Prop :=
  step.signal = id ∧ step.time ≤ time

instance (id : SignalId) (time : Nat) (step : ScriptStep) : Decidable (Due id time step) :=
  inferInstanceAs (Decidable (_ ∧ _))

/-- Of the steps that a signal has up to a tick, the step is the one that was added last among those
of the latest tick. -/
def Latest (added : List ScriptStep) (id : SignalId) (time : Nat) (step : ScriptStep) : Prop :=
  Due id time step ∧ ∃ before after, added = before ++ step :: after ∧
    (∀ other ∈ before, Due id time other → other.time ≤ step.time) ∧
      ∀ other ∈ after, Due id time other → other.time < step.time

/-- The last step of a signal in a list that is due by a tick. -/
def lastDue? (steps : List ScriptStep) (id : SignalId) (time : Nat) : Option ScriptStep :=
  (steps.filter fun step => Due id time step).getLast?

theorem lastDue?_append (front back : List ScriptStep) (id : SignalId) (time : Nat) :
    lastDue? (front ++ back) id time = (lastDue? back id time).or (lastDue? front id time) := by
  unfold lastDue?
  rw [List.filter_append, List.getLast?_append]

theorem lastDue?_singleton (id : SignalId) (time : Nat) (step : ScriptStep) :
    lastDue? [step] id time = if Due id time step then some step else none := by
  rw [lastDue?, List.filter_cons, List.filter_nil]
  by_cases due : Due id time step
  · rw [if_pos due, if_pos (decide_eq_true due)]
    rfl
  · rw [if_neg due, if_neg (by simpa using due)]
    rfl

theorem mem_of_lastDue? (last : lastDue? steps id time = some step) :
    step ∈ steps ∧ Due id time step := by
  have listed := List.mem_filter.mp (List.mem_of_getLast? last)
  exact ⟨listed.1, of_decide_eq_true listed.2⟩

/-- A step that is put into a script counts from then on, unless one counts that is due later. -/
theorem lastDue?_insert (ordered : Ordered steps) (due : Due id time step) :
    (lastDue? (insert step steps) id time = some step ∧
        ∀ other ∈ lastDue? steps id time, other.time ≤ step.time) ∨
      lastDue? (insert step steps) id time = lastDue? steps id time ∧
        ∃ other ∈ lastDue? steps id time, step.time < other.time := by
  obtain ⟨front, back, rfl, inserted, early, late⟩ := insert_split ordered step
  rw [inserted, List.append_cons, lastDue?_append, lastDue?_append, lastDue?_append,
    lastDue?_singleton, if_pos due]
  cases behind : lastDue? back id time with
  | none =>
      refine .inl ⟨rfl, fun other last => ?_⟩
      exact early other (mem_of_lastDue? last).1
  | some other => exact .inr ⟨rfl, other, rfl, late other (mem_of_lastDue? behind).1⟩

theorem lastDue?_insert_of_not_due (ordered : Ordered steps) (undue : ¬Due id time step) :
    lastDue? (insert step steps) id time = lastDue? steps id time := by
  obtain ⟨front, back, rfl, inserted, -, -⟩ := insert_split ordered step
  rw [inserted, List.append_cons, lastDue?_append, lastDue?_append, lastDue?_append,
    lastDue?_singleton, if_neg undue, Option.none_or]

/-- A step that was added counts if it is due no earlier than the one that counted before. -/
theorem latest_append (due : Due id time step)
    (later : ∀ other ∈ added, Due id time other → other.time ≤ step.time) :
    Latest (added ++ [step]) id time step :=
  ⟨due, added, [], rfl, later, nofun⟩

/-- The step that counts still does after one was added that is not due, or due earlier. -/
theorem Latest.append {other : ScriptStep} (latest : Latest added id time step)
    (earlier : Due id time other → other.time < step.time) :
    Latest (added ++ [other]) id time step := by
  obtain ⟨due, before, after, rfl, least, most⟩ := latest
  refine ⟨due, before, after ++ [other], by rw [List.append_assoc]; rfl, least, ?_⟩
  intro another listed
  rcases List.mem_append.mp listed with listed | sole
  · exact most another listed
  · rw [List.mem_singleton.mp sole]
    exact earlier

theorem Latest.le {other : ScriptStep} (latest : Latest added id time step)
    (listed : other ∈ added) (due : Due id time other) : other.time ≤ step.time := by
  obtain ⟨-, before, after, rfl, least, most⟩ := latest
  rcases List.mem_append.mp listed with listed | listed
  · exact least other listed due
  · rcases List.mem_cons.mp listed with rfl | listed
    · exact Nat.le_refl _
    · exact Nat.le_of_lt (most other listed due)

/-- The last step of a signal in a script that is due by a tick is the one that was added last among
those of the latest tick. There is none if no step was added that is due. -/
theorem lastDue?_ofSteps (name : String) (added : List ScriptStep) (id : SignalId) (time : Nat) :
    match lastDue? (ofSteps name added).steps id time with
    | some step => Latest added id time step
    | none => ∀ step ∈ added, ¬Due id time step := by
  induction added using List.reverseRecOn with
  | nil => exact fun step listed => nomatch listed
  | append_singleton added step ih =>
      have ordered := (steps_ofSteps name added).1
      rw [ofSteps_append]
      by_cases due : Due id time step
      · rcases lastDue?_insert ordered due with ⟨last, later⟩ | ⟨last, other, counts, earlier⟩
        · dsimp only
          rw [last]
          refine latest_append due fun other listed due' => ?_
          cases before : lastDue? (ofSteps name added).steps id time with
          | none =>
              rw [before] at ih
              exact absurd due' (ih other listed)
          | some another =>
              rw [before] at ih
              exact Nat.le_trans (ih.le listed due') (later another before)
        · dsimp only
          rw [last]
          rw [Option.mem_def.mp counts] at ih ⊢
          exact ih.append fun _ => earlier
      · dsimp only
        rw [lastDue?_insert_of_not_due ordered due]
        cases before : lastDue? (ofSteps name added).steps id time with
        | none =>
            rw [before] at ih
            refine List.forall_mem_append.mpr ⟨ih, fun other sole => ?_⟩
            rw [List.mem_singleton.mp sole]
            exact due
        | some other =>
            rw [before] at ih
            exact ih.append fun due' => absurd due' due

/-! ## Steps that were made -/

/-- The last step of a signal in a list. -/
def lastOf? (steps : List ScriptStep) (id : SignalId) : Option ScriptStep :=
  (steps.filter fun step => step.signal = id).getLast?

theorem lastOf?_concat (steps : List ScriptStep) (id : SignalId) (step : ScriptStep) :
    lastOf? (steps ++ [step]) id = if step.signal = id then some step else lastOf? steps id := by
  unfold lastOf?
  rw [List.filter_append, List.getLast?_append, List.filter_cons, List.filter_nil]
  by_cases here : step.signal = id
  · rw [if_pos here, if_pos (decide_eq_true here)]
    rfl
  · rw [if_neg here, if_neg (by simpa using here)]
    rfl

/-- Of the steps that are due, the last one counts. -/
theorem lastDue?_of_split {done rest : List ScriptStep} (early : ∀ step ∈ done, step.time ≤ time)
    (late : ∀ step ∈ rest, time < step.time) (id : SignalId) :
    lastDue? (done ++ rest) id time = lastOf? done id := by
  have undue : (rest.filter fun step => Due id time step) = [] := by
    refine List.filter_eq_nil_iff.mpr fun step listed due => ?_
    exact absurd (of_decide_eq_true due).2 (Nat.not_le.mpr (late step listed))
  have due : (done.filter fun step => Due id time step) =
      done.filter fun step => step.signal = id := by
    refine List.filter_congr fun step listed => ?_
    exact decide_eq_decide.mpr (and_iff_left (early step listed))
  rw [lastDue?, lastOf?, List.filter_append, undue, due, List.append_nil]

end Script

end DeltaCycle
