import DeltaCycle.Proofs.Alternatives
import DeltaCycle.Proofs.Surroundings

/-!
# Reads of proposed values

To read the proposed value of a signal marks the signal. Here activities are compared that differ in
additional reads, of which nothing is used: they answer alike, and what they leave behind differs in
additional marks.
-/

set_option autoImplicit false

namespace DeltaCycle

variable {σ ω α : Type}

/-! ## Additional marks -/

/-- Marks with additional ones of known signals in between. -/
inductive Pads (known : SignalId → Prop) : List SignalId → List SignalId → Prop where
  | nil : Pads known [] []
  | keep {marks marks' : List SignalId} (id : SignalId) (more : Pads known marks marks') :
      Pads known (id :: marks) (id :: marks')
  | add {marks marks' : List SignalId} {id : SignalId} (there : known id)
      (more : Pads known marks marks') : Pads known marks (id :: marks')

namespace Pads

variable {known : SignalId → Prop} {marks marks' : List SignalId}

theorem refl (known : SignalId → Prop) (marks : List SignalId) : Pads known marks marks := by
  induction marks with
  | nil => exact .nil
  | cons id rest ih => exact ih.keep id

theorem sublist (pads : Pads known marks marks') : marks.Sublist marks' := by
  induction pads with
  | nil => exact .slnil
  | keep id _ ih => exact ih.cons_cons id
  | add _ _ ih => exact ih.cons _

theorem mem_iff (pads : Pads known marks marks') {id : SignalId} (other : ¬known id) :
    id ∈ marks' ↔ id ∈ marks := by
  induction pads with
  | nil => rfl
  | keep _ _ ih => rw [List.mem_cons, List.mem_cons, ih]
  | add there _ ih =>
      rw [List.mem_cons, ih, or_iff_right]
      rintro rfl
      exact other there

theorem eq_of_none (pads : Pads (fun _ => False) marks marks') : marks' = marks := by
  induction pads with
  | nil => rfl
  | keep id _ ih => rw [ih]
  | add there => exact there.elim

end Pads

namespace Kernel

/-- The kernel with other marks. -/
def padded (k : Kernel) (marks : List SignalId) : Kernel := { k with pending := marks }

variable {known : SignalId → Prop} (k : Kernel) {marks : List SignalId}

theorem write_padded (more : Pads known k.pending marks) (id : SignalId) (value : Value)
    (fromRule : Bool) :
    ∃ marks', Pads known (k.write id value fromRule).1.pending marks' ∧
      (k.padded marks).write id value fromRule =
        ((k.write id value fromRule).1.padded marks', (k.write id value fromRule).2) := by
  have proposes : (k.padded marks).proposal id value fromRule = k.proposal id value fromRule := rfl
  unfold write
  rw [proposes]
  cases k.proposal id value fromRule with
  | error e => exact ⟨marks, more, rfl⟩
  | ok next => exact ⟨id :: marks, more.keep id, rfl⟩

theorem next?_padded {k' : Kernel} (more : Pads known k.pending marks) {id : SignalId}
    {proposed : Value} (read : k.next? id = some (proposed, k')) :
    Pads known k'.pending (id :: marks) ∧
      (k.padded marks).next? id = some (proposed, k'.padded (id :: marks)) := by
  obtain ⟨signal, found, reads⟩ := Option.map_eq_some_iff.mp read
  cases reads
  refine ⟨more.keep id, ?_⟩
  have found' : (k.padded marks).signal? id = some signal := found
  rw [next?, found']
  rfl

theorem changeNext_padded (more : Pads known k.pending marks) (id : SignalId)
    (change : Value → Except ValueError Value) :
    ∃ marks', Pads known (k.changeNext id change).1.pending marks' ∧
      (k.padded marks).changeNext id change =
        ((k.changeNext id change).1.padded marks', (k.changeNext id change).2) := by
  unfold changeNext
  cases read : k.next? id with
  | none =>
      have unknown : (k.padded marks).next? id = none :=
        Option.map_eq_none_iff.mpr (Option.map_eq_none_iff.mp read)
      rw [unknown]
      exact ⟨marks, more, rfl⟩
  | some reply =>
      obtain ⟨current, k'⟩ := reply
      obtain ⟨more', read'⟩ := k.next?_padded more read
      rw [read']
      dsimp only
      cases change current with
      | error cause => exact ⟨id :: marks, more', rfl⟩
      | ok value => exact k'.write_padded more' id value false

end Kernel

/-! ## Additional reads -/

/-- An activity does what another one does, and now and then it also reads the proposed value of a
known signal, and makes nothing of it. -/
inductive Activity.Peeks (known : SignalId → Prop) : Activity ω α → Activity ω α → Prop where
  | done (answer : α) : Peeks known (.done answer) (.done answer)
  | fail (error : SimError) : Peeks known (.fail error) (.fail error)
  | undefined : Peeks known .undefined .undefined
  | ask (request : Request ω) {go go' : request.Reply → Activity ω α}
      (each : ∀ reply, Peeks known (go reply) (go' reply)) :
      Peeks known (.ask request go) (.ask request go')
  | later {go go' : Unit → Activity ω α} (each : Peeks known (go ()) (go' ())) :
      Peeks known (.later go) (.later go')
  | read {activity : Activity ω α} {go : Value → Activity ω α} {id : SignalId} (there : known id)
      (each : ∀ proposed, Peeks known activity (go proposed)) :
      Peeks known activity (.ask (.next id) go)

/-- Behaviours that differ in additional reads of known signals. -/
structure Behaviours.Peeks (known : SignalId → Prop) (B B' : Behaviours σ ω) : Prop where
  name : B'.name = B.name
  resume : ∀ state, (B.resume state).Peeks known (B'.resume state)
  react : ∀ body, (B.react body).Peeks known (B'.react body)

theorem Activity.Peeks.refl (known : SignalId → Prop) (activity : Activity ω α) :
    activity.Peeks known activity := by
  induction activity with
  | done answer => exact .done answer
  | fail error => exact .fail error
  | undefined => exact .undefined
  | ask request go ih => exact .ask request ih
  | later go ih => exact .later (ih ())

theorem Behaviours.Peeks.refl (known : SignalId → Prop) (B : Behaviours σ ω) : B.Peeks known B :=
  ⟨rfl, fun _ => .refl known _, fun _ => .refl known _⟩

/-- The signals that are read are there. -/
def Kernel.Holds (k : Kernel) (known : SignalId → Prop) : Prop :=
  ∀ id, known id → (k.signal? id).isSome = true

section Running

variable {known : SignalId → Prop} {k k' : Kernel} {w w' : ω} {marks : List SignalId}

theorem Kernel.Holds.of_committed (holds : k.Holds known) (same : k'.committed = k.committed) :
    k'.Holds known := by
  intro id listed
  rw [Kernel.isSome_signal?_of_committed same]
  exact holds id listed

theorem Request.perform_padded {r : Request ω} {reply : r.Reply}
    (performed : r.perform k w = some (reply, k', w')) (more : Pads known k.pending marks) :
    ∃ marks', Pads known k'.pending marks' ∧
      r.perform (k.padded marks) w = some (reply, k'.padded marks', w') := by
  cases r with
  | now | value _ | name _ | finish _ | world _ =>
      cases performed
      exact ⟨marks, more, rfl⟩
  | next id =>
      obtain ⟨⟨proposed, m⟩, read, replies⟩ := Option.map_eq_some_iff.mp performed
      cases replies
      obtain ⟨more', read'⟩ := k.next?_padded more read
      refine ⟨id :: marks, more', ?_⟩
      rw [perform, read']
      rfl
  | setNext id value =>
      cases performed
      obtain ⟨marks', more', written⟩ := k.write_padded more id value false
      refine ⟨marks', more', ?_⟩
      simp only [perform, Kernel.setNext, written]
      rfl
  | setNextBit id index bit =>
      cases performed
      obtain ⟨marks', more', changed⟩ := k.changeNext_padded more id (·.withBit index bit)
      refine ⟨marks', more', ?_⟩
      simp only [perform, Kernel.setNextBit, changed]
      rfl
  | setNextSlice id hi lo content =>
      cases performed
      obtain ⟨marks', more', changed⟩ := k.changeNext_padded more id (·.withSlice hi lo content)
      refine ⟨marks', more', ?_⟩
      simp only [perform, Kernel.setNextSlice, changed]
      rfl

/-- Additional reads leave additional marks. -/
theorem Activity.Peeks.run {activity activity' : Activity ω α} {answer : Except SimError α}
    (peeks : activity.Peeks known activity') (holds : k.Holds known)
    (ran : activity.run k w = some (answer, k', w')) (more : Pads known k.pending marks) :
    ∃ marks', Pads known k'.pending marks' ∧
      activity'.run (k.padded marks) w = some (answer, k'.padded marks', w') := by
  induction peeks generalizing k w marks with
  | done _ | fail _ =>
      cases ran
      exact ⟨marks, more, rfl⟩
  | undefined => cases ran
  | later _ ih => exact ih holds ran more
  | ask request _ ih =>
      simp only [Activity.run] at ran ⊢
      cases performed : request.perform k w with
      | none => simp [performed] at ran
      | some turn =>
          obtain ⟨reply, k₁, w₁⟩ := turn
          obtain ⟨marks₁, more₁, performed'⟩ := Request.perform_padded performed more
          have holds₁ := holds.of_committed (Request.edits_perform performed).committed
          rw [performed] at ran
          rw [performed']
          exact ih reply holds₁ ran more₁
  | @read activity go id there _ ih =>
      obtain ⟨signal, found⟩ := Option.isSome_iff_exists.mp (holds id there)
      have read : (k.padded marks).next? id = some (signal.next, k.padded (id :: marks)) := by
        have found' : (k.padded marks).signal? id = some signal := found
        rw [Kernel.next?, found']
        rfl
      simp only [Activity.run, Request.perform, read, Option.map_some]
      exact ih signal.next holds ran (more.add there)

end Running

/-! ## Acting -/

theorem Shadow.evaluate_padded (k : Kernel) (marks : List SignalId) (s : Shadow) :
    s.evaluate (k.padded marks) = ((s.evaluate k).1.padded marks, (s.evaluate k).2) ∧
      (s.evaluate k).1.pending = k.pending := by
  have parts (parts : List ConcatPart) : (k.padded marks).partValues parts = k.partValues parts := by
    induction parts with
    | nil => rfl
    | cons part rest ih =>
        have here : (k.padded marks).partValue part = k.partValue part := by
          cases part <;> rfl
        simp only [Kernel.partValues, here, ih]
  unfold evaluate
  cases s.rule with
  | slice parent hi lo => exact ⟨rfl, rfl⟩
  | bit parent index => exact ⟨rfl, rfl⟩
  | concat list =>
      have same : join (k.padded marks) list = join k list := by simp only [join, parts]
      exact ⟨congrArg (Prod.mk (k.padded marks)) same, rfl⟩
  | tristate drivers =>
      have same : asserted (k.padded marks) drivers = asserted k drivers := rfl
      have policy : (k.padded marks).contention = k.contention := rfl
      simp only [resolve, same, policy]
      rcases asserted k drivers with _ | ⟨v, _ | ⟨v', rest⟩⟩
      · exact ⟨rfl, rfl⟩
      · exact ⟨rfl, rfl⟩
      · cases k.contention <;> exact ⟨rfl, rfl⟩

theorem Shadow.resume_padded {known : SignalId → Prop} {k : Kernel} {marks : List SignalId}
    (more : Pads known k.pending marks) (s : Shadow) :
    ∃ marks', Pads known (s.resume (σ := σ) k).1.pending marks' ∧
      s.resume (σ := σ) (k.padded marks) =
        ((s.resume (σ := σ) k).1.padded marks', (s.resume (σ := σ) k).2) := by
  unfold resume
  cases s.clause? (σ := σ) with
  | none => exact ⟨marks, more, rfl⟩
  | some clause =>
      obtain ⟨evaluates, pending⟩ := s.evaluate_padded k marks
      dsimp only
      rw [evaluates]
      generalize s.evaluate k = result at pending ⊢
      obtain ⟨k₁, _ | v⟩ := result
      · exact ⟨marks, pending ▸ more, rfl⟩
      · obtain ⟨marks', more', written⟩ := k₁.write_padded (pending ▸ more) s.target v true
        dsimp only
        rw [written]
        generalize k₁.write s.target v true = result at more' ⊢
        obtain ⟨k₂, _ | _⟩ := result <;> exact ⟨marks', more', rfl⟩

namespace Simulation

variable {known : SignalId → Prop} {B B' : Behaviours σ ω} {k k' : Kernel} {w w' : ω}
  {marks : List SignalId}

/-- Bodies whose behaviours differ in additional reads do the same and leave additional marks. -/
theorem act_padded (peeks : B.Peeks known B') (holds : k.Holds known) {outputs : List SignalId}
    {body : Body σ} {done : Act σ} (acted : act B k w outputs body = some (done, k', w'))
    (more : Pads known k.pending marks) :
    ∃ marks', Pads known k'.pending marks' ∧
      act B' (k.padded marks) w outputs body = some (done, k'.padded marks', w') := by
  cases way_of_act acted with
  | @process state answer _ _ ran =>
      obtain ⟨marks', more', ran'⟩ := (peeks.resume state).run holds ran more
      refine ⟨marks', more', ?_⟩
      rw [act, ran']
      obtain _ | _ | _ := answer <;> rfl
  | @shadow shadow answer _ resumed =>
      obtain ⟨marks', more', resumed'⟩ := Shadow.resume_padded (σ := σ) more shadow
      rw [resumed] at more' resumed'
      refine ⟨marks', more', ?_⟩
      rw [act, resumed']
      obtain _ | _ | _ := answer <;> rfl
  | @reacts block answer _ _ ran =>
      obtain ⟨marks', more', ran'⟩ := (peeks.react block.body).run holds ran more
      refine ⟨marks', more', ?_⟩
      rw [act, ran']
      obtain _ | _ := answer <;> rfl
  | joins | branch _ | begins _ | outputs => exact ⟨marks, more, rfl⟩

end Simulation

end DeltaCycle
