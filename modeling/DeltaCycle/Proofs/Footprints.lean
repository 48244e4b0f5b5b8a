import DeltaCycle.Proofs.Happenings

/-!
# Footprints

What a waiter does in one resume depends on what is committed and on the proposed values that it
reads. What it leaves behind in the kernel is its footprint: other proposed values for signals that
it touched, and marks on signals that it read or wrote. It leaves the same footprint in every
kernel that agrees on what is committed and on the proposed values of the touched signals.
-/

set_option autoImplicit false

namespace DeltaCycle

variable {σ ω α : Type}

namespace Kernel

/-- The proposed value of a signal. -/
def proposed? (k : Kernel) (id : SignalId) : Option Value := (k.signal? id).map (·.next)

/-- The kernels agree on what is committed and on the proposed values of the signals, and nobody
asked for the end. -/
structure AgreesOn (touched : List SignalId) (k k₁ : Kernel) : Prop where
  committed : k₁.committed = k.committed
  running : k.stopRequest = none
  running' : k₁.stopRequest = none
  proposed : ∀ id ∈ touched, k₁.proposed? id = k.proposed? id

/-- Nothing but wait lists, diagnostics and the order in which signals were marked distinguishes
the kernels. -/
structure Alike (k k₁ : Kernel) : Prop where
  committed : k₁.committed = k.committed
  stopRequest : k₁.stopRequest = k.stopRequest
  proposed : ∀ id, k₁.proposed? id = k.proposed? id
  pending : k₁.pending.Perm k.pending

namespace Alike

theorem refl (k : Kernel) : Alike k k := ⟨rfl, rfl, fun _ => rfl, .refl _⟩

theorem symm {k k₁ : Kernel} (alike : Alike k k₁) : Alike k₁ k :=
  ⟨alike.committed.symm, alike.stopRequest.symm, fun id => (alike.proposed id).symm,
    alike.pending.symm⟩

theorem trans {k k₁ k₂ : Kernel} (first : Alike k k₁) (second : Alike k₁ k₂) : Alike k k₂ :=
  ⟨second.committed.trans first.committed, second.stopRequest.trans first.stopRequest,
    fun id => (second.proposed id).trans (first.proposed id), second.pending.trans first.pending⟩

theorem agreesOn {k k₁ : Kernel} (alike : Alike k k₁) (running : k.stopRequest = none)
    (touched : List SignalId) : AgreesOn touched k k₁ :=
  ⟨alike.committed, running, alike.stopRequest.trans running, fun id _ => alike.proposed id⟩

end Alike

/-! ## What is committed -/

/-- Kernels that agree on what is committed have the same signals up to what waiters change. -/
theorem signal?_cases {k k₁ : Kernel} (same : k₁.committed = k.committed) (id : SignalId) :
    (k.signal? id = none ∧ k₁.signal? id = none) ∨
      ∃ s s₁, k.signal? id = some s ∧ k₁.signal? id = some s₁ ∧ s₁.committed = s.committed := by
  have signals := signal?_of_committed same id
  cases found : k.signal? id with
  | none =>
      rw [found, Option.map_none, Option.map_eq_none_iff] at signals
      exact .inl ⟨rfl, signals⟩
  | some s =>
      rw [found, Option.map_some, Option.map_eq_some_iff] at signals
      obtain ⟨s₁, found₁, equal⟩ := signals
      exact .inr ⟨s, s₁, rfl, found₁, equal⟩

theorem contention_of_committed {k k₁ : Kernel} (same : k₁.committed = k.committed) :
    k₁.contention = k.contention := by
  have policies := congrArg Kernel.contention same
  exact policies

theorem val_of_committed {k k₁ : Kernel} (same : k₁.committed = k.committed) (id : SignalId) :
    k₁.val id = k.val id := by
  rcases signal?_cases same id with ⟨found, found₁⟩ | ⟨s, s₁, found, found₁, equal⟩
  · simp only [val, lookup, found, found₁]
  · have vals : s₁.val = s.val := congrArg (·.val) equal
    simp only [val, lookup, found, found₁, Except.map, vals]

theorem name_of_committed {k k₁ : Kernel} (same : k₁.committed = k.committed) (id : SignalId) :
    k₁.name id = k.name id := by
  rcases signal?_cases same id with ⟨found, found₁⟩ | ⟨s, s₁, found, found₁, equal⟩
  · simp only [name, found, found₁]
  · have names : s₁.name = s.name := congrArg (·.name) equal
    simp only [name, found, found₁, names]

/-- Whether a value is refused does not depend on what is proposed so far. -/
theorem proposal_of_committed {k k₁ : Kernel} (same : k₁.committed = k.committed)
    (id : SignalId) (value : Value) (fromRule : Bool) :
    k₁.proposal id value fromRule = k.proposal id value fromRule := by
  rcases signal?_cases same id with ⟨found, found₁⟩ | ⟨s, s₁, found, found₁, equal⟩
  · simp only [proposal, lookup, found, found₁]
  · have shadows : s₁.shadow = s.shadow := congrArg (·.shadow) equal
    have names : s₁.name = s.name := congrArg (·.name) equal
    have kinds : s₁.kind = s.kind := congrArg (·.kind) equal
    have inits : s₁.init = s.init := congrArg (·.init) equal
    simp only [proposal, lookup, found, found₁, shadows, names, kinds, inits]

theorem partValues_of_committed {k k₁ : Kernel} (same : k₁.committed = k.committed)
    (parts : List ConcatPart) : k₁.partValues parts = k.partValues parts := by
  induction parts with
  | nil => rfl
  | cons part rest ih =>
      have values : k₁.partValue part = k.partValue part := by
        cases part with
        | signal id => exact val_of_committed same id
        | literal v => rfl
      simp only [partValues, values, ih]

end Kernel

/-- What the rule of a shadow gives depends on what is committed. -/
theorem Shadow.evaluate_of_committed {k k₁ : Kernel} (same : k₁.committed = k.committed)
    (s : Shadow) : (s.evaluate k₁).2 = (s.evaluate k).2 := by
  unfold evaluate
  split
  · simp only [derive, Kernel.val_of_committed same]
  · simp only [derive, Kernel.val_of_committed same]
  · simp only [join, Kernel.partValues_of_committed same]
  · next drivers _ =>
      have drives : asserted k₁ drivers = asserted k drivers := by
        rw [asserted, asserted, funext (Kernel.val?_of_committed same)]
      have policy : k₁.contention = k.contention := Kernel.contention_of_committed same
      simp only [resolve, drives, policy, Kernel.name_of_committed same,
        Kernel.now_of_committed same]
      split
      · rfl
      · rfl
      · cases k.contention <;> rfl

/-! ## Footprints -/

/-- What a resume leaves behind: the signals that it touched, their proposed values afterwards, and
the signals that it marked as pending, the last one first. -/
structure Footprint where
  touched : List SignalId
  proposed : SignalId → Option Value
  marks : List SignalId

/-- A footprint leads from one kernel to another. -/
structure Footprint.Leads (f : Footprint) (k k' : Kernel) : Prop where
  committed : k'.committed = k.committed
  stopRequest : k'.stopRequest = k.stopRequest
  pending : k'.pending = f.marks ++ k.pending
  inside : ∀ id ∈ f.touched, k'.proposed? id = f.proposed id
  outside : ∀ id, id ∉ f.touched → k'.proposed? id = k.proposed? id

/-- The footprint of nothing. -/
def Footprint.empty : Footprint := ⟨[], fun _ => none, []⟩

/-- The footprint of reading a proposed value. -/
def Footprint.ofRead (k : Kernel) (id : SignalId) : Footprint := ⟨[id], k.proposed?, [id]⟩

/-- The footprint of writing a value, possibly after reading the one before. -/
def Footprint.ofWrite (id : SignalId) (next : Value) (marks : List SignalId) : Footprint :=
  ⟨[id], fun _ => some next, marks⟩

/-- One footprint after another. -/
def Footprint.andThen (f g : Footprint) : Footprint where
  touched := f.touched ++ g.touched
  proposed id := if id ∈ g.touched then g.proposed id else f.proposed id
  marks := g.marks ++ f.marks

namespace Footprint

theorem leads_empty (k : Kernel) : empty.Leads k k :=
  ⟨rfl, rfl, rfl, fun _ listed => absurd listed List.not_mem_nil, fun _ _ => rfl⟩

theorem leads_mark {k k₁ : Kernel} {id : SignalId} (same : k₁.proposed? id = k.proposed? id) :
    (ofRead k id).Leads k₁ (k₁.mark id) := by
  refine ⟨rfl, rfl, rfl, fun id' listed => ?_, fun _ _ => rfl⟩
  cases List.mem_singleton.mp listed
  exact same

theorem Leads.trans {f g : Footprint} {k k' k'' : Kernel} (first : f.Leads k k')
    (second : g.Leads k' k'') : (f.andThen g).Leads k k'' := by
  refine ⟨second.committed.trans first.committed, second.stopRequest.trans first.stopRequest, ?_,
    fun id listed => ?_, fun id apart => ?_⟩
  · rw [second.pending, first.pending, ← List.append_assoc]
    rfl
  · by_cases later : id ∈ g.touched
    · exact (second.inside id later).trans (if_pos later).symm
    · have earlier := (List.mem_append.mp listed).resolve_right later
      exact ((second.outside id later).trans (first.inside id earlier)).trans (if_neg later).symm
  · obtain ⟨earlier, later⟩ := not_or.mp (mt List.mem_append.mpr apart)
    exact (second.outside id later).trans (first.outside id earlier)

/-- After the same footprint, kernels agree where they agreed before or where it leads. -/
theorem Leads.agreesOn {f : Footprint} {k k' k₁ k₁' : Kernel} {touched : List SignalId}
    (leads : f.Leads k k') (leads₁ : f.Leads k₁ k₁')
    (agree : Kernel.AgreesOn (f.touched ++ touched) k k₁) : Kernel.AgreesOn touched k' k₁' := by
  refine ⟨?_, leads.stopRequest.trans agree.running, leads₁.stopRequest.trans agree.running',
    fun id listed => ?_⟩
  · rw [leads₁.committed, leads.committed, agree.committed]
  · by_cases inside : id ∈ f.touched
    · rw [leads₁.inside id inside, leads.inside id inside]
    · rw [leads₁.outside id inside, leads.outside id inside]
      exact agree.proposed id (List.mem_append_right _ listed)

theorem Leads.alike {f : Footprint} {k k' k₁ k₁' : Kernel} (leads : f.Leads k k')
    (leads₁ : f.Leads k₁ k₁') (alike : Kernel.Alike k k₁) : Kernel.Alike k' k₁' := by
  refine ⟨?_, ?_, fun id => ?_, ?_⟩
  · rw [leads₁.committed, leads.committed, alike.committed]
  · rw [leads₁.stopRequest, leads.stopRequest, alike.stopRequest]
  · by_cases inside : id ∈ f.touched
    · rw [leads₁.inside id inside, leads.inside id inside]
    · rw [leads₁.outside id inside, leads.outside id inside]
      exact alike.proposed id
  · rw [leads₁.pending, leads.pending]
    exact alike.pending.append_left _

end Footprint

namespace Kernel

theorem AgreesOn.mono {touched fewer : List SignalId} {k k₁ : Kernel}
    (agree : AgreesOn touched k k₁) (subset : ∀ id ∈ fewer, id ∈ touched) : AgreesOn fewer k k₁ :=
  ⟨agree.committed, agree.running, agree.running', fun id listed =>
    agree.proposed id (subset id listed)⟩

theorem proposed?_modify (k : Kernel) {id : SignalId} (known : (k.signal? id).isSome = true)
    (next : Value) (id' : SignalId) :
    (k.modify id fun s => { s with next }).proposed? id' =
      if id = id' then some next else k.proposed? id' := by
  unfold proposed?
  rw [signal?_modify]
  split
  · next same =>
      subst same
      obtain ⟨s, found⟩ := Option.isSome_iff_exists.mp known
      rw [found]
      rfl
  · rfl

theorem known_of_proposal {k : Kernel} {id : SignalId} {value next : Value} {fromRule : Bool}
    (accepted : k.proposal id value fromRule = .ok next) : (k.signal? id).isSome = true := by
  unfold proposal lookup at accepted
  cases found : k.signal? id with
  | none => simp [found] at accepted
  | some s => rfl

theorem write_of_ok {k : Kernel} {id : SignalId} {value next : Value} {fromRule : Bool}
    (accepted : k.proposal id value fromRule = .ok next) :
    k.write id value fromRule = ((k.modify id fun s => { s with next }).mark id, .ok ()) := by
  rw [write, accepted]

theorem write_of_error {k : Kernel} {id : SignalId} {value : Value} {fromRule : Bool}
    {e : SimError} (refused : k.proposal id value fromRule = .error e) :
    k.write id value fromRule = (k, .error e) := by
  rw [write, refused]

theorem leads_write {k : Kernel} {id : SignalId} {value next : Value} {fromRule : Bool}
    (accepted : k.proposal id value fromRule = .ok next) :
    (Footprint.ofWrite id next [id]).Leads k ((k.modify id fun s => { s with next }).mark id) := by
  have changed := proposed?_modify k (known_of_proposal accepted) next
  refine ⟨committed_modify k id (f := fun s => { s with next }) fun _ => rfl, rfl, rfl,
    fun id' listed => ?_, fun id' apart => ?_⟩
  · cases List.mem_singleton.mp listed
    exact (changed id).trans (if_pos rfl)
  · have other : id ≠ id' := fun same => apart (List.mem_singleton.mpr same.symm)
    exact (changed id').trans (if_neg other)

/-- A change of the proposed value leaves the same footprint wherever that value is the same. -/
theorem frame_changeNext {k k₁ : Kernel} {id : SignalId}
    (change : Value → Except ValueError Value)
    (agree : AgreesOn ((k.signal? id).map fun _ => id).toList k k₁) :
    ∃ f : Footprint, f.touched = ((k.signal? id).map fun _ => id).toList ∧
      f.Leads k (k.changeNext id change).1 ∧ f.Leads k₁ (k₁.changeNext id change).1 ∧
      (k₁.changeNext id change).2 = (k.changeNext id change).2 := by
  rcases signal?_cases agree.committed id with ⟨found, found₁⟩ | ⟨s, s₁, found, found₁, -⟩
  · simp only [changeNext, next?, found, found₁]
    exact ⟨.empty, rfl, Footprint.leads_empty k, Footprint.leads_empty k₁, rfl⟩
  · have nexts : s₁.next = s.next := by
      have same := agree.proposed id (by simp [found])
      simpa only [proposed?, found, found₁, Option.map_some, Option.some.injEq] using same
    have marks : AgreesOn [id] k k₁ := by rwa [found] at agree
    have read : (Footprint.ofRead k id).Leads k (k.mark id) := Footprint.leads_mark rfl
    have read₁ : (Footprint.ofRead k id).Leads k₁ (k₁.mark id) :=
      Footprint.leads_mark (marks.proposed id (List.mem_singleton_self id))
    simp only [changeNext, next?, found, found₁, Option.map_some, nexts, setNext]
    cases change s.next with
    | error cause =>
        refine ⟨.ofRead k id, rfl, read, read₁, ?_⟩
        have names : (k₁.mark id).name id = (k.mark id).name id := name_of_committed marks.committed id
        simp only [names]
    | ok value =>
        have same : (k₁.mark id).proposal id value false = (k.mark id).proposal id value false :=
          proposal_of_committed marks.committed id value false
        dsimp only
        cases decided : (k.mark id).proposal id value false with
        | error e =>
            rw [decided] at same
            rw [write_of_error decided, write_of_error same]
            exact ⟨.ofRead k id, rfl, read, read₁, rfl⟩
        | ok next =>
            rw [decided] at same
            rw [write_of_ok decided, write_of_ok same]
            refine ⟨.ofWrite id next [id, id], rfl, ?_, ?_, rfl⟩
            · have wrote := leads_write decided
              exact ⟨wrote.committed, wrote.stopRequest, wrote.pending, wrote.inside, wrote.outside⟩
            · have wrote := leads_write same
              exact ⟨wrote.committed, wrote.stopRequest, wrote.pending, wrote.inside, wrote.outside⟩

theorem place_of_committed {k k₁ : Kernel} (same : k₁.committed = k.committed) (id : SignalId) :
    ((k₁.signal? id).map fun _ => id) = (k.signal? id).map fun _ => id := by
  rcases signal?_cases same id with ⟨found, found₁⟩ | ⟨s, s₁, found, found₁, -⟩
  · rw [found, found₁]
  · rw [found, found₁, Option.map_some, Option.map_some]

/-- A request that changes the proposed value leaves the same footprint wherever that value is the
same. -/
theorem frame_changed {k k' k₁ : Kernel} {w w' : ω} {id : SignalId} {reply : Except SimError Unit}
    (change : Value → Except ValueError Value)
    (performed : some ((k.changeNext id change).2, (k.changeNext id change).1, w) =
      some (reply, k', w'))
    (agree : AgreesOn ((k.signal? id).map fun _ => id).toList k k₁) :
    ∃ (f : Footprint) (k₁' : Kernel), f.touched = ((k.signal? id).map fun _ => id).toList ∧
      f.Leads k k' ∧ f.Leads k₁ k₁' ∧
      some ((k₁.changeNext id change).2, (k₁.changeNext id change).1, w) = some (reply, k₁', w') ∧
      ((k₁.signal? id).map fun _ => id) = (k.signal? id).map fun _ => id := by
  obtain ⟨f, touched, leads, leads₁, same⟩ := frame_changeNext change agree
  simp only [Option.some.injEq, Prod.mk.injEq] at performed
  obtain ⟨rfl, rfl, rfl⟩ := performed
  refine ⟨f, (k₁.changeNext id change).1, touched, leads, leads₁, ?_,
    place_of_committed agree.committed id⟩
  rw [same]

theorem Edits.running {k k' : Kernel} (edits : Edits k k') (running : k'.stopRequest = none) :
    k.stopRequest = none := by
  induction edits with
  | refl => exact running
  | mark _ id ih => exact ih running
  | propose _ id next ih => exact ih running
  | finish _ reason => cases running
  | emit _ other ih => exact ih running

end Kernel

/-! ## Activities -/

open Kernel

/-- A request leaves the same footprint wherever it touches the same proposed value. -/
theorem Request.frame {k k' k₁ : Kernel} {w w' : ω} {r : Request ω} {reply : r.Reply}
    (performed : r.perform k w = some (reply, k', w')) (running : k'.stopRequest = none)
    (agree : AgreesOn (r.touched? k).toList k k₁) :
    ∃ (f : Footprint) (k₁' : Kernel), f.touched = (r.touched? k).toList ∧ f.Leads k k' ∧
      f.Leads k₁ k₁' ∧ r.perform k₁ w = some (reply, k₁', w') ∧ r.touched? k₁ = r.touched? k := by
  have empty := Footprint.leads_empty
  cases r with
  | now =>
      cases performed
      refine ⟨.empty, k₁, rfl, empty k, empty k₁, ?_, rfl⟩
      rw [perform, now_of_committed agree.committed]
  | value id =>
      cases performed
      refine ⟨.empty, k₁, rfl, empty k, empty k₁, ?_, rfl⟩
      rw [perform, val_of_committed agree.committed]
  | name id =>
      cases performed
      refine ⟨.empty, k₁, rfl, empty k, empty k₁, ?_, rfl⟩
      rw [perform, name_of_committed agree.committed]
  | world change =>
      cases performed
      exact ⟨.empty, k₁, rfl, empty k, empty k₁, rfl, rfl⟩
  | finish reason =>
      cases performed
      cases running
  | next id =>
      have same := agree.proposed id (List.mem_singleton_self id)
      simp only [perform, next?, Option.map_map, Option.map_eq_some_iff] at performed
      obtain ⟨s, found, given⟩ := performed
      cases given
      simp only [proposed?, found, Option.map_some, Option.map_eq_some_iff] at same
      obtain ⟨s₁, found₁, nexts⟩ := same
      refine ⟨.ofRead k id, k₁.mark id, rfl, Footprint.leads_mark rfl,
        Footprint.leads_mark (agree.proposed id (List.mem_singleton_self id)), ?_, rfl⟩
      simp only [perform, next?, found₁, Option.map_some, nexts]
  | setNext id value =>
      have same := proposal_of_committed agree.committed id value false
      simp only [perform, Option.some.injEq, Kernel.setNext] at performed
      simp only [touched?, perform, Kernel.setNext, same]
      cases decided : k.proposal id value false with
      | error e =>
          rw [decided] at same
          rw [write_of_error decided] at performed
          rw [write_of_error same]
          cases performed
          exact ⟨.empty, k₁, rfl, empty k, empty k₁, rfl, trivial⟩
      | ok next =>
          rw [decided] at same
          rw [write_of_ok decided] at performed
          rw [write_of_ok same]
          cases performed
          exact ⟨.ofWrite id next [id], _, rfl, leads_write decided, leads_write same, rfl, trivial⟩
  | setNextBit id index bit => exact frame_changed (·.withBit index bit) performed agree
  | setNextSlice id hi lo content => exact frame_changed (·.withSlice hi lo content) performed agree

/-- An activity leaves the same footprint wherever it touches the same proposed values. -/
theorem Activity.frame {k k' k₁ : Kernel} {w w' : ω} {activity : Activity ω α}
    {answer : Except SimError α} (ran : activity.run k w = some (answer, k', w'))
    (running : k'.stopRequest = none) (agree : AgreesOn (activity.touched k w) k k₁) :
    ∃ (f : Footprint) (k₁' : Kernel), f.touched = activity.touched k w ∧ f.Leads k k' ∧
      f.Leads k₁ k₁' ∧ activity.run k₁ w = some (answer, k₁', w') ∧
      activity.touched k₁ w = activity.touched k w := by
  induction activity generalizing k k₁ w with
  | done _ | fail _ =>
      cases ran
      exact ⟨.empty, k₁, rfl, Footprint.leads_empty _, Footprint.leads_empty k₁, rfl, rfl⟩
  | undefined => cases ran
  | later go ih => exact ih () ran agree
  | ask request go ih =>
      simp only [run] at ran
      cases performed : request.perform k w with
      | none => simp [performed] at ran
      | some replied =>
          obtain ⟨reply, m, v⟩ := replied
          simp only [performed] at ran
          have touched : (ask request go).touched k w =
              (request.touched? k).toList ++ (go reply).touched m v := by
            simp only [Activity.touched, performed]
          rw [touched] at agree ⊢
          have before : AgreesOn (request.touched? k).toList k k₁ :=
            agree.mono fun id listed => List.mem_append_left _ listed
          obtain ⟨f, m₁, reach, leads, leads₁, performed₁, same⟩ :=
            Request.frame performed ((Activity.edits_run ran).running running) before
          have after : AgreesOn ((go reply).touched m v) m m₁ :=
            leads.agreesOn leads₁ (by rwa [reach])
          obtain ⟨g, k₁', reach', leads', leads₁', ran₁, same'⟩ := ih reply ran after
          refine ⟨f.andThen g, k₁', ?_, leads.trans leads', leads₁.trans leads₁', ?_, ?_⟩
          · rw [Footprint.andThen, reach, reach']
          · simp only [run, performed₁]
            exact ran₁
          · simp only [Activity.touched, performed₁, same, same']

/-! ## Bodies -/

namespace Shadow

theorem leads_evaluate (k : Kernel) (s : Shadow) : Footprint.empty.Leads k (s.evaluate k).1 := by
  rcases evaluate_fst k s with same | ⟨d, same⟩
  · rw [same]
    exact Footprint.leads_empty k
  · rw [same]
    exact ⟨rfl, rfl, rfl, fun _ listed => absurd listed List.not_mem_nil, fun _ _ => rfl⟩

/-- A shadow that is recomputed leaves the same footprint everywhere. -/
theorem frame {k k₁ : Kernel} {s : Shadow} (agree : AgreesOn (s.touched σ k) k k₁) :
    ∃ f : Footprint, f.touched = s.touched σ k ∧ f.Leads k (s.resume (σ := σ) k).1 ∧
      f.Leads k₁ (s.resume (σ := σ) k₁).1 ∧
      (s.resume (σ := σ) k₁).2 = (s.resume (σ := σ) k).2 ∧ s.touched σ k₁ = s.touched σ k := by
  have values := evaluate_of_committed agree.committed s
  have leads := leads_evaluate k s
  have leads₁ := leads_evaluate k₁ s
  unfold touched at agree ⊢
  unfold resume
  rw [values]
  cases clause : s.clause? (σ := σ) with
  | none => exact ⟨.empty, rfl, Footprint.leads_empty k, Footprint.leads_empty k₁, rfl, rfl⟩
  | some clause =>
      rw [clause] at agree
      dsimp only at agree ⊢
      generalize s.evaluate k = result at agree values leads ⊢
      generalize s.evaluate k₁ = result₁ at values leads₁ ⊢
      obtain ⟨m, e | v⟩ := result
      · obtain ⟨m₁, outcome⟩ := result₁
        dsimp only at values
        subst values
        exact ⟨.empty, rfl, leads, leads₁, rfl, rfl⟩
      · obtain ⟨m₁, outcome⟩ := result₁
        dsimp only at values leads leads₁ agree ⊢
        subst values
        have same : m₁.proposal s.target v true = m.proposal s.target v true :=
          proposal_of_committed ((leads₁.committed.trans agree.committed).trans leads.committed.symm)
            s.target v true
        cases decided : m.proposal s.target v true with
        | error e =>
            rw [decided] at same
            rw [write_of_error decided]
            dsimp only
            rw [write_of_error same]
            refine ⟨⟨[s.target], k.proposed?, []⟩, rfl, ?_, ?_, rfl, rfl⟩
            · exact ⟨leads.committed, leads.stopRequest, leads.pending,
                fun id _ => leads.outside id List.not_mem_nil,
                fun id _ => leads.outside id List.not_mem_nil⟩
            · exact ⟨leads₁.committed, leads₁.stopRequest, leads₁.pending,
                fun id listed => (leads₁.outside id List.not_mem_nil).trans (agree.proposed id listed),
                fun id _ => leads₁.outside id List.not_mem_nil⟩
        | ok next =>
            rw [decided] at same
            rw [write_of_ok decided]
            dsimp only
            rw [write_of_ok same]
            exact ⟨Footprint.empty.andThen (.ofWrite s.target next [s.target]), rfl,
              leads.trans (leads_write decided), leads₁.trans (leads_write same), rfl, rfl⟩

end Shadow

/-- A body leaves the same footprint, and does the same, wherever it touches the same proposed
values. -/
theorem Simulation.act_frame {B : Behaviours σ ω} {k k' k₁ : Kernel} {w w' : ω}
    {outputs : List SignalId} {body : Body σ} {done : Act σ}
    (acted : act B k w outputs body = some (done, k', w')) (running : k'.stopRequest = none)
    (agree : AgreesOn (touched B k w body) k k₁) :
    ∃ (f : Footprint) (k₁' : Kernel), f.touched = touched B k w body ∧ f.Leads k k' ∧
      f.Leads k₁ k₁' ∧ act B k₁ w outputs body = some (done, k₁', w') ∧
      touched B k₁ w body = touched B k w body := by
  have still (k : Kernel) : Footprint.empty.Leads k k := Footprint.leads_empty k
  cases way_of_act acted with
  | process ran =>
      obtain ⟨f, k₁', reach, leads, leads₁, ran₁, same⟩ := Activity.frame ran running agree
      exact ⟨f, k₁', reach, leads, leads₁, act_of_way (.process ran₁), same⟩
  | @shadow shadow answer _ resumed =>
      obtain ⟨f, reach, leads, leads₁, same, again⟩ := Shadow.frame agree
      rw [resumed] at leads same
      exact ⟨f, _, reach, leads, leads₁, act_of_way (.shadow (Prod.ext rfl same)), again⟩
  | reacts ran =>
      obtain ⟨f, k₁', reach, leads, leads₁, ran₁, same⟩ := Activity.frame ran running agree
      exact ⟨f, k₁', reach, leads, leads₁, act_of_way (.reacts ran₁), same⟩
  | _ => exact ⟨.empty, k₁, rfl, still k, still k₁, rfl, rfl⟩

end DeltaCycle
