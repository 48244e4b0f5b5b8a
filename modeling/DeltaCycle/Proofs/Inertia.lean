import DeltaCycle.Proofs.Reach

/-!
# Inertial delay

The queue keeps a record of each update of an inertial signal, and tells those that were revoked
by a stamp. A record has the current stamp if and only if its update stands, that is, if every
later update proposed the same value. So what comes due is what stood for the whole delay.
-/

set_option autoImplicit false

namespace DeltaCycle

variable {σ ω : Type}

/-! ## Updates that stand -/

/-- An update in the log of a signal proposed the value at the tick, and every later one proposed
the same. -/
def Stands (updates : List (Nat × Value)) (time : Nat) (value : Value) : Prop :=
  ∃ earlier later, updates = earlier ++ (time, value) :: later ∧
    ∀ update ∈ later, update.2.same value = true

/-- The value stood for the whole delay until the tick. -/
def Stood (updates : List (Nat × Value)) (delay time : Nat) (value : Value) : Prop :=
  ∃ start proposed, start + delay = time ∧ proposed.same value = true ∧
    Stands updates start proposed

theorem not_stands_nil (time : Nat) (value : Value) : ¬Stands [] time value := by
  rintro ⟨earlier, later, same, -⟩
  simp at same

theorem stands_concat_iff {updates : List (Nat × Value)} {now time : Nat} {next value : Value} :
    Stands (updates ++ [(now, next)]) time value ↔
      now = time ∧ next = value ∨ next.same value = true ∧ Stands updates time value := by
  constructor
  · rintro ⟨earlier, later, same, agree⟩
    rcases later.eq_nil_or_concat' with rfl | ⟨later, last, rfl⟩
    · obtain ⟨-, last⟩ := List.append_inj' same rfl
      cases last
      exact .inl ⟨rfl, rfl⟩
    · obtain ⟨others, lastly⟩ := List.forall_mem_append.mp agree
      rw [← List.cons_append, ← List.append_assoc] at same
      obtain ⟨front, back⟩ := List.append_inj' same rfl
      cases back
      exact .inr ⟨lastly _ (List.mem_singleton_self _), earlier, later, front, others⟩
  · rintro (⟨rfl, rfl⟩ | ⟨lastly, earlier, later, rfl, agree⟩)
    · exact ⟨updates, [], rfl, fun update listed => absurd listed List.not_mem_nil⟩
    · refine ⟨earlier, later ++ [(now, next)], by simp, List.forall_mem_append.mpr ⟨agree, ?_⟩⟩
      exact List.forall_mem_singleton.mpr lastly

/-- The last value that was proposed is the same as any that stands. -/
theorem Stands.same_last {updates : List (Nat × Value)} {time : Nat} {value last : Value}
    (stands : Stands updates time value) (ends : ∀ update ∈ updates.getLast?, last = update.2) :
    last.same value = true := by
  rcases updates.eq_nil_or_concat' with rfl | ⟨updates, update, rfl⟩
  · exact absurd stands (not_stands_nil time value)
  · rw [ends update (by simp)]
    rcases stands_concat_iff.mp stands with ⟨-, rfl⟩ | ⟨same, -⟩
    · exact Value.same_self _
    · exact same

/-! ## Records -/

/-- The tick and the value of an update of a signal. -/
def Happening.updateOf? (id : SignalId) : Happening → Option (Nat × Value)
  | updated time signal value => if signal = id then some (time, value) else none
  | _ => none

/-- The queue holds the records of the updates of an inertial signal: those with the current stamp
are the ones that stand, unless they came due. -/
structure Inertia.Recorded (i : Inertia) (id : SignalId) (val : Value)
    (updates : List (Nat × Value)) (q : EventQueue) : Prop where
  last : ∀ update ∈ updates.getLast?, i.lastNext = update.2
  stamped : ∀ e ∈ q.toList, ∀ value stamp, e.payload = .apply id value stamp →
    stamp ≤ i.stamp ∧
      (stamp = i.stamp → ∃ time, e.time = time + i.delay ∧ Stands updates time value)
  standing : ∀ time value, Stands updates time value → val.same value = true ∨
    ∃ e ∈ q.toList, e.payload = .apply id value i.stamp ∧ e.time = time + i.delay

namespace Inertia.Recorded

variable {i : Inertia} {id : SignalId} {val : Value} {updates : List (Nat × Value)}
  {q : EventQueue} (recorded : i.Recorded id val updates q)

include recorded

/-- Entries of others do not matter. -/
theorem of_others {q' : EventQueue}
    (kept : ∀ e value stamp, e.payload = .apply id value stamp → (e ∈ q'.toList ↔ e ∈ q.toList)) :
    i.Recorded id val updates q' where
  last := recorded.last
  stamped e listed value stamp applies :=
    recorded.stamped e ((kept e value stamp applies).mp listed) value stamp applies
  standing time value stands := by
    refine (recorded.standing time value stands).imp_right ?_
    rintro ⟨e, listed, applies, due⟩
    exact ⟨e, (kept e value i.stamp applies).mpr listed, applies, due⟩

/-- While no entry is due, whatever stood for the whole delay is committed. -/
theorem committed {time : Nat} (undue : ∀ e ∈ q.toList, e.time ≠ time) {v : Value} :
    ¬(val.same v = false ∧ Stood updates i.delay time v) := by
  rintro ⟨other, t, w, due, same, stands⟩
  rcases recorded.standing t w stands with committed | ⟨e, listed, -, at_⟩
  · exact absurd (Value.same_trans committed same) (Bool.eq_false_iff.mp other)
  · exact undue e listed (at_.trans due)

/-- An update puts its record into the queue, and moves the stamp on if it revokes others. -/
theorem update (now : Nat) (next : Value) :
    (i.propose next).Recorded id val (updates ++ [(now, next)])
      (q.push (now + i.delay) (.apply id next (i.propose next).stamp)) := by
  have pushed (e : Entry) :
      e ∈ (q.push (now + i.delay) (.apply id next (i.propose next).stamp)).toList ↔
        e = ⟨now + i.delay, q.pushed, .apply id next (i.propose next).stamp⟩ ∨ e ∈ q.toList :=
    (EventQueue.toList_push ..).mem_iff.trans List.mem_cons
  have kept (same : next.same i.lastNext = true) : (i.propose next).stamp = i.stamp := if_pos same
  have moved (other : next.same i.lastNext = false) : (i.propose next).stamp = i.stamp + 1 :=
    if_neg (by simp [other])
  constructor
  · intro update last
    rw [List.getLast?_concat] at last
    cases last
    rfl
  · intro e listed value stamp applies
    rcases (pushed e).mp listed with rfl | listed
    · cases applies
      exact ⟨Nat.le_refl _, fun _ => ⟨now, rfl, stands_concat_iff.mpr (.inl ⟨rfl, rfl⟩)⟩⟩
    · obtain ⟨bound, current⟩ := recorded.stamped e listed value stamp applies
      cases same : next.same i.lastNext with
      | false =>
          rw [moved same]
          exact ⟨by omega, fun current => by omega⟩
      | true =>
          rw [kept same]
          refine ⟨bound, fun same' => ?_⟩
          obtain ⟨time, due, stands⟩ := current same'
          have agrees := Value.same_trans same (stands.same_last recorded.last)
          exact ⟨time, due, stands_concat_iff.mpr (.inr ⟨agrees, stands⟩)⟩
  · intro time value stands
    rcases stands_concat_iff.mp stands with ⟨rfl, rfl⟩ | ⟨agrees, stands⟩
    · exact .inr ⟨_, (pushed _).mpr (.inl rfl), rfl, rfl⟩
    · have last := stands.same_last recorded.last
      have same := kept (Value.same_trans agrees (Value.same_symm last))
      refine (recorded.standing time value stands).imp_right ?_
      rintro ⟨e, listed, applies, due⟩
      exact ⟨e, (pushed e).mpr (.inr listed), same ▸ applies, due⟩

/-- A record that came due was committed if it has the current stamp. -/
theorem take {q' : EventQueue} {first : Entry} {value new : Value} {stamp : Nat}
    (applies : first.payload = .apply id value stamp)
    (perm : q.toList.Perm (first :: q'.toList))
    (current : i.stamp = stamp → new.same value = true) (stale : i.stamp ≠ stamp → new = val) :
    i.Recorded id new updates q' := by
  have kept {e : Entry} (listed : e ∈ q'.toList) : e ∈ q.toList :=
    perm.mem_iff.mpr (List.mem_cons_of_mem _ listed)
  have due := recorded.stamped first (perm.mem_iff.mpr (List.mem_cons_self ..)) value stamp applies
  refine ⟨recorded.last, fun e listed => recorded.stamped e (kept listed), ?_⟩
  intro time value' stands
  by_cases committed : i.stamp = stamp
  · -- Whatever stands is the same as the value that is committed.
    obtain ⟨time', -, stands'⟩ := due.2 committed.symm
    have same := Value.same_symm (stands'.same_last recorded.last)
    have same' := stands.same_last recorded.last
    exact .inl (Value.same_trans (current committed) (Value.same_trans same same'))
  · rw [stale committed]
    refine (recorded.standing time value' stands).imp_right ?_
    rintro ⟨e, listed, applies', due'⟩
    rcases List.mem_cons.mp (perm.mem_iff.mp listed) with rfl | listed
    · rw [applies] at applies'
      cases applies'
      exact absurd rfl committed
    · exact ⟨e, listed, applies', due'⟩

end Inertia.Recorded

namespace Desk

/-- The updates of a signal are recorded, if it is inertial. -/
def Records (id : SignalId) (updates : List (Nat × Value)) (d : Desk) : Prop :=
  ∀ s i, d.kernel.signal? id = some s → s.inertia = some i → i.Recorded id s.val updates d.queue

/-- Entries of the queue that hold a record of a signal are those before, unless it is updated or
a record comes due. -/
theorem Step.mem_queue_iff {d d' : Desk} {happening : Option Happening}
    (step : Desk.Step d happening d') {id : SignalId}
    (other : ∀ h ∈ happening, h.updateOf? id = none ∧ ∀ value stamp, h ≠ .arrived id value stamp)
    {e : Entry} {value : Value} {stamp : Nat} (applies : e.payload = .apply id value stamp) :
    e ∈ d'.queue.toList ↔ e ∈ d.queue.toList := by
  cases step with
  | @updated k q id' signal found =>
      have apart : id' ≠ id := by
        rintro rfl
        simpa [Happening.updateOf?] using (other _ rfl).1
      dsimp only
      generalize signal.update.2 = commit
      cases commit with
      | deferred delay value' stamp' =>
          refine (EventQueue.toList_push ..).mem_iff.trans (List.mem_cons.trans (or_iff_right ?_))
          rintro rfl
          cases applies
          exact apart rfl
      | unchanged => rfl
      | changed old woken => rfl
  | queued q a ahead =>
      refine (EventQueue.toList_push ..).mem_iff.trans (List.mem_cons.trans (or_iff_right ?_))
      rintro rfl
      cases applies
  | taken k popped =>
      obtain ⟨first, -, wakes, -, perm⟩ := EventQueue.toList_popDue popped
      refine (perm.mem_iff.trans (List.mem_cons.trans (or_iff_right ?_))).symm
      rintro rfl
      cases wakes.symm.trans applies
  | @arrived k q rest time id' value' stamp' popped =>
      obtain ⟨first, -, applies', -, perm⟩ := EventQueue.toList_popDue popped
      refine (perm.mem_iff.trans (List.mem_cons.trans (or_iff_right ?_))).symm
      rintro rfl
      cases applies'.symm.trans applies
      exact (other _ rfl).2 value stamp rfl
  | _ => rfl

theorem Step.of_updated {d d' : Desk} {time : Nat} {id : SignalId} {value : Value}
    (step : Desk.Step d (some (.updated time id value)) d') :
    time = d.kernel.now ∧ ∃ s, d.kernel.signal? id = some s ∧ value = s.next ∧
      d'.queue = d.queue.defer d.kernel.now id s.update.2 := by
  cases step with
  | updated q found => exact ⟨rfl, _, found, rfl, rfl⟩

theorem Step.records {d d' : Desk} {happening : Option Happening}
    (step : Desk.Step d happening d') {id : SignalId} (fine : happening ≠ some (.lost id))
    {updates : List (Nat × Value)} (records : d.Records id updates) :
    d'.Records id (updates ++ happening.toList.filterMap (Happening.updateOf? id)) := by
  intro s' i' found inertial
  have turns := step.turns id
  rw [found] at turns
  generalize here : d.kernel.signal? id = signal at turns
  cases turns with
  | @some s _ turn =>
      -- The signal stays as it is, and so do its records, but for an update or an arrival.
      have others (kept : s'.val = s.val) (inertial' : s.inertia = some i')
          (other : ∀ h ∈ happening,
            h.updateOf? id = none ∧ ∀ value stamp, h ≠ .arrived id value stamp) :
          i'.Recorded id s'.val (updates ++ happening.toList.filterMap (Happening.updateOf? id))
            d'.queue := by
        have none_ : happening.toList.filterMap (Happening.updateOf? id) = [] :=
          List.filterMap_eq_nil_iff.mpr fun h listed => (other h (Option.mem_toList.mp listed)).1
        rw [none_, List.append_nil, kept]
        exact (records s i' here inertial').of_others fun e value stamp applies =>
          step.mem_queue_iff other applies
      cases turn with
      | kept other =>
          refine others rfl inertial fun h happens => ⟨?_, ?_⟩
          · have other := other h happens
            cases h with
            | updated time id' value =>
                exact if_neg fun same => other (congrArg some same)
            | _ => rfl
          · rintro value stamp rfl
            exact other _ happens rfl
      | rewired waits => exact others rfl inertial nofun
      | written next =>
          refine others rfl inertial fun h happens => ?_
          cases happens
          exact ⟨rfl, nofun⟩
      | lost => exact absurd rfl fine
      | updated time =>
          obtain ⟨rfl, s₁, found', -, queue⟩ := step.of_updated
          cases here.symm.trans found'
          cases inertial' : s.inertia with
          | none =>
              rw [Signal.update_of_prompt inertial'] at inertial
              obtain ⟨val, waits, same, -⟩ := s.apply_spec s.next
              rw [same] at inertial
              cases inertial'.symm.trans inertial
          | some i =>
              have recorded := (records s i here inertial').update d.kernel.now s.next
              rw [Signal.update_of_inertial inertial'] at inertial queue ⊢
              cases inertial
              simp only [Option.toList_some, List.filterMap_cons, Happening.updateOf?, if_true,
                List.filterMap_nil]
              rw [queue]
              exact recorded
      | arrived value stamp =>
          have untouched : (some (Happening.arrived id value stamp)).toList.filterMap
            (Happening.updateOf? id) = [] := rfl
          rw [untouched, List.append_nil]
          cases step with
          | @arrived k q rest time _ _ _ popped =>
              obtain ⟨first, -, applies, -, perm⟩ := EventQueue.toList_popDue popped
              cases inertial' : s.inertia with
              | none =>
                  rw [Signal.applyDeferred_of_prompt inertial'] at inertial
                  cases inertial'.symm.trans inertial
              | some i =>
                  have recorded := records s i here inertial'
                  rw [Signal.applyDeferred_of_inertial inertial'] at inertial ⊢
                  obtain ⟨val, waits, same, new, -⟩ := s.apply_spec value
                  by_cases current : i.stamp = stamp
                  · rw [if_pos current, same] at inertial ⊢
                    cases inertial'.symm.trans inertial
                    exact recorded.take applies perm (fun _ => new) (absurd current)
                  · rw [if_neg current] at inertial ⊢
                    cases inertial'.symm.trans inertial
                    exact recorded.take applies perm (fun same => absurd same current) fun _ => rfl

theorem Goes.records {d d' : Desk} {log : List Happening} (goes : Goes d log d') {id : SignalId}
    (fine : ∀ h ∈ log, h ≠ .lost id) {updates : List (Nat × Value)}
    (records : d.Records id updates) :
    d'.Records id (updates ++ log.filterMap (Happening.updateOf? id)) := by
  induction goes generalizing updates with
  | rest d =>
      rw [List.filterMap_nil, List.append_nil]
      exact records
  | step first others ih =>
      obtain ⟨fine, fine'⟩ := List.forall_mem_append.mp fine
      rw [List.filterMap_append, ← List.append_assoc]
      refine ih fine' (first.records (fun same => ?_) records)
      subst same
      exact fine _ (List.mem_singleton_self _) rfl

/-- A course without update phases keeps the records. -/
theorem Goes.records_of_calm {d d' : Desk} {log : List Happening} (goes : Goes d log d')
    (calm : ∀ h ∈ log, h.write?.isSome ∨ h.IsArrival) {id : SignalId}
    {updates : List (Nat × Value)} (records : d.Records id updates) : d'.Records id updates := by
  have untouched : log.filterMap (Happening.updateOf? id) = [] := by
    refine List.filterMap_eq_nil_iff.mpr fun h listed => ?_
    have calm := calm h listed
    cases h <;> first | rfl | simp [Happening.write?, Happening.IsArrival] at calm
  have fine : ∀ h ∈ log, h ≠ .lost id := by
    rintro _ listed rfl
    have calm := calm _ listed
    simp [Happening.write?, Happening.IsArrival] at calm
  have after := goes.records fine records
  rwa [untouched, List.append_nil] at after

/-- Nothing in the queue is overdue. -/
def Ahead (d : Desk) : Prop := ∀ e ∈ d.queue.toList, d.kernel.now ≤ e.time

theorem Step.ahead {d d' : Desk} {happening : Option Happening} (step : Desk.Step d happening d')
    (ahead : d.Ahead) : d'.Ahead := by
  intro e listed
  cases step with
  | @updated k q id signal found =>
      dsimp only at listed
      generalize signal.update.2 = commit at listed
      cases commit with
      | deferred delay value stamp =>
          rcases List.mem_cons.mp ((EventQueue.toList_push ..).mem_iff.mp listed) with rfl | listed
          · exact Nat.le_add_right ..
          · exact ahead e listed
      | unchanged => exact ahead e listed
      | changed old woken => exact ahead e listed
  | queued q a later =>
      rcases List.mem_cons.mp ((EventQueue.toList_push ..).mem_iff.mp listed) with rfl | listed
      · exact later
      · exact ahead e listed
  | taken k popped => exact ahead e (EventQueue.mem_of_popDue popped listed)
  | arrived k popped => exact ahead e (EventQueue.mem_of_popDue popped listed)
  | ticked k undue => exact undue e listed
  | _ => exact ahead e listed

/-- What an inertial signal remembers and has committed changes with updates and arrivals only. -/
theorem Goes.still {d d' : Desk} {log : List Happening} (goes : Goes d log d')
    (writes : ∀ h ∈ log, h.write?.isSome) {id : SignalId} {s : Signal}
    (found : d.kernel.signal? id = some s) :
    ∃ s', d'.kernel.signal? id = some s' ∧ s'.val = s.val ∧ s'.inertia = s.inertia := by
  induction goes generalizing s with
  | rest d => exact ⟨s, found, rfl, rfl⟩
  | @step d d' d'' happening log first others ih =>
      have turns := first.turns id
      rw [found] at turns
      generalize here : d'.kernel.signal? id = signal at turns
      obtain ⟨writes, later⟩ := List.forall_mem_append.mp writes
      cases turns with
      | @some _ s₁ turn =>
          obtain ⟨s', found', val, inertia⟩ := ih later here
          have still : s₁.val = s.val ∧ s₁.inertia = s.inertia := by
            cases turn with
            | kept other => exact ⟨rfl, rfl⟩
            | rewired waits => exact ⟨rfl, rfl⟩
            | written next => exact ⟨rfl, rfl⟩
            | _ => simp [Happening.write?] at writes
          exact ⟨s', found', val.trans still.1, inertia.trans still.2⟩

end Desk

/-! ## Drains -/

namespace Simulation

/-- A transition makes a change of its signal at the current tick. -/
theorem changeOf?_spec {s : Simulation σ ω} {id : SignalId} {f : Signal → Signal × Commit}
    {c : Change} (changes : s.changeOf? id f = some c) :
    c.signal = id ∧ c.time = s.kernel.now ∧ ∃ signal, s.kernel.signal? id = some signal ∧
      c.new = (f signal).1.val ∧ ∃ woken, (f signal).2 = .changed c.old woken := by
  unfold changeOf? at changes
  cases found : s.kernel.signal? id with
  | none => simp [found] at changes
  | some signal =>
      simp only [found] at changes
      split at changes
      · next signal' old woken applied =>
          cases changes
          exact ⟨rfl, rfl, signal, rfl, by rw [applied], woken, by rw [applied]⟩
      · cases changes

theorem changeOf?_of_unchanged {s : Simulation σ ω} {id : SignalId} {signal signal' : Signal}
    {f : Signal → Signal × Commit} (found : s.kernel.signal? id = some signal)
    (kept : f signal = (signal', .unchanged)) : s.changeOf? id f = none := by
  simp only [changeOf?, found, kept]

theorem changeOf?_of_changed {s : Simulation σ ω} {id : SignalId} {signal signal' : Signal}
    {f : Signal → Signal × Commit} {old : Value} {woken : List Arming}
    (found : s.kernel.signal? id = some signal) (changed : f signal = (signal', .changed old woken)) :
    s.changeOf? id f =
      some { time := s.kernel.now, signal := id, name := signal'.name, old, new := signal'.val } := by
  simp only [changeOf?, found, changed]

/-- No update phase changes an inertial signal. -/
theorem commits_of_inertial {s : Simulation σ ω} {id : SignalId} {signal : Signal}
    (found : s.kernel.signal? id = some signal) (inertial : signal.inertia ≠ none) :
    ∀ c ∈ s.commits, c.signal ≠ id := by
  have each (ids : List SignalId) (s : Simulation σ ω) (signal : Signal)
      (found : s.kernel.signal? id = some signal) (inertial : signal.inertia ≠ none) :
      ∀ c ∈ s.updates ids, c.signal ≠ id := by
    induction ids generalizing s signal with
    | nil => exact fun c listed => absurd listed List.not_mem_nil
    | cons id' rest ih =>
        rw [updates]
        obtain ⟨i, inertial'⟩ := Option.ne_none_iff_exists'.mp inertial
        refine List.forall_mem_append.mpr ⟨fun c changes about => ?_, ?_⟩
        · obtain ⟨same, -, signal', found', -, woken, changed⟩ :=
            changeOf?_spec (Option.mem_toList.mp changes)
          cases about.symm.trans same
          cases found.symm.trans found'
          rw [Signal.update_of_inertial inertial'] at changed
          cases changed
        · have kernel := kernel_step s id' Signal.update
          have found' := Kernel.signal?_modify s.kernel id' (fun s => s.update.1) id
          rw [← kernel, found] at found'
          split at found'
          · refine ih _ signal.update.1 found' ?_
            rw [Signal.update_of_inertial inertial']
            exact Option.some_ne_none _
          · exact ih _ signal found' inertial
  exact each _ { s with kernel := { s.kernel with pending := [] } } signal found inertial

theorem time_of_arrivals (s : Simulation σ ω) (count time : Nat) :
    ∀ c ∈ s.arrivals count time, c.time = s.kernel.now := by
  induction count generalizing s with
  | zero => exact fun c listed => absurd listed List.not_mem_nil
  | succ count ih =>
      rw [arrivals]
      cases s.queue.popDue time with
      | none => exact fun c listed => absurd listed List.not_mem_nil
      | some due =>
          obtain ⟨payload, queue⟩ := due
          dsimp only
          cases payload with
          | wake a => exact ih _
          | apply id value stamp =>
              have same := now_step { s with queue } id fun signal =>
                signal.applyDeferred value stamp
              refine List.forall_mem_append.mpr ⟨fun c changes => ?_, fun c listed => ?_⟩
              · exact (changeOf?_spec (Option.mem_toList.mp changes)).2.1
              · exact (ih _ c listed).trans same

/-- An entry of the queue leaves an inertial signal as it is, or it is a record of the signal with
the current stamp and changes the signal to its value. -/
theorem fire_cases (s : Simulation σ ω) (payload : Payload) {id : SignalId} {signal : Signal}
    {i : Inertia} (found : s.kernel.signal? id = some signal) (inertial : signal.inertia = some i) :
    ∃ signal', (s.fire payload).1.kernel.signal? id = some signal' ∧ signal'.inertia = some i ∧
      (signal'.val = signal.val ∧ (∀ c ∈ s.changeOfPayload? payload, c.signal ≠ id) ∨
        payload = .apply id signal'.val i.stamp ∧ signal.val.same signal'.val = false ∧
          ∃ c, s.changeOfPayload? payload = some c ∧ c.signal = id ∧ c.new = signal'.val) := by
  cases payload with
  | wake a => exact ⟨signal, found, inertial, .inl ⟨rfl, nofun⟩⟩
  | apply id' value stamp =>
      have kernel := kernel_step s id' fun signal => signal.applyDeferred value stamp
      have after : (s.fire (.apply id' value stamp)).1.kernel.signal? id =
          if id' = id then some (signal.applyDeferred value stamp).1 else some signal := by
        have modified := Kernel.signal?_modify s.kernel id'
          (fun signal => (signal.applyDeferred value stamp).1) id
        rw [found] at modified
        exact (congrArg (·.signal? id) kernel).trans modified
      have about : ∀ c ∈ s.changeOfPayload? (.apply id' value stamp), c.signal = id' :=
        fun c changes => (changeOf?_spec changes).1
      by_cases here : id' = id
      · subst here
        rw [if_pos rfl] at after
        have applied := Signal.applyDeferred_of_inertial inertial value stamp
        have still (kept : signal.applyDeferred value stamp = (signal, .unchanged)) :
            ∀ c ∈ s.changeOfPayload? (.apply id' value stamp), c.signal ≠ id' := by
          rw [changeOfPayload?, changeOf?_of_unchanged found kept]
          nofun
        by_cases current : i.stamp = stamp
        · rw [if_pos current] at applied
          rcases signal.apply_cases value with ⟨-, kept⟩ | ⟨other, waits, woken, changed⟩
          · rw [kept] at applied
            rw [applied] at after
            exact ⟨signal, after, inertial, .inl ⟨rfl, still applied⟩⟩
          · rw [changed] at applied
            rw [applied] at after
            have change := changeOf?_of_changed
              (f := fun signal => signal.applyDeferred value stamp) found applied
            exact ⟨_, after, inertial, .inr ⟨by rw [current], other, _, change, rfl, rfl⟩⟩
        · rw [if_neg current] at applied
          rw [applied] at after
          exact ⟨signal, after, inertial, .inl ⟨rfl, still applied⟩⟩
      · rw [if_neg here] at after
        refine ⟨signal, after, inertial, .inl ⟨rfl, fun c changes same => here ?_⟩⟩
        exact (about c changes).symm.trans same

/-- A drain changes an inertial signal to the values that stood for its whole delay. -/
theorem mem_arrivals_iff {s s' : Simulation σ ω} {count time : Nat} {id : SignalId}
    {signal : Signal} {i : Inertia} {updates : List (Nat × Value)} (enough : s.queue.size ≤ count)
    (ahead : ∀ e ∈ s.queue.toList, time ≤ e.time) (records : s.desk.Records id updates)
    (found : s.kernel.signal? id = some signal) (inertial : signal.inertia = some i)
    (drained : drainUpTo count s time = (s', .ok ())) (v : Value) :
    (∃ c ∈ s.arrivals count time, c.signal = id ∧ c.new.same v = true) ↔
      signal.val.same v = false ∧ Stood updates i.delay time v := by
  induction count generalizing s signal with
  | zero =>
      have idle := EventQueue.popDue_of_empty (Nat.le_zero.mp enough) time
      refine iff_of_false (by simp [arrivals]) ((records signal i found inertial).committed ?_)
      exact fun e listed => (Nat.ne_of_lt (EventQueue.lt_of_popDue idle ahead listed)).symm
  | succ count ih =>
      rw [drainUpTo] at drained
      rw [arrivals]
      cases popped : s.queue.popDue time with
      | none =>
          refine iff_of_false (by simp) ((records signal i found inertial).committed ?_)
          exact fun e listed => (Nat.ne_of_lt (EventQueue.lt_of_popDue popped ahead listed)).symm
      | some taken =>
          obtain ⟨payload, queue⟩ := taken
          obtain ⟨first, due, applies, -, perm⟩ := EventQueue.toList_popDue popped
          obtain ⟨log, arrivals, fires⟩ := does_fire popped
          have records' :=
            fires.goes.records_of_calm (fun h listed => .inr (arrivals h listed)) records
          obtain ⟨enough', ahead'⟩ := left_of_fire popped enough ahead
          obtain ⟨signal', found', inertial', turn⟩ :=
            fire_cases { s with queue } payload found inertial
          simp only [popped] at drained ⊢
          generalize changeOfPayload? { s with queue } payload = change at turn ⊢
          clear fires
          generalize fire { s with queue } payload = result at *
          obtain ⟨s₁, e | ⟨⟩⟩ := result
          · cases drained
          · dsimp only at found' records' ⊢
            -- The rest is drained from there on.
            have rest := ih (s := s₁) enough' ahead' records' found' inertial' drained
            simp only [List.mem_append, Option.mem_toList, or_and_right, exists_or]
            rw [rest]
            rcases turn with ⟨val, other⟩ | ⟨rfl, other, c, rfl, about, new⟩
            · rw [val, or_iff_right]
              rintro ⟨c, changes, about, -⟩
              exact other c changes about
            · obtain ⟨-, current⟩ := (records signal i found inertial).stamped first
                (perm.mem_iff.mpr (List.mem_cons_self ..)) _ _ applies
              obtain ⟨t, at_, stands⟩ := current rfl
              have last := (records signal i found inertial).last
              have agrees {t' : Nat} {w : Value} (stands' : Stands updates t' w) :
                  signal'.val.same w = true :=
                Value.same_trans (Value.same_symm (stands.same_last last)) (stands'.same_last last)
              constructor
              · rintro (⟨c', same', -, same⟩ | ⟨apart, t', w, -, same, stands'⟩)
                · cases same'
                  rw [new] at same
                  refine ⟨Bool.eq_false_iff.mpr fun same' => ?_, t, _, by omega, same, stands⟩
                  have held := Value.same_trans same' (Value.same_symm same)
                  exact absurd held (Bool.eq_false_iff.mp other)
                · have same' := Value.same_trans (agrees stands') same
                  exact absurd same' (Bool.eq_false_iff.mp apart)
              · rintro ⟨-, t', w, -, same, stands'⟩
                refine .inl ⟨c, rfl, about, ?_⟩
                rw [new]
                exact Value.same_trans (agrees stands') same

/-! ## Courses without failure -/

variable {B : Behaviours σ ω}

/-- The rounds of a simulation, over all its runs, in which nothing failed, with the updates that
were made in them. The simulation is the one after the last round. -/
inductive Course (B : Behaviours σ ω) : List Happening → Simulation σ ω → Prop where
  | first {kernel : Kernel} {instances : List (Instance σ ω)} {world : ω}
      {s s₁ m s' : Simulation σ ω} {fuel : Nat} (built : build B kernel instances world = .ok s)
      (adjusted : s.Adjusts s₁) (committed : s₁.commitPending = (m, .ok ()))
      (ran : runReady B fuel m (.ok ()) = .ok (s', .ok ())) :
      Course B (logOfUpdates s₁.kernel.now s₁.updated) s'
  | next {log : List Happening} {s s₁ m s' : Simulation σ ω} {cap : Option Nat} {fuel : Nat}
      (course : Course B log s) (running : s.kernel.stopRequest = none) (goesOn : s.GoesOn cap s₁)
      (committed : s₁.commitPending = (m, .ok ()))
      (ran : runReady B fuel m (.ok ()) = .ok (s', .ok ())) :
      Course B (log ++ logOfUpdates s₁.kernel.now s₁.updated) s'

/-- In a cycle that does not fail nobody fails, and then the run goes on or is asked to end. -/
theorem round_of_cycle {s s' : Simulation σ ω} {fuel : Nat} {cap : Option Nat} {verdict : Verdict}
    (turned : s.cycle B fuel cap = .ok (s', verdict)) (fine : ∀ e, verdict ≠ .ended (.error e)) :
    ∃ m s₁, s.commitPending = (m, .ok ()) ∧ runReady B fuel m (.ok ()) = .ok (s₁, .ok ()) ∧
      (s₁.kernel.stopRequest = none ∧ s₁.proceed cap = (s', verdict) ∨
        s₁.wrapUp (.ok ()) = (s', verdict)) := by
  cases way_of_cycle turned with
  | refused committed => exact absurd rfl (fine _)
  | proceeded committed ran running went => exact ⟨_, _, committed, ran, .inl ⟨running, went⟩⟩
  | @wrapped m s₁ failure _ committed ran stops ends =>
      cases failure with
      | error e =>
          have failed : (s₁.wrapUp (.error e)).2 = .ended (.error e) := rfl
          rw [ends] at failed
          exact absurd failed (fine e)
      | ok _ => exact ⟨m, s₁, committed, ran, .inr ends⟩

/-- The rounds of a loop that does not fail are a course, and the loop ends after the last one. -/
theorem course_of_loop {log : List Happening} {s s₂ : Simulation σ ω} {fuel : Nat}
    {cap : Option Nat} {outcome : Outcome}
    (plays : ∀ m fuel s', s.commitPending = (m, .ok ()) →
      runReady B fuel m (.ok ()) = .ok (s', .ok ()) →
      Course B (log ++ logOfUpdates s.kernel.now s.updated) s')
    (looped : loop B fuel s cap = .ok (s₂, .ok outcome)) :
    ∃ more s', Course B (log ++ more) s' ∧ (s'.proceed cap = (s₂, .ended (.ok outcome)) ∨
      s'.wrapUp (.ok ()) = (s₂, .ended (.ok outcome))) := by
  replace looped := way_of_loop looped
  induction looped generalizing log with
  | @ended fuel s turned =>
      obtain ⟨m, s', committed, ran, ends⟩ := round_of_cycle turned fun e same => by cases same
      exact ⟨_, s', plays m (fuel + 1) s' committed ran, ends.imp_left And.right⟩
  | @again fuel s s₁ turned further ih =>
      obtain ⟨m, s', committed, ran, ends⟩ := round_of_cycle turned fun e same => by cases same
      have course := plays m (fuel + 1) s' committed ran
      obtain ⟨running, went⟩ := ends.resolve_right fun wrapped => by
        obtain ⟨result, ended, -⟩ := ended_of_wrapUp s' (.ok ())
        rw [wrapped] at ended
        cases ended
      obtain ⟨more, s'', course', ends'⟩ := ih fun m fuel s'' => course.next running (.again went)
      rw [List.append_assoc] at course'
      exact ⟨_, s'', course', ends'⟩

/-- A round keeps the records of the updates. -/
theorem records_of_round {s m s' : Simulation σ ω} {fuel : Nat} (staffed : s.Staffed)
    (ahead : s.desk.Ahead) (committed : s.commitPending = (m, .ok ()))
    (ran : runReady B fuel m (.ok ()) = .ok (s', .ok ())) :
    s'.Staffed ∧ s'.desk.Ahead ∧ ∀ id updates, s.desk.Records id updates →
      s'.desk.Records id (updates ++
        (logOfUpdates s.kernel.now s.updated).filterMap (Happening.updateOf? id)) := by
  have commits := does_commitPending_ok committed
  have staffed₁ := commits.staffed staffed
  have runs := does_runReady staffed₁ ran
  refine ⟨runs.staffed staffed₁, ?_, fun id updates records => ?_⟩
  · exact (commits.goes.trans runs.goes).keeps (fun step ahead => step.ahead ahead) ahead
  · have fine : ∀ h ∈ Happening.collected :: logOfUpdates s.kernel.now s.updated, h ≠ .lost id := by
      rintro _ listed rfl
      rcases List.mem_cons.mp listed with same | listed
      · cases same
      · obtain ⟨update, -, same⟩ := List.mem_map.mp listed
        cases same
    refine runs.goes.records_of_calm (fun h listed => ?_) (commits.goes.records fine records)
    obtain ⟨write, -, rfl⟩ := List.mem_map.mp listed
    exact .inl rfl

theorem Course.records {log : List Happening} {s : Simulation σ ω} (course : Course B log s) :
    s.Staffed ∧ s.desk.Ahead ∧
      ∀ id, s.desk.Records id (log.filterMap (Happening.updateOf? id)) := by
  induction course with
  | @first kernel instances world s s₁ m s' fuel built adjusted committed ran =>
      have same : s₁.office = s.office := office_adjusts adjusted
      have staffed := (Does.of_office same).staffed (staffed_build built)
      have desk : s₁.desk = ⟨kernel, {}⟩ := (congrArg Prod.fst same).trans (desk_build built)
      have ahead : s₁.desk.Ahead := by
        rw [desk]
        exact fun e listed => absurd listed List.not_mem_nil
      obtain ⟨staffed', ahead', kept⟩ := records_of_round staffed ahead committed ran
      refine ⟨staffed', ahead', fun id => ?_⟩
      have start : s₁.desk.Records id [] := by
        rw [desk]
        refine fun s i found inertial => ⟨nofun, fun e listed => ?_, fun t w stands => ?_⟩
        · exact absurd listed List.not_mem_nil
        · exact absurd stands (not_stands_nil t w)
      exact kept id [] start
  | @next log s s₁ m s' cap fuel course running goesOn committed ran ih =>
      obtain ⟨staffed, ahead, records⟩ := ih
      obtain ⟨arrived, arrivals, does⟩ := goesOn.does
      have staffed₁ := does.staffed staffed
      have ahead₁ := does.goes.keeps (fun step ahead => step.ahead ahead) ahead
      obtain ⟨staffed', ahead', kept⟩ := records_of_round staffed₁ ahead₁ committed ran
      refine ⟨staffed', ahead', fun id => ?_⟩
      rw [List.filterMap_append]
      refine kept id _ (does.goes.records_of_calm (fun h listed => ?_) (records id))
      rcases List.mem_append.mp listed with listed | listed
      · obtain ⟨write, -, rfl⟩ := List.mem_map.mp listed
        exact .inl rfl
      · exact .inr (arrivals h listed)

/-- An advance to the next tick changes an inertial signal to the values that stood for its whole
delay. -/
theorem mem_advance_iff {s s' : Simulation σ ω} {id : SignalId} {signal : Signal} {i : Inertia}
    {updates : List (Nat × Value)} {time : Nat} (next : s.queue.nextTime? = some time)
    (advanced : s.advanceTo time = (s', .ok ())) (records : s.desk.Records id updates)
    (found : s.kernel.signal? id = some signal) (inertial : signal.inertia = some i) :
    (∀ c ∈ arrivals s.queue.size (s.moveClock time).1 time, c.time = time) ∧
      ∀ v, (∃ c ∈ arrivals s.queue.size (s.moveClock time).1 time,
          c.signal = id ∧ c.new.same v = true) ↔
        signal.val.same v = false ∧ Stood updates i.delay time v := by
  have undue : ∀ e ∈ s.queue.toList, time ≤ e.time :=
    fun e listed => EventQueue.le_of_nextTime? next listed
  have moves := s.does_moveClock undue
  obtain ⟨now, delta, deltas, timeSteps, moved⟩ := moveClock_spec s time
  have queue : (s.moveClock time).1.queue = s.queue := by rw [moved]
  obtain ⟨m, d, clock, drained, -⟩ := parts_of_advanceTo advanced
  rw [clock] at moves queue ⊢
  dsimp only at queue ⊢
  have records₁ := moves.goes.records_of_calm nofun records
  obtain ⟨signal', found', val, inertia⟩ := moves.goes.still nofun found
  rw [← queue] at undue ⊢
  refine ⟨fun c listed => ?_, fun v => ?_⟩
  · exact (time_of_arrivals _ _ _ c listed).trans (now_moveClock clock)
  · rw [← val]
    exact mem_arrivals_iff (Nat.le_refl _) undue records₁ found' (inertia.trans inertial) drained v

/-- What leaves a tick, unless it fails, changes an inertial signal to the values that stood for
its whole delay. -/
theorem mem_departure_iff {s s' : Simulation σ ω} {cap : Option Nat} {verdict : Verdict}
    {id : SignalId} {signal : Signal} {i : Inertia} {updates : List (Nat × Value)}
    (left : s.leaveTick cap = (s', verdict)) (fine : ∀ e, verdict ≠ .ended (.error e))
    (records : s.desk.Records id updates) (found : s.kernel.signal? id = some signal)
    (inertial : signal.inertia = some i) :
    (∀ c ∈ (s.departure cap).2, (s.departure cap).1 = some c.time) ∧
      ∀ v, (∃ c ∈ (s.departure cap).2, c.signal = id ∧ c.new.same v = true) ↔
        signal.val.same v = false ∧
          ∃ time, (s.departure cap).1 = some time ∧ Stood updates i.delay time v := by
  rw [departure_eq]
  have way := way_of_leaveTick left
  generalize s.onward? cap = onward at way
  cases way with
  | held here | exhausted elsewhere last | stopped elsewhere next present before => simp
  | failed elsewhere next inTime advanced => exact absurd rfl (fine _)
  | advanced elsewhere next inTime advanced =>
      obtain ⟨times, values⟩ := mem_advance_iff next advanced records found inertial
      refine ⟨fun c listed => congrArg some (times c listed).symm, fun v => ?_⟩
      simp only [Option.elim_some, Option.some.injEq, exists_eq_left']
      exact values v

/-- On the way from a round to the next one, unless it fails, an inertial signal is changed to the
values that stood for its whole delay. -/
theorem mem_passage_iff {s s' : Simulation σ ω} {cap : Option Nat} {verdict : Verdict}
    {id : SignalId} {signal : Signal} {i : Inertia} {updates : List (Nat × Value)}
    (went : s.proceed cap = (s', verdict)) (fine : ∀ e, verdict ≠ .ended (.error e))
    (records : s.desk.Records id updates) (found : s.kernel.signal? id = some signal)
    (inertial : signal.inertia = some i) :
    (∀ c ∈ (s.passage cap).2, (s.passage cap).1 = some c.time) ∧
      ∀ v, (∃ c ∈ (s.passage cap).2, c.signal = id ∧ c.new.same v = true) ↔
        signal.val.same v = false ∧
          ∃ time, (s.passage cap).1 = some time ∧ Stood updates i.delay time v := by
  obtain ⟨writes, exchanges, -⟩ := s.does_exchange
  rw [passage_eq]
  have way := s.way_of_proceed
  generalize s.settled? = settled at way
  cases way with
  | failed exchanged proceeds =>
      cases (proceeds cap).symm.trans went
      exact absurd rfl (fine _)
  | entered exchanged proceeds => simp
  | @settled m exchanged pending proceeds =>
      rw [exchanged] at exchanges
      have quiet := exchanges.quietly m.does_purge
      have written : ∀ h ∈ logOfWrites writes, h.write?.isSome := by
        intro h listed
        obtain ⟨write, -, rfl⟩ := List.mem_map.mp listed
        rfl
      have records' := quiet.goes.records_of_calm (fun h listed => .inl (written h listed)) records
      obtain ⟨signal', found', val, inertia⟩ := quiet.goes.still written found
      rw [← val]
      exact mem_departure_iff ((proceeds cap).symm.trans went) fine records' found'
        (inertia.trans inertial)

/-- Inertial delay is exact. On the way from a round to the next one, a signal with a delay is
changed to a value if and only if its committed value is another one and an update of the signal
as long ago as the delay proposed the value, and every later one proposed the same. No commit phase
changes it. Time does not go past the end of the delay of an update that stands while the signal has
another value. -/
theorem inertial_delay_is_exact {log : List Happening} {s s' : Simulation σ ω} {cap : Option Nat}
    {verdict : Verdict} {id : SignalId} {signal : Signal} {i : Inertia} (course : Course B log s)
    (went : s.proceed cap = (s', verdict)) (fine : ∀ e, verdict ≠ .ended (.error e))
    (found : s.kernel.signal? id = some signal) (inertial : signal.inertia = some i) :
    (∀ c ∈ (s.passage cap).2, (s.passage cap).1 = some c.time) ∧
    (∀ v, (∃ c ∈ (s.passage cap).2, c.signal = id ∧ c.new.same v = true) ↔
      signal.val.same v = false ∧ ∃ time, (s.passage cap).1 = some time ∧
        Stood (log.filterMap (Happening.updateOf? id)) i.delay time v) ∧
    (∀ s₁, s₁ = s ∨ s.GoesOn cap s₁ → ∀ c ∈ s₁.commits, c.signal ≠ id) ∧
    ∀ start proposed, Stands (log.filterMap (Happening.updateOf? id)) start proposed →
      start + i.delay < s'.kernel.now →
      ∃ v, s'.kernel.val? id = some v ∧ v.same proposed = true := by
  obtain ⟨-, ahead, records⟩ := course.records
  obtain ⟨times, values⟩ := mem_passage_iff went fine (records id) found inertial
  refine ⟨times, values, ?_, fun start proposed stands past => ?_⟩
  · rintro s₁ (rfl | goesOn)
    · exact commits_of_inertial found (by simp [inertial])
    · obtain ⟨arrived, -, does⟩ := goesOn.does
      obtain ⟨signal', found', same⟩ := does.goes.extends id signal found
      refine commits_of_inertial found' fun prompt => ?_
      cases inertial.symm.trans ((Signal.inertia_of_design same).mp prompt)
  · obtain ⟨writes, arrived, arrivals, proceeds, -⟩ := s.does_proceed cap
    rw [went] at proceeds
    have calm : ∀ h ∈ logOfWrites writes ++ arrived, h.write?.isSome ∨ h.IsArrival := by
      refine List.forall_mem_append.mpr ⟨fun h listed => ?_, fun h listed => .inr (arrivals h listed)⟩
      obtain ⟨write, -, rfl⟩ := List.mem_map.mp listed
      exact .inl rfl
    obtain ⟨signal', found', same⟩ := proceeds.goes.extends id signal found
    have delay := Signal.delay_of_design same
    rw [inertial, Option.map_some, Option.map_eq_some_iff] at delay
    obtain ⟨i', inertial', delay⟩ := delay
    have recorded := proceeds.goes.records_of_calm calm (records id) signal' i' found' inertial'
    refine ⟨signal'.val, congrArg (Option.map Signal.val) found', ?_⟩
    refine (recorded.standing start proposed stands).resolve_right ?_
    rintro ⟨e, listed, -, due⟩
    have ahead' := proceeds.goes.keeps (fun step ahead => step.ahead ahead) ahead e listed
    rw [due, delay] at ahead'
    exact absurd past (Nat.not_lt.mpr ahead')

/-- A valve that follows what is proposed after two ticks. -/
def valve : Kernel := (Kernel.declare {} "valve" (.bool false) (some 2)).2

/-- A hand that opens the valve. -/
def hand : Behaviours Unit Unit where
  name _ := "hand"
  resume _ := (Activity.setNext ⟨0⟩ (.bool true)).bind fun _ => .done .done
  react _ := .done ()

/-- A simulation of the hand and the valve. -/
def plumbing : Simulation Unit Unit :=
  ({ kernel := valve, world := () } : Simulation Unit Unit).addWaiter "hand" (.process ()) none

/-- The simulation after a round. -/
def afterRound (s : Simulation Unit Unit) : Simulation Unit Unit :=
  match runReady hand 9 s.commitPending.1 (.ok ()) with
  | .ok (s', _) => s'
  | .error _ => s

/-- Whether nothing fails in a round. -/
def playsWell (s : Simulation Unit Unit) : Bool :=
  match s.commitPending.2, runReady hand 9 s.commitPending.1 (.ok ()) with
  | .ok _, .ok (_, .ok _) => true
  | _, _ => false

theorem plays_of_playsWell {s : Simulation Unit Unit} (well : s.playsWell = true) :
    s.commitPending = (s.commitPending.1, .ok ()) ∧
      runReady hand 9 s.commitPending.1 (.ok ()) = .ok (s.afterRound, .ok ()) := by
  unfold playsWell at well
  unfold afterRound
  split at well
  · next fine ran =>
      rw [ran]
      exact ⟨Prod.ext rfl fine, rfl⟩
  · cases well

/-- Whether a run goes on. -/
def Verdict.goesOn : Verdict → Bool
  | .again => true
  | .ended _ => false

theorem proceed_of_goesOn {s : Simulation Unit Unit} (goesOn : (s.proceed none).2.goesOn = true) :
    s.proceed none = ((s.proceed none).1, .again) := by
  generalize s.proceed none = result at goesOn ⊢
  obtain ⟨s', _ | _⟩ := result
  · rfl
  · cases goesOn

/-- The valve opens two ticks after the hand proposed it. -/
theorem the_valve_opens_after_two_ticks :
    ∃ log s s', Course hand log s ∧ s.proceed none = (s', .again) ∧ (s.passage none).1 = some 2 ∧
      ∃ c ∈ (s.passage none).2, c.signal = ⟨0⟩ ∧ c.new.same (.bool true) = true := by
  obtain ⟨committed₁, ran₁⟩ := plays_of_playsWell (s := plumbing) (by decide +kernel)
  have built : build hand valve [.process ()] () = .ok plumbing := rfl
  have first := Course.first built (.refl _) committed₁ ran₁
  have went₁ := proceed_of_goesOn (s := plumbing.afterRound) (by decide +kernel)
  obtain ⟨committed₂, ran₂⟩ :=
    plays_of_playsWell (s := (plumbing.afterRound.proceed none).1) (by decide +kernel)
  have course := first.next (by decide +kernel) (.again went₁) committed₂ ran₂
  have went₂ := proceed_of_goesOn (s := (plumbing.afterRound.proceed none).1.afterRound)
    (by decide +kernel)
  refine ⟨_, _, _, course, went₂, by decide +kernel, ?_⟩
  have shut : ((plumbing.afterRound.proceed none).1.afterRound.kernel.signal? ⟨0⟩).map
      (fun signal => (signal.val, signal.inertia)) =
        some (.bool false, some ⟨2, 1, .bool true⟩) := by decide +kernel
  obtain ⟨signal, found, same⟩ := Option.map_eq_some_iff.mp shut
  obtain ⟨val, inertial⟩ := Prod.mk.inj same
  have exact_ := inertial_delay_is_exact course went₂ nofun found inertial
  refine (exact_.2.1 (.bool true)).mpr ⟨by rw [val]; rfl, 2, by decide +kernel, ?_⟩
  refine ⟨0, .bool true, rfl, rfl, [], [], ?_, fun update listed => absurd listed List.not_mem_nil⟩
  decide +kernel

end Simulation

end DeltaCycle
