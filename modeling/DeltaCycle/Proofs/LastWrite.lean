import DeltaCycle.Proofs.Reach

/-!
# Atomic delta cycles

No committed value changes while the waiters of a round run, and what they read in the next round
is what was written last. That rests on one invariant: the committed value of a signal without
delay is the proposed one, unless the signal is pending.
-/

set_option autoImplicit false

namespace DeltaCycle

variable {σ ω α : Type}

/-- The value that was written to a signal last. -/
def lastWritten (id : SignalId) (writes : List (SignalId × Value)) : Option Value :=
  ((writes.filter fun write => write.1 == id).map Prod.snd).getLast?

theorem lastWritten_append (id : SignalId) (first second : List (SignalId × Value)) :
    lastWritten id (first ++ second) = (lastWritten id second).or (lastWritten id first) := by
  simp only [lastWritten, List.filter_append, List.map_append, List.getLast?_append]

/-! ## Proposed values -/

namespace Signal

variable {id : SignalId} {s s' : Signal} {happening : Option Happening}

theorem next_update (s : Signal) : s.update.1.next = s.next := by
  cases inertia : s.inertia with
  | none =>
      obtain ⟨val, waits, same, -⟩ := s.apply_spec s.next
      rw [update_of_prompt inertia, same]
  | some i => rw [update_of_inertial inertia]

theorem next_applyDeferred (s : Signal) (value : Value) (stamp : Nat) :
    (s.applyDeferred value stamp).1.next = s.next := by
  cases inertia : s.inertia with
  | none => rw [applyDeferred_of_prompt inertia]
  | some i =>
      rw [applyDeferred_of_inertial inertia]
      split
      · obtain ⟨val, waits, same, -⟩ := s.apply_spec value
        rw [same]
      · rfl

/-- The proposed value of a signal is the one that was written last. -/
theorem Turns.next (turns : s.Turns id happening s') :
    s'.next = (lastWritten id (happening.toList.filterMap Happening.write?)).getD s.next := by
  cases turns with
  | kept other =>
      cases happening with
      | none => rfl
      | some h =>
          have other := other h rfl
          cases h with
          | written id' value =>
              have apart : (id' == id) = false :=
                beq_eq_false_iff_ne.mpr fun same => other (congrArg some same)
              simp [lastWritten, Happening.write?, apart]
          | _ => rfl
  | rewired waits => rfl
  | written next => simp [lastWritten, Happening.write?]
  | updated time => exact s.next_update
  | lost => exact s.next_update
  | arrived value stamp => exact s.next_applyDeferred value stamp

theorem Turns.inertia_eq_none (turns : s.Turns id happening s') :
    s'.inertia = none ↔ s.inertia = none :=
  inertia_of_design turns.design

end Signal

namespace Desk

theorem Goes.next {d d' : Desk} {log : List Happening} (goes : Goes d log d') {id : SignalId}
    {s : Signal} (found : d.kernel.signal? id = some s) :
    ∃ s', d'.kernel.signal? id = some s' ∧ (s'.inertia = none ↔ s.inertia = none) ∧
      s'.next = (lastWritten id (log.filterMap Happening.write?)).getD s.next := by
  induction goes generalizing s with
  | rest d => exact ⟨s, found, .rfl, rfl⟩
  | @step d d' d'' happening log first others ih =>
      have turns := first.turns id
      rw [found] at turns
      generalize here : d'.kernel.signal? id = signal at turns
      cases turns with
      | @some _ s₁ turn =>
          obtain ⟨s', found', prompt, next⟩ := ih here
          refine ⟨s', found', prompt.trans turn.inertia_eq_none, ?_⟩
          rw [next, turn.next, List.filterMap_append, lastWritten_append]
          cases lastWritten id (log.filterMap Happening.write?) <;> rfl

end Desk

/-! ## The invariant -/

namespace Kernel

/-- A signal without delay that is not pending has its proposed value committed. -/
def Settled (k : Kernel) : Prop :=
  ∀ id s, k.signal? id = some s → s.inertia = none → id ∈ k.pending ∨ s.val.same s.next = true

/-- Nothing is pending, and every signal without delay has its proposed value committed. -/
structure UpToDate (k : Kernel) : Prop where
  pending : k.pending = []
  same : ∀ id s, k.signal? id = some s → s.inertia = none → s.val.same s.next = true

theorem UpToDate.settled {k : Kernel} (upToDate : k.UpToDate) : k.Settled :=
  fun id s found prompt => .inr (upToDate.same id s found prompt)

theorem Settled.upToDate {k : Kernel} (settled : k.Settled) (pending : k.pending = []) :
    k.UpToDate := by
  refine ⟨pending, fun id s found prompt => (settled id s found prompt).resolve_left ?_⟩
  rw [pending]
  exact List.not_mem_nil

theorem AtStart.upToDate {k : Kernel} (atStart : k.AtStart) : k.UpToDate := by
  refine ⟨atStart.pending, fun id s found prompt => ?_⟩
  rw [← atStart.signal found]
  exact s.init.same_self

end Kernel

theorem Signal.Turns.settled {id : SignalId} {s s' : Signal} {happening : Option Happening}
    (turns : s.Turns id happening s') (unwritten : ∀ h ∈ happening, ∀ v, h ≠ .written id v)
    (prompt : s.inertia = none) (same : s.val.same s.next = true) :
    s'.val.same s'.next = true := by
  have updated : s.update.1.val.same s.update.1.next = true := by
    obtain ⟨val, waits, applied, new, -⟩ := s.apply_spec s.next
    rw [update_of_prompt prompt, applied]
    exact new
  cases turns with
  | kept other => exact same
  | rewired waits => exact same
  | written next => exact absurd rfl (unwritten _ rfl next)
  | updated time => exact updated
  | lost => exact updated
  | arrived value stamp =>
      rw [applyDeferred_of_prompt prompt]
      exact same

/-- Every step keeps the invariant, except that a commit phase collects what is pending. -/
theorem Desk.Step.settled {d d' : Desk} {happening : Option Happening}
    (step : Desk.Step d happening d') (others : happening ≠ some .collected)
    (settled : d.kernel.Settled) : d'.kernel.Settled := by
  intro id s' found prompt
  have turns := step.turns id
  rw [found] at turns
  generalize here : d.kernel.signal? id = signal at turns
  cases turns with
  | @some s _ turn =>
      have prompt' := turn.inertia_eq_none.mp prompt
      have pending : id ∈ d.kernel.pending → id ∈ d'.kernel.pending := by
        intro listed
        cases step with
        | marked k q id' => exact List.mem_cons_of_mem _ listed
        | written q proposed given => exact List.mem_cons_of_mem _ listed
        | collected k q => exact absurd rfl others
        | _ => exact listed
      by_cases written : ∃ v, happening = some (.written id v)
      · obtain ⟨v, rfl⟩ := written
        cases step with
        | written q proposed given => exact .inl (List.mem_cons_self ..)
      · refine (settled id s here prompt').imp pending (turn.settled ?_ prompt')
        intro h happens v same
        rw [Option.mem_def] at happens
        exact written ⟨v, happens.trans (congrArg some same)⟩

theorem Desk.Goes.settled {d d' : Desk} {log : List Happening} (goes : Goes d log d')
    (others : ∀ h ∈ log, h ≠ .collected) (settled : d.kernel.Settled) : d'.kernel.Settled :=
  goes.keeps_of_log (P := fun d => d.kernel.Settled)
    (fun step (others : ∀ h ∈ _, h ≠ Happening.collected) settled => step.settled
      (fun collects => others _ collects rfl) settled) others settled

namespace Simulation

/-! ## Commit phases -/

theorem upToDate_updateAll {s : Simulation σ ω} {ids : List SignalId} (failure : Except SimError Unit)
    (pending : s.kernel.pending = [])
    (settled : ∀ id signal, s.kernel.signal? id = some signal → signal.inertia = none →
      id ∈ ids ∨ signal.val.same signal.next = true) :
    (s.updateAll failure ids).1.kernel.UpToDate := by
  induction ids generalizing s failure with
  | nil =>
      refine ⟨pending, fun id signal found prompt => ?_⟩
      exact (settled id signal found prompt).resolve_left List.not_mem_nil
  | cons id rest ih =>
      have kernel := kernel_step s id Signal.update
      rw [updateAll_cons]
      refine ih _ (by rw [kernel]; exact pending) fun id' signal' found prompt => ?_
      rw [kernel, Kernel.signal?_modify] at found
      by_cases here : id = id'
      · subst here
        rw [if_pos rfl] at found
        obtain ⟨signal, was, rfl⟩ := Option.map_eq_some_iff.mp found
        have turns : signal.Turns id _ signal.update.1 := .updated 0
        have prompt' := turns.inertia_eq_none.mp prompt
        obtain ⟨val, waits, applied, new, -⟩ := signal.apply_spec signal.next
        right
        rw [Signal.update_of_prompt prompt', applied]
        exact new
      · rw [if_neg here] at found
        refine (settled id' signal' found prompt).imp_left fun listed => ?_
        exact (List.mem_cons.mp listed).resolve_left (Ne.symm here)

/-- A commit phase writes nothing. -/
theorem write?_happenings (s : Simulation σ ω) (ids : List SignalId) :
    (s.happenings ids).filterMap Happening.write? = [] := by
  induction ids generalizing s with
  | nil => rfl
  | cons id rest ih =>
      rw [happenings, List.filterMap_append, ih, List.append_nil]
      unfold happening?
      cases s.kernel.signal? id with
      | none => rfl
      | some signal =>
          dsimp only [Option.map_some]
          split <;> rfl

/-- After a commit phase nothing is pending and every proposed value is committed, even if update
phases failed. -/
theorem upToDate_commitPending {s : Simulation σ ω} (settled : s.kernel.Settled) :
    s.commitPending.1.kernel.UpToDate := by
  refine upToDate_updateAll _ rfl fun id signal found prompt => ?_
  exact (settled id signal found prompt).imp_left List.mem_reverse.mpr

/-! ## Cycles -/

variable {B : Behaviours σ ω}

theorem settled_of_runReady {fuel : Nat} {s s' : Simulation σ ω}
    {failure failure' : Except SimError Unit} (staffed : s.Staffed) (settled : s.kernel.Settled)
    (ran : runReady B fuel s failure = .ok (s', failure')) : s'.kernel.Settled := by
  refine Desk.Goes.settled (does_runReady staffed ran).goes (fun h listed => ?_) settled
  obtain ⟨write, -, rfl⟩ := List.mem_map.mp listed
  nofun

theorem settled_of_proceed {s : Simulation σ ω} (settled : s.kernel.Settled) (cap : Option Nat) :
    (s.proceed cap).1.kernel.Settled := by
  obtain ⟨writes, log, arrivals, proceeds, -⟩ := s.does_proceed cap
  refine Desk.Goes.settled proceeds.goes (fun h listed => ?_) settled
  rcases List.mem_append.mp listed with listed | listed
  · obtain ⟨write, -, rfl⟩ := List.mem_map.mp listed
    nofun
  · rintro rfl
    exact arrivals _ listed

theorem upToDate_purge {s : Simulation σ ω} (upToDate : s.kernel.UpToDate) :
    s.purge.kernel.UpToDate := by
  obtain ⟨signals, same⟩ := kernel_purge s
  refine (Desk.Goes.settled s.does_purge.goes nofun upToDate.settled).upToDate ?_
  change s.purge.kernel.pending = []
  rw [same]
  exact upToDate.pending

theorem upToDate_wrapUp {s : Simulation σ ω} (settled : s.kernel.Settled)
    (failure : Except SimError Unit) : (s.wrapUp failure).1.kernel.UpToDate := by
  obtain ⟨stopRequest, same⟩ := s.wrapUp_eq failure
  have upToDate := upToDate_purge (upToDate_commitPending settled)
  rw [same]
  exact ⟨upToDate.pending, upToDate.same⟩

/-- A run that stops in good order leaves nothing pending. -/
theorem pending_of_proceed {s s' : Simulation σ ω} {cap : Option Nat} {outcome : Outcome}
    (ended : s.proceed cap = (s', .ended (.ok outcome))) : s'.kernel.pending = [] := by
  obtain ⟨m, -, pending, -, left⟩ := settled_of_proceed_ended ended
  obtain ⟨-, now, delta, rfl⟩ := stops_of_leaveTick left
  exact pending

/-- In the round of a cycle a waiter fails, or one of its commit phases does. -/
def RoundFails (B : Behaviours σ ω) (fuel : Nat) (s : Simulation σ ω) : Prop :=
  (∃ e, s.commitPending.2 = .error e) ∨
    ∃ s₁ failure, runReady B fuel s.commitPending.1 (.ok ()) = .ok (s₁, failure) ∧
      ((∃ e, failure = .error e) ∨
        s₁.kernel.stopRequest ≠ none ∧ ∃ e, s₁.commitPending.2 = .error e)

theorem upToDate_of_cycle {fuel : Nat} {s s' : Simulation σ ω} {cap : Option Nat}
    {verdict : Verdict} (staffed : s.Staffed) (settled : s.kernel.Settled)
    (turned : s.cycle B fuel cap = .ok (s', verdict)) :
    s'.kernel.Settled ∧
      ((∃ outcome, verdict = .ended (.ok outcome)) ∨ s.RoundFails B fuel → s'.kernel.UpToDate) := by
  have commits := s.does_commitPending
  have upToDate := upToDate_commitPending settled
  unfold RoundFails
  cases way_of_cycle turned with
  | refused committed =>
      rw [committed] at upToDate
      exact ⟨upToDate.settled, fun _ => upToDate⟩
  | proceeded committed ran running went =>
      rw [committed] at commits upToDate ⊢
      have settled₁ := settled_of_runReady (commits.staffed staffed) upToDate.settled ran
      have settled' := settled_of_proceed settled₁ cap
      rw [went] at settled'
      refine ⟨settled', fun ends => settled'.upToDate ?_⟩
      rcases ends with ⟨outcome, rfl⟩ | ⟨e, fails⟩ | ⟨s₂, failure₂, ran', fails⟩
      · exact pending_of_proceed went
      · cases fails
      · cases ran.symm.trans ran'
        rcases fails with ⟨e, fails⟩ | ⟨stops, -⟩
        · cases fails
        · exact absurd running stops
  | @wrapped m s₁ failure _ committed ran stops ends =>
      rw [committed] at commits upToDate
      have settled₁ := settled_of_runReady (commits.staffed staffed) upToDate.settled ran
      have wraps := upToDate_wrapUp settled₁ failure
      rw [ends] at wraps
      exact ⟨wraps.settled, fun _ => wraps⟩

/-! ## Runs -/

/-- The cycle in which a loop ends: the steps that are granted to it, and the simulation at its
beginning. -/
def lastCycle? (B : Behaviours σ ω) :
    Nat → Simulation σ ω → Option Nat → Option (Nat × Simulation σ ω)
  | 0, _, _ => none
  | fuel + 1, s, cap =>
      match s.cycle B (fuel + 1) cap with
      | .ok (s', .again) => lastCycle? B fuel s' cap
      | _ => some (fuel + 1, s)

/-- In the last round of a run a waiter fails, or one of its commit phases does. -/
def EndsInRound (B : Behaviours σ ω) (fuel : Nat) (s : Simulation σ ω) (duration : Option Nat) :
    Prop :=
  s.hasEnded = false ∧ s.startHook.2 = .ok () ∧
    ∃ granted last, lastCycle? B fuel s.startHook.1 (s.startHook.1.capOf duration) =
      some (granted, last) ∧ RoundFails B granted last

theorem upToDate_of_loop {fuel : Nat} {s s' : Simulation σ ω} {cap : Option Nat}
    {result : Except SimError Outcome} (staffed : s.Staffed) (settled : s.kernel.Settled)
    (looped : loop B fuel s cap = .ok (s', result)) :
    s'.kernel.Settled ∧
      ((∃ outcome, result = .ok outcome) ∨
        (∃ granted last, lastCycle? B fuel s cap = some (granted, last) ∧
          RoundFails B granted last) → s'.kernel.UpToDate) := by
  replace looped := way_of_loop looped
  induction looped with
  | @ended fuel s turned =>
      obtain ⟨settled₁, ends⟩ := upToDate_of_cycle staffed settled turned
      refine ⟨settled₁, fun fine => ends ?_⟩
      rcases fine with ⟨outcome, rfl⟩ | ⟨granted, last, same, fails⟩
      · exact .inl ⟨outcome, rfl⟩
      · rw [lastCycle?, turned] at same
        cases same
        exact .inr fails
  | @again fuel s s₁ turned further ih =>
      obtain ⟨log, does⟩ := does_cycle staffed turned
      obtain ⟨settled₁, -⟩ := upToDate_of_cycle staffed settled turned
      rw [lastCycle?, turned]
      exact ih (does.staffed staffed) settled₁

theorem upToDate_of_run {fuel : Nat} {s s' : Simulation σ ω} {duration : Option Nat}
    {result : Except SimError Outcome} (staffed : s.Staffed) (settled : s.kernel.Settled)
    (ran : run B fuel s duration = .ok (s', result)) :
    s'.kernel.Settled ∧
      ((∃ outcome, result = .ok outcome) ∨ EndsInRound B fuel s duration →
        s'.kernel.UpToDate) := by
  have same := s.office_startHook
  unfold EndsInRound
  cases way_of_run ran with
  | terminated ended =>
      refine ⟨settled, fun fine => ?_⟩
      rcases fine with ⟨outcome, fine⟩ | ⟨running, -⟩
      · cases fine
      · cases running.symm.trans ended
  | untold running started =>
      have kernel := kernel_of_office same
      rw [started] at kernel ⊢
      refine ⟨kernel ▸ settled, fun fine => ?_⟩
      rcases fine with ⟨outcome, fine⟩ | ⟨-, fine, -⟩ <;> cases fine
  | @played s₁ s₂ _ final _ running started looped concluded =>
      have staffed₁ := (Does.of_office same).staffed staffed
      have kernel := kernel_of_office same
      rw [started] at staffed₁ kernel ⊢
      obtain ⟨settled₂, ends⟩ := upToDate_of_loop staffed₁ (kernel ▸ settled) looped
      have kernel₂ := kernel_of_office (s₂.office_conclude final)
      rw [concluded] at kernel₂
      rw [show s'.kernel = s₂.kernel from kernel₂]
      refine ⟨settled₂, fun fine => ends ?_⟩
      rcases fine with ⟨outcome, rfl⟩ | ⟨-, -, last⟩
      · exact .inl ⟨outcome, outcome_of_conclude concluded⟩
      · exact .inr last

theorem Reached.settled {s : Simulation σ ω} (reached : Reached B s) : s.kernel.Settled := by
  induction reached with
  | built made built =>
      rw [show Simulation.kernel _ = _ from congrArg Desk.kernel (desk_build built)]
      exact made.sound.atStart.upToDate.settled
  | adjusted reached adjusts ih =>
      rw [kernel_of_office (office_adjusts adjusts)]
      exact ih
  | cycled reached turned ih => exact (upToDate_of_cycle reached.staffed ih turned).1
  | ran reached ran ih => exact (upToDate_of_run reached.staffed ih ran).1

end Simulation

/-! ## What waiters see -/

/-- The kernels that an activity meets while it is carried out. -/
inductive Activity.Meets : Kernel → ω → Activity ω α → Kernel → Prop where
  | here (k : Kernel) (w : ω) (activity : Activity ω α) : Meets k w activity k
  | ask {k k₁ k' : Kernel} {w w₁ : ω} {request : Request ω} {reply : request.Reply}
      {go : request.Reply → Activity ω α} (performed : request.perform k w = some (reply, k₁, w₁))
      (rest : Meets k₁ w₁ (go reply) k') : Meets k w (.ask request go) k'
  | later {k k' : Kernel} {w : ω} {go : Unit → Activity ω α} (rest : Meets k w (go ()) k') :
      Meets k w (.later go) k'

theorem Activity.Meets.committed {k k' : Kernel} {w : ω} {activity : Activity ω α}
    (meets : activity.Meets k w k') : k'.committed = k.committed := by
  induction meets with
  | here k w activity => rfl
  | ask performed rest ih => exact ih.trans (Request.edits_perform performed).committed
  | later rest ih => exact ih

/-- The kernels that a body meets when it is resumed. -/
def Body.Meets (B : Behaviours σ ω) (k : Kernel) (w : ω) (k' : Kernel) : Body σ → Prop
  | .process state => (B.resume state).Meets k w k'
  | .always block true => (B.react block.body).Meets k w k'
  | _ => k' = k

namespace Simulation

/-- Some of those that are ready were resumed. -/
inductive Resumes (B : Behaviours σ ω) (m : Simulation σ ω) : Simulation σ ω → Prop where
  | start : Resumes B m m
  | next {s s' : Simulation σ ω} {a : Arming} {ready : Fifo Arming} {result : Except SimError Unit}
      (resumes : Resumes B m s) (popped : s.ready.pop? = some (a, ready))
      (ran : runWaiter B { s with ready } a = some (s', result)) : Resumes B m s'

/-- A waiter that is resumed in a round meets the kernel. -/
def Sees (B : Behaviours σ ω) (m : Simulation σ ω) (k : Kernel) : Prop :=
  ∃ s a ready me body stale waiters, Resumes B m s ∧ s.ready.pop? = some (a, ready) ∧
    s.waiters.consume a = (some (me, body, stale), waiters) ∧ body.Meets B s.kernel s.world k

variable {B : Behaviours σ ω}

theorem Resumes.committed {m s : Simulation σ ω} (resumes : Resumes B m s) :
    s.kernel.committed = m.kernel.committed := by
  induction resumes with
  | start => rfl
  | next resumes popped ran ih =>
      exact (committed_of_surroundings (surroundings_runWaiter ran)).trans ih

theorem Sees.committed {m : Simulation σ ω} {k : Kernel} (sees : m.Sees B k) :
    k.committed = m.kernel.committed := by
  obtain ⟨s, a, ready, me, body, stale, waiters, resumes, -, -, meets⟩ := sees
  refine Eq.trans ?_ resumes.committed
  cases body with
  | process state => exact Activity.Meets.committed meets
  | always block started =>
      cases started with
      | false => rw [show k = s.kernel from meets]
      | true => exact Activity.Meets.committed meets
  | branch clause => rw [show k = s.kernel from meets]
  | shadow shadow => rw [show k = s.kernel from meets]
  | outputs => rw [show k = s.kernel from meets]

/-- A commit phase commits what was written last, or else what was committed before. -/
theorem same_lastWritten_of_goes {m s : Simulation σ ω} {writes : List (SignalId × Value)}
    {log : List Happening} (upToDate : m.kernel.UpToDate)
    (goes : Desk.Goes m.desk (logOfWrites writes ++ log) s.desk) (arrivals : ∀ h ∈ log, h.IsArrival)
    {id : SignalId} {signal : Signal} (found : m.kernel.signal? id = some signal)
    (prompt : signal.inertia = none) :
    ∃ v, s.commitPending.1.kernel.val? id = some v ∧
      v.same ((lastWritten id writes).getD signal.val) = true := by
  have settled : s.kernel.Settled := by
    refine Desk.Goes.settled goes (fun h listed same => ?_) upToDate.settled
    subst same
    rcases List.mem_append.mp listed with written | arrived
    · obtain ⟨write, -, same⟩ := List.mem_map.mp written
      cases same
    · exact arrivals _ arrived
  have committed := upToDate_commitPending settled
  obtain ⟨s', found', prompt', next⟩ := goes.next found
  rw [List.filterMap_append, write?_logOfWrites, write?_of_arrivals arrivals,
    List.append_nil] at next
  obtain ⟨s'', found'', prompt'', next'⟩ := s.does_commitPending.goes.next found'
  rw [List.filterMap_cons, write?_happenings] at next'
  have next' : s''.next = s'.next := next'
  refine ⟨s''.val, congrArg (Option.map Signal.val) found'', ?_⟩
  have new := committed.same id s'' found'' (prompt''.mpr (prompt'.mpr prompt))
  rw [next', next] at new
  cases written : lastWritten id writes with
  | some v =>
      rw [written] at new
      exact new
  | none =>
      rw [written] at new
      exact Value.same_trans new (Value.same_symm (upToDate.same id signal found prompt))

/-- What the next round commits is what was written last, or else what was committed before. -/
theorem same_lastWritten {m s₁ s₂ : Simulation σ ω} {fuel : Nat} {cap : Option Nat}
    {failure : Except SimError Unit} (staffed : m.Staffed) (upToDate : m.kernel.UpToDate)
    (ran : runReady B fuel m (.ok ()) = .ok (s₁, failure)) (goesOn : s₁.GoesOn cap s₂)
    {id : SignalId} {s : Signal} (found : m.kernel.signal? id = some s)
    (prompt : s.inertia = none) :
    ∃ v, s₂.commitPending.1.kernel.val? id = some v ∧
      v.same ((lastWritten id (m.writes B fuel ++ s₁.received)).getD s.val) = true := by
  obtain ⟨log, arrivals, does⟩ := goesOn.does
  have round := (does_runReady staffed ran).goes.trans does.goes
  rw [← List.append_assoc, ← logOfWrites_append] at round
  exact same_lastWritten_of_goes upToDate round arrivals found prompt

/-- Delta cycles are atomic, and the last write wins. While the waiters of a round run, they see
no committed value change, and in the next round they see that of every signal without delay as the
value that was written last in the round, by waiters in the order of resumes and then by the bridge,
or as it was if none was written. A run that is suspended or finished, or that ends since a waiter
or a commit phase failed, leaves nothing pending, and every signal without delay at the value that
was proposed for it. -/
theorem delta_cycles_are_atomic_and_the_last_write_wins {s : Simulation σ ω}
    (reached : Reached B s) :
    (∀ m fuel s₁ failure, s.commitPending = (m, .ok ()) →
      runReady B fuel m (.ok ()) = .ok (s₁, failure) →
      (∀ k, m.Sees B k → ∀ id, k.val? id = m.kernel.val? id) ∧
      ∀ cap s₂, s₁.GoesOn cap s₂ → ∀ k, s₂.commitPending.1.Sees B k → ∀ id signal,
        m.kernel.signal? id = some signal → signal.inertia = none →
        ∃ v, k.val? id = some v ∧
          v.same ((lastWritten id (m.writes B fuel ++ s₁.received)).getD signal.val) = true) ∧
    ∀ fuel duration s' result, run B fuel s duration = .ok (s', result) →
      (∃ outcome, result = .ok outcome) ∨ EndsInRound B fuel s duration →
      s'.kernel.pending = [] ∧ ∀ id signal, s'.kernel.signal? id = some signal →
        signal.inertia = none → signal.val.same signal.next = true := by
  refine ⟨fun m fuel s₁ failure committed ran => ⟨fun k sees id => ?_, ?_⟩, ?_⟩
  · exact Kernel.val?_of_committed sees.committed id
  · intro cap s₂ goesOn k sees id signal found prompt
    have staffed := s.does_commitPending.staffed reached.staffed
    have upToDate := upToDate_commitPending reached.settled
    rw [committed] at staffed upToDate
    rw [Kernel.val?_of_committed sees.committed id]
    exact same_lastWritten staffed upToDate ran goesOn found prompt
  · intro fuel duration s' result ran ends
    have upToDate := (upToDate_of_run reached.staffed reached.settled ran).2 ends
    exact ⟨upToDate.pending, upToDate.same⟩

/-- A signal for a total. -/
def ledger : Kernel := (Kernel.declare {} "total" (.int 0) none).2

/-- Clerks, each of which writes an amount to the total. -/
def clerks : Behaviours Int Unit where
  name _ := "clerk"
  resume amount := (Activity.setNext ⟨0⟩ (.int amount)).bind fun _ => .done .done
  react amount := .done amount

/-- A simulation of two clerks. -/
def counter : Simulation Int Unit :=
  (({ kernel := ledger, world := () } : Simulation Int Unit).addWaiter "clerk" (.process 1)
    none).addWaiter "clerk" (.process 2) none

/-- Whether a round is resumed in good order in which a value is the last that is written to the
total. -/
def writesLast (m : Simulation Int Unit) (value : Value) :
    Except Stuck (Simulation Int Unit × Except SimError Unit) → Bool
  | .ok (s, .ok ()) => lastWritten ⟨0⟩ (m.writes clerks 9 ++ s.received) == some value
  | _ => false

/-- Of two clerks the second wins. -/
theorem the_second_clerk_wins :
    ∃ s₁, runReady clerks 9 counter.commitPending.1 (.ok ()) = .ok (s₁, .ok ()) ∧
      ∀ cap s₂, s₁.GoesOn cap s₂ → ∀ k, s₂.commitPending.1.Sees clerks k →
        ∃ v, k.val? ⟨0⟩ = some v ∧ v.same (.int 2) = true := by
  have made : ledger.Made := .signal .empty "total" (.int 0) none
  have reached : Reached clerks counter :=
    .built made (show build clerks ledger [.process 1, .process 2] () = .ok counter from rfl)
  have last : writesLast counter.commitPending.1 (.int 2)
      (runReady clerks 9 counter.commitPending.1 (.ok ())) = true := by decide +kernel
  rcases ran : runReady clerks 9 counter.commitPending.1 (.ok ()) with stuck | ⟨s₁, e | ⟨⟩⟩
  · rw [ran] at last
    cases last
  · rw [ran] at last
    cases last
  · rw [ran] at last
    refine ⟨s₁, rfl, fun cap s₂ goesOn k sees => ?_⟩
    have round := (delta_cycles_are_atomic_and_the_last_write_wins reached).1
      counter.commitPending.1 9 s₁ (.ok ()) rfl ran
    obtain ⟨v, here, same⟩ := round.2 cap s₂ goesOn k sees ⟨0⟩ (.ofInit "total" (.int 0) none) rfl rfl
    have two : lastWritten ⟨0⟩ (counter.commitPending.1.writes clerks 9 ++ s₁.received) =
      some (.int 2) := eq_of_beq last
    rw [two] at same
    exact ⟨v, here, same⟩

end Simulation

end DeltaCycle
