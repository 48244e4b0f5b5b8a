import DeltaCycle.Proofs.Happenings
import DeltaCycle.Proofs.History

/-!
# Proceedings

Every transition of a simulation is a course of steps of its desk, with a known log. A waiter
that recomputes a shadow recomputes a declared one; this too every transition keeps, so that what
is written by a rule is what a declared rule gives.
-/

set_option autoImplicit false

namespace DeltaCycle

variable {σ ω : Type}

/-! ## Bodies in the table -/

namespace WaiterTable

variable {β : Type} {t : WaiterTable β} {P : β → Prop}

/-- Every body in the table satisfies a condition. -/
def Holds (t : WaiterTable β) (P : β → Prop) : Prop :=
  ∀ slot waiter body, t.waiter? slot = some waiter → waiter.body = some body → P body

theorem Holds.of_slots {t' : WaiterTable β} (holds : t.Holds P) (same : t'.slots = t.slots) :
    t'.Holds P := by
  unfold Holds waiter? at *
  rwa [same]

theorem Holds.insert (holds : t.Holds P) {body : β} (new : P body) (name : String)
    (parent : Option Continuation) : (t.insert name body parent).2.Holds P := by
  intro slot waiter body' found present
  unfold WaiterTable.insert at found
  have old : t.waiter? slot = some waiter → P body' := fun kept =>
    holds slot waiter body' kept present
  have added : some waiter = some { name, body := some body, token := t.lastToken + 1, parent } →
      P body' := by
    intro same
    cases same
    cases present
    exact new
  split at found
  · simp only [waiter?, Array.getElem?_setIfInBounds] at found
    split at found
    · split at found
      · exact added found.symm
      · cases found
    · exact old found
  · simp only [waiter?, Array.getElem?_push] at found
    split at found
    · exact added found.symm
    · exact old found

theorem Holds.restore (holds : t.Holds P) {body : β} (new : P body) (slot : Nat) :
    (t.restore slot body).Holds P := by
  intro slot' waiter body' found present
  rw [WaiterTable.restore, waiter?_modify] at found
  split at found
  · obtain ⟨w, -, rfl⟩ := Option.map_eq_some_iff.mp found
    cases present
    exact new
  · exact holds slot' waiter body' found present

theorem Holds.noteSubscription (holds : t.Holds P) (slot : Nat) (signal : SignalId) :
    (t.noteSubscription slot signal).Holds P := by
  intro slot' waiter body found present
  rw [WaiterTable.noteSubscription, waiter?_modify] at found
  split at found
  · obtain ⟨w, was, rfl⟩ := Option.map_eq_some_iff.mp found
    exact holds slot' w body was present
  · exact holds slot' waiter body found present

theorem Holds.remove (holds : t.Holds P) (slot : Nat) : (t.remove slot).2.Holds P := by
  intro slot' waiter body found present
  rw [waiter?_remove] at found
  split at found
  · cases found
  · exact holds slot' waiter body found present

theorem Holds.openJoin (holds : t.Holds P) (count : Nat) (caller : Arming) :
    (t.openJoin count caller).2.Holds P := by
  unfold WaiterTable.openJoin
  split <;> exact holds.of_slots rfl

theorem Holds.completeBranch (holds : t.Holds P) (index : Nat) :
    (t.completeBranch index).2.Holds P := by
  unfold WaiterTable.completeBranch
  split
  · split <;> exact holds.of_slots rfl
  · exact holds

/-- The body that is claimed is one of the table. -/
theorem Holds.consume (holds : t.Holds P) (a : Arming) :
    (t.consume a).2.Holds P ∧
      ∀ me body stale, (t.consume a).1 = some (me, body, stale) → P body := by
  unfold WaiterTable.consume
  split
  · dsimp only
    split
    · next found =>
        refine ⟨fun slot waiter body' found' present => ?_, fun me body' stale claimed => ?_⟩
        · rw [waiter?_modify] at found'
          split at found'
          · obtain ⟨w, -, rfl⟩ := Option.map_eq_some_iff.mp found'
            cases present
          · exact holds slot waiter body' found' present
        · cases claimed
          exact holds _ _ _ found rfl
    · exact ⟨holds.of_slots rfl, nofun⟩
  · exact ⟨holds, nofun⟩

end WaiterTable

/-- The shadow that a body recomputes, if it does, is among those declared. -/
def Body.Declared (shadows : List Shadow) : Body σ → Prop
  | .shadow rule => rule ∈ shadows
  | _ => True

theorem Clause.declared_branchBody (shadows : List Shadow) (clause : Clause σ) :
    clause.branchBody.Declared shadows := by
  cases clause <;> trivial

namespace Desk

theorem Step.shadows {d d' : Desk} {happening : Option Happening} (step : Desk.Step d happening d') :
    d'.kernel.shadows = d.kernel.shadows := by
  cases step <;> rfl

theorem Goes.shadows {d d' : Desk} {log : List Happening} (goes : Goes d log d') :
    d'.kernel.shadows = d.kernel.shadows := by
  induction goes with
  | rest d => rfl
  | step happens others ih => exact ih.trans happens.shadows

end Desk

open Desk

namespace Simulation

/-- The desk of a simulation. -/
def desk (s : Simulation σ ω) : Desk := ⟨s.kernel, s.queue⟩

/-- Every waiter that recomputes a shadow recomputes a declared one. -/
def Staffed (s : Simulation σ ω) : Prop := s.waiters.Holds (Body.Declared s.kernel.shadows)

/-- The desk takes a course with this log, and the simulation stays staffed. -/
structure Does (s : Simulation σ ω) (log : List Happening) (s' : Simulation σ ω) : Prop where
  goes : Goes s.desk log s'.desk
  staffed : s.Staffed → s'.Staffed

theorem Does.trans {s s' s'' : Simulation σ ω} {log more : List Happening} (first : Does s log s')
    (second : Does s' more s'') : Does s (log ++ more) s'' :=
  ⟨first.goes.trans second.goes, second.staffed ∘ first.staffed⟩

/-- A course that nothing more happens in. -/
theorem Does.quietly {s s' s'' : Simulation σ ω} {log : List Happening} (first : Does s log s')
    (second : Does s' [] s'') : Does s log s'' := by
  have both := first.trans second
  rwa [List.append_nil] at both

/-- A course after which the waiters are what they were. -/
theorem Does.of_goes {s s' : Simulation σ ω} {log : List Happening}
    (goes : Goes s.desk log s'.desk) (waiters : s'.waiters = s.waiters) : Does s log s' := by
  refine ⟨goes, fun staffed => ?_⟩
  rw [Staffed, waiters, show s'.kernel.shadows = s.kernel.shadows from goes.shadows]
  exact staffed

theorem Does.of_desk {s s' : Simulation σ ω} (desk : s'.desk = s.desk)
    (waiters : s'.waiters = s.waiters) : Does s [] s' := by
  refine .of_goes ?_ waiters
  rw [desk]
  exact .rest _

/-- What changes the waiters alone. -/
theorem Does.of_waiters {s s' : Simulation σ ω} (desk : s'.desk = s.desk)
    (holds : s.Staffed → s'.waiters.Holds (Body.Declared s.kernel.shadows)) : Does s [] s' := by
  refine ⟨?_, fun staffed => ?_⟩
  · rw [desk]
    exact .rest _
  · rw [Staffed, show s'.kernel = s.kernel from congrArg Desk.kernel desk]
    exact holds staffed

theorem Does.refl (s : Simulation σ ω) : Does s [] s := .of_desk rfl rfl

theorem Does.shadows {s s' : Simulation σ ω} {log : List Happening} (does : Does s log s') :
    s'.kernel.shadows = s.kernel.shadows :=
  does.goes.shadows

/-! ## Arming -/

section Arming

variable (B : Behaviours σ ω) (s : Simulation σ ω) (me : Arming)

theorem does_addWaiter (title : String) {body : Body σ} (declared : body.Declared s.kernel.shadows)
    (parent : Option Continuation) : Does s [] (s.addWaiter title body parent) :=
  .of_waiters rfl fun staffed => staffed.insert declared title parent

theorem does_watch (trigger : Trigger) : Does s [] (s.watch me trigger).1 := by
  unfold watch
  cases s.kernel.signal? trigger.signal with
  | none => exact .refl s
  | some _ =>
      exact ⟨(Desk.Step.rewired s.kernel s.queue trigger.signal fun w => enlist me w trigger).goes,
        fun staffed => staffed.noteSubscription me.slot trigger.signal⟩

theorem does_wakeAfter (ticks : Nat) : Does s [] (s.wakeAfter me ticks).1 := by
  unfold wakeAfter after
  split
  · exact .refl s
  · next time scheduled =>
      split at scheduled
      · cases scheduled
        have queued := Desk.Step.queued (k := s.kernel) s.queue me (Nat.le_add_right _ ticks)
        exact ⟨queued.goes, id⟩
      · cases scheduled

theorem does_foldl_addBranch (group : Nat) (clauses : List (Clause σ)) :
    Does s [] (clauses.foldl (addBranch B group) s) := by
  induction clauses generalizing s with
  | nil => exact .refl s
  | cons clause rest ih =>
      obtain ⟨title, same⟩ := addBranch_eq (B := B) s group clause
      have added := s.does_addWaiter title (clause.declared_branchBody _) (some (.join group))
      rw [List.foldl_cons, same]
      exact added.trans (ih _)

theorem does_armOn (alternative : Alternative σ) : Does s [] (s.armOn B me alternative).1 := by
  cases alternative with
  | trigger t => exact s.does_watch me t
  | delay ticks => exact s.does_wakeAfter me ticks
  | noop => exact ⟨(Desk.Step.queued (k := s.kernel) s.queue me (Nat.le_refl _)).goes, id⟩
  | spawn child => exact s.does_addWaiter _ (by trivial) _
  | refused e => exact .refl s
  | join clauses =>
      have opened : Does s [] { s with waiters := (s.waiters.openJoin clauses.length me).2 } :=
        .of_waiters rfl fun staffed => staffed.openJoin clauses.length me
      exact opened.trans (does_foldl_addBranch B _ _ clauses)

theorem does_armOnAll (alternatives : List (Alternative σ)) :
    Does s [] (s.armOnAll B me alternatives).1 :=
  armOnAll_induction (P := Does s []) (.refl s) fun t alternative _ does =>
    does.trans (t.does_armOn B me alternative)

end Arming

/-! ## Resuming -/

section Resuming

variable {B : Behaviours σ ω}

theorem does_drop (s : Simulation σ ω) (slot : Nat) (e : SimError) : Does s [] (s.drop slot e) :=
  ⟨(Desk.Step.noted s.kernel s.queue s.kernel.stopRequest _).goes, fun staffed => staffed.remove slot⟩

theorem does_release (s : Simulation σ ω) {caller : Option Arming} {waiters : WaiterTable (Body σ)}
    (holds : s.Staffed → waiters.Holds (Body.Declared s.kernel.shadows)) :
    Does s [] (s.release (caller, waiters)) := by
  cases caller <;> exact .of_waiters rfl holds

theorem does_complete (s : Simulation σ ω) (slot : Nat) : Does s [] (s.complete slot) := by
  have removed : s.Staffed → (s.waiters.remove slot).2.Holds (Body.Declared s.kernel.shadows) :=
    fun staffed => staffed.remove slot
  unfold complete
  generalize s.waiters.remove slot = result at removed ⊢
  obtain ⟨_ | caller | group, waiters⟩ := result
  · exact s.does_release removed
  · exact s.does_release removed
  · have completed (staffed : s.Staffed) := (removed staffed).completeBranch group
    dsimp only at completed ⊢
    generalize waiters.completeBranch group = result at completed ⊢
    exact s.does_release completed

/-- That an act is settled in the books is not in the log. -/
theorem does_settle (s : Simulation σ ω) (me : Arming) (done : Act σ)
    (declared : ∀ body alternatives, done = .waits body alternatives →
      body.Declared s.kernel.shadows) : Does s [] (s.settle B me done).1 := by
  cases done with
  | completes => exact s.does_complete me.slot
  | fails e => exact s.does_drop me.slot e
  | waits body alternatives =>
      have restored : Does s [] { s with waiters := s.waiters.restore me.slot body } :=
        .of_waiters rfl fun staffed => staffed.restore (declared body alternatives rfl) me.slot
      exact rearm_induction (P := Does s []) restored
        (fun t does => does.trans (t.does_armOnAll B me alternatives))
        fun t e does => does.trans (t.does_drop me.slot e)

theorem does_noteOutputs (s : Simulation σ ω) (me : Arming) : Does s [] (s.noteOutputs me).1 := by
  have noted : Does s []
      { s with link := s.link.map fun (l : Link ω) => { l with changed := true } } :=
    .of_desk rfl rfl
  refine noteOutputs_induction (P := Does s []) noted
    (fun t trigger does => does.trans (t.does_watch me trigger)) fun t does => ?_
  have restored : Does t [] { t with waiters := t.waiters.restore me.slot .outputs } :=
    .of_waiters rfl fun staffed => staffed.restore (by trivial) me.slot
  exact does.trans restored

theorem does_act {s : Simulation σ ω} {outputs : List SignalId} {body : Body σ} {done : Act σ}
    {kernel : Kernel} {world : ω} (declared : body.Declared s.kernel.shadows)
    (acted : act B s.kernel s.world outputs body = some (done, kernel, world)) :
    Does s (logOfWrites (body.writes B s.kernel s.world)) { s with kernel, world } := by
  cases way_of_act acted with
  | process ran => exact .of_goes (Activity.goes_run s.queue ran) rfl
  | @shadow shadow _ _ resumed =>
      have goes := Shadow.goes_resume (σ := σ) s.queue (s := shadow) declared
      rw [resumed] at goes
      exact .of_goes goes rfl
  | reacts ran => exact .of_goes (Activity.goes_run s.queue ran) rfl
  | _ => exact .refl s

/-- Whoever waits on, waits as what it was. -/
theorem declared_of_act {k k' : Kernel} {w w' : ω} {outputs : List SignalId} {body body' : Body σ}
    {alternatives : List (Alternative σ)} {shadows : List Shadow} (declared : body.Declared shadows)
    (acted : act B k w outputs body = some (.waits body' alternatives, k', w')) :
    body'.Declared shadows := by
  generalize waits : Act.waits body' alternatives = done at acted
  cases way_of_act acted with
  | @process state answer =>
      obtain e | ⟨state', clause⟩ | _ := answer <;> cases waits
      trivial
  | @shadow shadow answer =>
      obtain e | _ | clause := answer <;> cases waits
      exact declared
  | @reacts block answer =>
      obtain e | state := answer <;> cases waits
      trivial
  | joins => cases waits
  | _ =>
      cases waits
      trivial

theorem does_runBody {s s' : Simulation σ ω} {me : Arming} {body : Body σ}
    {result : Except SimError Unit} (declared : body.Declared s.kernel.shadows)
    (ran : runBody B s me body = some (s', result)) :
    Does s (logOfWrites (body.writes B s.kernel s.world)) s' := by
  cases way_of_runBody ran with
  | noted notes =>
      have does := s.does_noteOutputs me
      rwa [notes] at does
  | @acted _ done kernel world _ _ acted settled =>
      have acts := does_act declared acted
      have settles := does_settle (B := B) { s with kernel, world } me done ?_
      · rw [settled] at settles
        exact acts.quietly settles
      · rintro body' alternatives rfl
        rw [acts.shadows]
        exact declared_of_act declared acted

theorem does_runWaiter {s s' : Simulation σ ω} {a : Arming} {result : Except SimError Unit}
    (staffed : s.Staffed) (ran : runWaiter B s a = some (s', result)) :
    Does s (logOfWrites (s.waiterWrites B a)) s' := by
  obtain ⟨holds, claims⟩ := WaiterTable.Holds.consume staffed a
  unfold waiterWrites
  rw [runWaiter] at ran
  generalize s.waiters.consume a = claim at ran holds claims ⊢
  obtain ⟨_ | ⟨me, body, stale⟩, waiters⟩ := claim
  · cases ran
    exact .of_waiters rfl fun _ => holds
  · have claimed : Does s [] (noteStale
        { s with waiters, stats := { s.stats with resumes := s.stats.resumes + 1 } } stale) :=
      .of_waiters rfl fun _ => holds
    exact claimed.trans (does_runBody (claims me body stale rfl) ran)

/-- The waiters of a round write what they write, in the order of resumes. -/
theorem does_runReady {fuel : Nat} {s s' : Simulation σ ω} {failure failure' : Except SimError Unit}
    (staffed : s.Staffed) (ran : runReady B fuel s failure = .ok (s', failure')) :
    Does s (logOfWrites (s.writes B fuel)) s' := by
  replace ran := way_of_runReady ran
  induction ran with
  | idle idle =>
      rw [writes_of_idle idle]
      exact .refl _
  | @resumed _ s _ _ _ _ ready popped resumed further ih =>
      have taken : Does s [] { s with ready } := .of_desk rfl rfl
      have first := taken.trans (does_runWaiter staffed resumed)
      have rest := ih (first.staffed staffed)
      rw [writes_succ popped resumed, logOfWrites_append]
      exact first.trans rest

end Resuming

/-! ## Committing -/

theorem kernel_absorb (s : Simulation σ ω) (id : SignalId) (commit : Commit) :
    (s.absorb id commit).1.kernel = s.kernel := by
  obtain ⟨ready, queue, commits, world, absorbed⟩ := s.absorb_spec id commit
  rw [absorbed]

theorem queue_absorb (s : Simulation σ ω) (id : SignalId) (commit : Commit) :
    (s.absorb id commit).1.queue =
      match (s.absorb id commit).2 with
      | .ok _ => s.queue.defer s.kernel.now id commit
      | .error _ => s.queue := by
  cases commit with
  | unchanged => rfl
  | deferred delay value stamp =>
      simp only [absorb, after]
      by_cases scheduled : s.kernel.now + delay ≤ lastTick
      · simp only [if_pos scheduled]
        rfl
      · simp only [if_neg scheduled]
  | changed old woken =>
      have same := queue_report
        { s with
          stats := { s.stats with commits := s.stats.commits + 1 }
          ready := s.ready.append woken } id old
      dsimp only [absorb]
      rw [same]
      generalize (report _ id old).2 = result
      cases result <;> rfl

/-- A transition of a signal is one of the kernel. -/
theorem kernel_step (s : Simulation σ ω) (id : SignalId) (f : Signal → Signal × Commit) :
    (s.step id f).1.kernel = s.kernel.modify id fun signal => (f signal).1 := by
  unfold step
  cases found : s.kernel.signal? id with
  | none => exact (Kernel.modify_of_unknown found _).symm
  | some signal =>
      exact (kernel_absorb _ id _).trans (Kernel.modify_of_found found fun s => (f s).1)

theorem waiters_step (s : Simulation σ ω) (id : SignalId) (f : Signal → Signal × Commit) :
    (s.step id f).1.waiters = s.waiters :=
  (moved_step s id f).waiters

/-- What happens in the update phase of a signal. -/
def happening? (s : Simulation σ ω) (id : SignalId) : Option Happening :=
  (s.kernel.signal? id).map fun signal =>
    match (s.step id Signal.update).2 with
    | .ok _ => .updated s.kernel.now id signal.next
    | .error _ => .lost id

/-- What happens in the update phases of signals, in order. -/
def happenings (s : Simulation σ ω) : List SignalId → List Happening
  | [] => []
  | id :: rest => (s.happening? id).toList ++ happenings (s.step id Signal.update).1 rest

theorem does_step (s : Simulation σ ω) (id : SignalId) :
    Does s (s.happening? id).toList (s.step id Signal.update).1 := by
  refine .of_goes ?_ (waiters_step s id Signal.update)
  have kernel := kernel_step s id Signal.update
  unfold happening?
  cases found : s.kernel.signal? id with
  | none =>
      rw [show s.step id Signal.update = (s, .ok ()) by simp only [step, found]]
      exact .rest _
  | some signal =>
      have stepped : s.step id Signal.update =
          absorb { s with kernel := s.kernel.modify id fun _ => signal.update.1 } id
            signal.update.2 := by
        simp only [step, found]
      have queue := queue_absorb
        { s with kernel := s.kernel.modify id fun _ => signal.update.1 } id signal.update.2
      rw [← stepped] at queue
      have after : (s.step id Signal.update).1.desk =
          ⟨(s.step id Signal.update).1.kernel, (s.step id Signal.update).1.queue⟩ := rfl
      rw [after, kernel, queue, Option.map_some]
      generalize (s.step id Signal.update).2 = result
      obtain e | _ := result
      · exact (Desk.Step.lost s.kernel s.queue id).goes
      · exact (Desk.Step.updated s.queue found).goes

theorem updateAll_cons (s : Simulation σ ω) (failure : Except SimError Unit) (id : SignalId)
    (rest : List SignalId) :
    s.updateAll failure (id :: rest) =
      (s.step id Signal.update).1.updateAll (firstError failure (s.step id Signal.update).2) rest :=
  rfl

theorem does_updateAll (s : Simulation σ ω) (failure : Except SimError Unit)
    (ids : List SignalId) : Does s (s.happenings ids) (s.updateAll failure ids).1 := by
  induction ids generalizing s failure with
  | nil => exact .refl s
  | cons id rest ih => exact (does_step s id).trans (ih _ _)

/-- A commit phase collects what is pending and updates it. -/
theorem does_commitPending (s : Simulation σ ω) :
    Does s (.collected ::
        happenings { s with kernel := { s.kernel with pending := [] } } s.kernel.pending.reverse)
      s.commitPending.1 := by
  have collects : Does s [.collected] { s with kernel := { s.kernel with pending := [] } } :=
    .of_goes (Desk.Step.collected s.kernel s.queue).goes rfl
  exact collects.trans (does_updateAll _ _ _)

/-- Where no update phase fails, each of them finds a value proposed. -/
theorem happenings_of_ok {s s' : Simulation σ ω} {failure : Except SimError Unit}
    {ids : List SignalId} (updated : s.updateAll failure ids = (s', .ok ())) :
    failure = .ok () ∧ s.happenings ids = logOfUpdates s.kernel.now (s.found ids) := by
  induction ids generalizing s failure with
  | nil =>
      cases updated
      exact ⟨rfl, rfl⟩
  | cons id rest ih =>
      rw [updateAll_cons] at updated
      obtain ⟨fine, others⟩ := ih updated
      obtain ⟨fine, stepped⟩ := firstError_eq_ok.mp fine
      refine ⟨fine, ?_⟩
      rw [now_step] at others
      rw [happenings, found, others, logOfUpdates, logOfUpdates, List.map_append]
      congr 1
      unfold happening?
      rw [stepped]
      cases s.kernel.signal? id <;> rfl

theorem does_commitPending_ok {s s' : Simulation σ ω} (committed : s.commitPending = (s', .ok ())) :
    Does s (.collected :: logOfUpdates s.kernel.now s.updated) s' := by
  have does := s.does_commitPending
  rw [committed, (happenings_of_ok committed).2] at does
  exact does

/-! ## Leaving a round -/

theorem does_fire {s : Simulation σ ω} {payload : Payload} {queue : EventQueue} {time : Nat}
    (popped : s.queue.popDue time = some (payload, queue)) :
    ∃ log, (∀ h ∈ log, h.IsArrival) ∧ Does s log (fire { s with queue } payload).1 := by
  cases payload with
  | wake a =>
      exact ⟨[], nofun, .of_goes (Desk.Step.taken s.kernel popped).goes rfl⟩
  | apply id value stamp =>
      have arrives := (Desk.Step.arrived s.kernel popped).goes
      have fired : (fire { s with queue } (.apply id value stamp)).1.desk =
          ⟨s.kernel.modify id fun signal => (signal.applyDeferred value stamp).1, queue⟩ := by
        have kernel := kernel_step { s with queue } id
          fun signal => signal.applyDeferred value stamp
        have queue := queue_step_applyDeferred { s with queue } id value stamp
        exact congrArg₂ Desk.mk kernel queue
      refine ⟨[.arrived id value stamp], by simp [Happening.IsArrival], .of_goes ?_ ?_⟩
      · rw [fired]
        exact arrives
      · exact waiters_step { s with queue } id _

theorem does_drainUpTo (s : Simulation σ ω) (count time : Nat) :
    ∃ log, (∀ h ∈ log, h.IsArrival) ∧ Does s log (drainUpTo count s time).1 := by
  induction count generalizing s with
  | zero => exact ⟨[], nofun, .refl s⟩
  | succ count ih =>
      rw [drainUpTo]
      cases popped : s.queue.popDue time with
      | none => exact ⟨[], nofun, .refl s⟩
      | some due =>
          obtain ⟨payload, queue⟩ := due
          obtain ⟨log, arrivals, fires⟩ := does_fire popped
          dsimp only
          generalize fire { s with queue } payload = result at fires ⊢
          obtain ⟨s', _ | _⟩ := result
          · exact ⟨log, arrivals, fires⟩
          · obtain ⟨more, arrivals', drains⟩ := ih s'
            exact ⟨log ++ more, List.forall_mem_append.mpr ⟨arrivals, arrivals'⟩,
              fires.trans drains⟩

theorem does_sendOutputs (s : Simulation σ ω) (bridge : Bridge ω) :
    Does s [] (s.sendOutputs bridge).1 := by
  obtain ⟨world, link, sent, -⟩ := sendOutputs_spec s bridge
  rw [sent]
  exact .of_desk rfl rfl

theorem does_nextDelta (s : Simulation σ ω) : Does s [] s.nextDelta.1 := by
  obtain ⟨delta, deltas, next⟩ := nextDelta_spec s
  rw [next]
  exact .of_desk rfl rfl

/-- The clock may be moved to a tick that no entry of the queue comes before. -/
theorem does_moveClock (s : Simulation σ ω) {time : Nat}
    (undue : ∀ e ∈ s.queue.toList, time ≤ e.time) : Does s [] (s.moveClock time).1 := by
  unfold moveClock
  split
  · exact .of_goes (Desk.Step.ticked s.kernel undue).goes rfl
  · have next := s.does_nextDelta
    have desk : s.nextDelta.1.desk = s.desk := by
      obtain ⟨delta, deltas, same⟩ := nextDelta_spec s
      rw [same]
      rfl
    generalize s.nextDelta = result at next desk ⊢
    obtain ⟨s', _ | _⟩ := result
    · exact next
    · have undue' : ∀ e ∈ s'.queue.toList, time ≤ e.time := by
        rw [show s'.queue = s.queue from congrArg Desk.queue desk]
        exact undue
      exact next.trans (.of_goes (Desk.Step.ticked s'.kernel undue').goes rfl)

theorem does_advanceTo (s : Simulation σ ω) {time : Nat}
    (undue : ∀ e ∈ s.queue.toList, time ≤ e.time) :
    ∃ log, (∀ h ∈ log, h.IsArrival) ∧ Does s log (s.advanceTo time).1 := by
  have moves := s.does_moveClock undue
  unfold advanceTo
  generalize s.moveClock time = result at moves ⊢
  obtain ⟨s₁, _ | _⟩ := result
  · exact ⟨[], nofun, moves⟩
  · obtain ⟨log, arrivals, drains⟩ := s₁.does_drainUpTo s₁.queue.size time
    have drains := moves.trans drains
    change Does s log (drain s₁ time).1 at drains
    dsimp only
    generalize drain s₁ time = result at drains ⊢
    obtain ⟨s₂, _ | _⟩ := result
    · exact ⟨log, arrivals, drains⟩
    · dsimp only
      cases s₂.openLink? with
      | none => exact ⟨log, arrivals, drains⟩
      | some l => exact ⟨log, arrivals, drains.quietly (s₂.does_sendOutputs l.bridge)⟩

theorem does_leaveTick (s : Simulation σ ω) (cap : Option Nat) :
    ∃ log, (∀ h ∈ log, h.IsArrival) ∧ Does s log (s.leaveTick cap).1 := by
  refine leaveTick_induction (P := fun _ t => ∃ log, (∀ h ∈ log, h.IsArrival) ∧ Does s log t)
    ⟨[], nofun, .refl s⟩ (fun limit time next present sooner => ?_) fun time next inTime => ?_
  · refine ⟨[], nofun, .of_goes (Desk.Step.ticked s.kernel fun e listed => ?_).goes rfl⟩
    exact Nat.le_trans (Nat.le_of_lt sooner) (EventQueue.le_of_nextTime? next listed)
  · exact s.does_advanceTo fun e listed => EventQueue.le_of_nextTime? next listed

theorem does_purge (s : Simulation σ ω) : Does s [] s.purge := by
  have prunes (ids : List SignalId) (k : Kernel) (keep : Arming → Bool) :
      Goes ⟨k, s.queue⟩ [] ⟨ids.foldl (fun k id => k.modify id (purged keep)) k, s.queue⟩ := by
    induction ids generalizing k with
    | nil => exact .rest _
    | cons id rest ih =>
        exact (Desk.Step.rewired k s.queue id fun w => w.retain keep).goes.trans (ih _)
  rw [purge_eq]
  exact .of_goes (prunes s.stale.toList s.kernel s.waiters.isLive) rfl

/-! ## The exchange -/

/-- Values that are taken in are written, up to the first that is refused. -/
theorem does_takeIn (s : Simulation σ ω) (changed : Bool) (values : List (SignalId × Value)) :
    ∃ writes, Does s (logOfWrites writes) (s.takeIn changed values).1 ∧
      ∀ inbound, (s.takeIn changed values).2 = .ok inbound → writes = s.kernel.takes values := by
  induction values generalizing s changed with
  | nil => exact ⟨[], .refl s, fun _ _ => rfl⟩
  | cons value rest ih =>
      obtain ⟨id, value⟩ := value
      have goes := s.kernel.goes_setNext s.queue id value
      rw [takeIn, Kernel.takes]
      generalize s.kernel.write id value false = result at goes ⊢
      obtain ⟨kernel, _ | _⟩ := result
      · exact ⟨[], .refl s, fun _ _ => rfl⟩
      · have writes : Does s (logOfWrites (s.kernel.writes id value false)) { s with kernel } :=
          .of_goes goes rfl
        obtain ⟨more, takes, taken⟩ := ih { s with kernel }
          (changed || proposalDiffers s.kernel kernel id)
        refine ⟨s.kernel.writes id value false ++ more, ?_, fun inbound fine => ?_⟩
        · rw [logOfWrites_append]
          exact writes.trans takes
        · rw [taken inbound fine]

theorem does_readReply (s : Simulation σ ω) (l : Link ω) :
    ∃ writes, Does s (logOfWrites writes) (s.readReply l).1 ∧
      ∀ inbound, (s.readReply l).2 = .ok inbound → writes =
        if l.awaitingReply then
          match l.bridge.receive s.kernel.now s.world with
          | (_, .error _) => []
          | (_, .ok values) => s.kernel.takes values
        else
          [] := by
  unfold readReply
  split
  · dsimp only [changeLink]
    generalize l.bridge.receive _ _ = result
    obtain ⟨world, _ | values⟩ := result
    · exact ⟨[], .of_desk rfl rfl, fun _ _ => rfl⟩
    · obtain ⟨writes, takes, taken⟩ := does_takeIn
        { s.changeLink fun l => { l with awaitingReply := false } with world } false values
      have forgets : Does s []
          { s.changeLink fun l => { l with awaitingReply := false } with world } :=
        .of_desk rfl rfl
      exact ⟨writes, forgets.trans takes, taken⟩
  · exact ⟨[], .refl s, fun _ _ => rfl⟩

/-- An exchange writes the values that the bridge sends. -/
theorem does_exchange (s : Simulation σ ω) :
    ∃ writes, Does s (logOfWrites writes) s.exchange.1 ∧
      ∀ sent, s.exchange.2 = .ok sent → writes = s.received := by
  unfold received exchange
  cases s.openLink? with
  | none => exact ⟨[], .refl s, fun _ _ => rfl⟩
  | some l =>
      obtain ⟨writes, reads, taken⟩ := s.does_readReply l
      dsimp only
      generalize s.readReply l = result at reads taken ⊢
      obtain ⟨s₁, _ | inbound⟩ := result
      · exact ⟨writes, reads, nofun⟩
      · dsimp only
        split
        · have sends := reads.quietly (s₁.does_sendOutputs l.bridge)
          generalize s₁.sendOutputs l.bridge = result at sends ⊢
          obtain ⟨s₂, _ | _⟩ := result
          · exact ⟨writes, sends, nofun⟩
          · exact ⟨writes, sends, fun _ _ => taken inbound rfl⟩
        · exact ⟨writes, reads, fun _ _ => taken inbound rfl⟩

/-- What follows a round: the bridge writes, and then what is due arrives. -/
theorem does_proceed (s : Simulation σ ω) (cap : Option Nat) :
    ∃ writes log, (∀ h ∈ log, h.IsArrival) ∧ Does s (logOfWrites writes ++ log) (s.proceed cap).1 ∧
      ∀ sent, s.exchange.2 = .ok sent → writes = s.received := by
  obtain ⟨writes, exchanges, received⟩ := s.does_exchange
  have way := s.way_of_proceed
  generalize s.settled? = settled at way
  cases way with
  | failed exchanged proceeds =>
      rw [exchanged] at exchanges
      rw [proceeds]
      exact ⟨writes, [], nofun, by rwa [List.append_nil], received⟩
  | @entered m sent exchanged proceeds =>
      rw [exchanged] at exchanges
      have enters := (exchanges.quietly m.does_purge).quietly m.purge.does_nextDelta
      rw [proceeds, fst_goOn]
      exact ⟨writes, [], nofun, by rwa [List.append_nil], received⟩
  | @settled m exchanged pending proceeds =>
      rw [exchanged] at exchanges
      obtain ⟨log, arrivals, leaves⟩ := m.purge.does_leaveTick cap
      rw [proceeds]
      exact ⟨writes, log, arrivals, (exchanges.quietly m.does_purge).trans leaves, received⟩

/-! ## Cycles and runs -/

theorem does_wrapUp (s : Simulation σ ω) (failure : Except SimError Unit) :
    ∃ log, Does s log (s.wrapUp failure).1 := by
  obtain ⟨stopRequest, same⟩ := s.wrapUp_eq failure
  have purges := s.does_commitPending.quietly s.commitPending.1.does_purge
  rw [same]
  exact ⟨_, purges.quietly (.of_goes (Desk.Step.noted _ _ stopRequest _).goes rfl)⟩

variable {B : Behaviours σ ω}

theorem does_cycle {fuel : Nat} {s s' : Simulation σ ω} {cap : Option Nat} {verdict : Verdict}
    (staffed : s.Staffed) (turned : s.cycle B fuel cap = .ok (s', verdict)) :
    ∃ log, Does s log s' := by
  have commits := s.does_commitPending
  cases way_of_cycle turned with
  | refused committed =>
      rw [committed] at commits
      exact ⟨_, commits⟩
  | @proceeded m s₁ _ committed ran running went =>
      rw [committed] at commits
      have waits := commits.trans (does_runReady (commits.staffed staffed) ran)
      obtain ⟨writes, log, -, proceeds, -⟩ := s₁.does_proceed cap
      rw [went] at proceeds
      exact ⟨_, waits.trans proceeds⟩
  | @wrapped m s₁ failure _ committed ran stops ends =>
      rw [committed] at commits
      have waits := commits.trans (does_runReady (commits.staffed staffed) ran)
      obtain ⟨log, wraps⟩ := s₁.does_wrapUp failure
      rw [ends] at wraps
      exact ⟨_, waits.trans wraps⟩

theorem does_loop {fuel : Nat} {s s' : Simulation σ ω} {cap : Option Nat}
    {result : Except SimError Outcome} (staffed : s.Staffed)
    (looped : loop B fuel s cap = .ok (s', result)) : ∃ log, Does s log s' := by
  replace looped := way_of_loop looped
  induction looped with
  | ended turned => exact does_cycle staffed turned
  | again turned further ih =>
      obtain ⟨log, does⟩ := does_cycle staffed turned
      obtain ⟨more, loops⟩ := ih (does.staffed staffed)
      exact ⟨log ++ more, does.trans loops⟩

/-- The desk and the waiters. -/
def office (s : Simulation σ ω) : Desk × WaiterTable (Body σ) := (s.desk, s.waiters)

theorem Does.of_office {s s' : Simulation σ ω} (same : s'.office = s.office) : Does s [] s' :=
  .of_desk (congrArg Prod.fst same) (congrArg Prod.snd same)

theorem office_startHook (s : Simulation σ ω) : s.startHook.1.office = s.office := by
  unfold startHook
  split
  · rfl
  · dsimp only
    split <;> rfl

theorem office_closeLink (s : Simulation σ ω) : s.closeLink.1.office = s.office := by
  obtain ⟨link, world, same⟩ := s.closeLink_eq
  rw [same]
  rfl

theorem office_conclude (s : Simulation σ ω) (result : Except SimError Outcome) :
    (s.conclude result).1.office = s.office := by
  obtain ⟨state, link, world, same⟩ := s.conclude_eq result
  rw [same]
  rfl

theorem office_adjusts {s s' : Simulation σ ω} (adjusts : s.Adjusts s') : s'.office = s.office := by
  obtain ⟨hook, hookStarted, state, maxDeltas, defaultDuration, world, rfl⟩ := adjusts
  rfl

theorem does_run {fuel : Nat} {s s' : Simulation σ ω} {duration : Option Nat}
    {result : Except SimError Outcome} (staffed : s.Staffed)
    (ran : run B fuel s duration = .ok (s', result)) : ∃ log, Does s log s' := by
  have starts := Does.of_office s.office_startHook
  cases way_of_run ran with
  | terminated ended => exact ⟨[], .refl _⟩
  | untold running started =>
      rw [started] at starts
      exact ⟨[], starts⟩
  | @played s₁ s₂ _ final _ running started looped concluded =>
      rw [started] at starts
      obtain ⟨log, loops⟩ := does_loop (starts.staffed staffed) looped
      have concludes := loops.quietly (.of_office (s₂.office_conclude final))
      rw [concluded] at concludes
      exact ⟨log, starts.trans concludes⟩

/-! ## Building -/

/-- Building leaves the kernel as it is, and nothing is due. -/
theorem desk_build {kernel : Kernel} {instances : List (Instance σ ω)} {world : ω}
    {s : Simulation σ ω} (built : build B kernel instances world = .ok s) :
    s.desk = ⟨kernel, {}⟩ := by
  have desk {bodies : List (Body σ)} {s s' : Simulation σ ω} (adds : Adds s bodies s') :
      s'.desk = s.desk := by
    induction adds with
    | refl => rfl
    | add _ title body ih => exact ih
    | link _ link ih => exact ih
  exact desk (adds_build built)

/-- A simulation that was just built is staffed. -/
theorem staffed_build {kernel : Kernel} {instances : List (Instance σ ω)} {world : ω}
    {s : Simulation σ ω} (built : build B kernel instances world = .ok s) : s.Staffed := by
  have staffed {bodies : List (Body σ)} {s s' : Simulation σ ω} (adds : Adds s bodies s')
      (declared : ∀ body ∈ bodies, body.Declared s.kernel.shadows) (staffed : s.Staffed) :
      s'.Staffed ∧ s'.kernel = s.kernel := by
    induction adds with
    | refl => exact ⟨staffed, rfl⟩
    | @add bodies s' _ title body ih =>
        obtain ⟨declared, last⟩ := List.forall_mem_append.mp declared
        obtain ⟨staffed', same⟩ := ih declared
        refine ⟨(does_addWaiter s' title ?_ none).staffed staffed', same⟩
        rw [same]
        exact last body (List.mem_singleton_self body)
    | link _ link ih => exact ih declared
  refine (staffed (adds_build built) ?_ ?_).1
  · intro body listed
    rcases List.mem_append.mp listed with listed | listed
    · obtain ⟨shadow, declared, rfl⟩ := List.mem_map.mp listed
      exact declared
    · obtain ⟨i, -, stands⟩ := List.mem_filterMap.mp listed
      cases i with
      | process state => cases stands; trivial
      | always block => cases stands; trivial
      | group members => cases stands
      | bridge b =>
          change (if b.outputs.isEmpty then none else some Body.outputs) = some body at stands
          split at stands
          · cases stands
          · cases stands
            trivial
  · intro slot waiter body found
    exact absurd found (by simp [WaiterTable.waiter?])

end Simulation

end DeltaCycle
