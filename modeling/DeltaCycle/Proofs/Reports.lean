import DeltaCycle.Proofs.Filing
import DeltaCycle.Proofs.Proceedings

/-!
# Reports of failures

That a waiter failed is recorded where it is dropped, under the name that it had when it was
resumed. Nothing else records a failure, so that the reports of a round are those of its lapses.
-/

set_option autoImplicit false

namespace DeltaCycle

variable {σ ω : Type}

namespace Kernel

/-- The reports of waiters that failed. -/
def failures (k : Kernel) : List Diagnostic :=
  k.diagnostics.entries.filter (·.code = .processFailed)

theorem failures_emit (k : Kernel) (d : Diagnostic) :
    (k.emit d).failures = k.failures ++ [d].filter (·.code = .processFailed) := by
  unfold failures DiagnosticLog.entries
  rw [emit, DiagnosticLog.emit, List.reverse_cons, List.filter_append]

theorem Edits.failures {k k' : Kernel} (edits : Edits k k') : k'.failures = k.failures := by
  induction edits with
  | refl => rfl
  | mark _ id ih => exact ih
  | propose _ id next ih => exact ih
  | finish _ reason ih => exact ih
  | emit _ other ih =>
      rw [failures_emit, List.filter_singleton, decide_eq_false other, cond_false, List.append_nil]
      exact ih

end Kernel

/-- The report that the waiter failed. -/
def Lapse.report (now : Nat) (lapse : Lapse σ) : Diagnostic :=
  Simulation.failureReport lapse.name now lapse.error

namespace Simulation

variable {B : Behaviours σ ω} {slot : Nat} {s s' s'' : Simulation σ ω}

/-! ## Arming -/

/-- A waiter stays under its name, and neither time nor the reports of failures change. -/
structure Bides (slot : Nat) (s s' : Simulation σ ω) : Prop where
  wellFormed : s'.waiters.WellFormed
  present : ∃ waiter, s'.waiters.waiter? slot = some waiter
  name : s'.waiters.name slot = s.waiters.name slot
  now : s'.kernel.now = s.kernel.now
  failures : s'.kernel.failures = s.kernel.failures

theorem Bides.evolves (h : Bides slot s s') (evolves : s'.waiters.Evolves s''.waiters)
    (kernel : s''.kernel = s'.kernel) : Bides slot s s'' := by
  obtain ⟨waiter, found⟩ := h.present
  obtain ⟨waiter', found', -, name, -⟩ := evolves.kept found
  refine ⟨evolves.wellFormed, ⟨waiter', found'⟩, ?_, ?_, ?_⟩
  · rw [← h.name, WaiterTable.name, WaiterTable.name, found, found']
    exact name
  · rw [kernel]
    exact h.now
  · rw [kernel]
    exact h.failures

theorem Bides.addBranches (h : Bides slot s s') (group : Nat) (clauses : List (Clause σ)) :
    Bides slot s (clauses.foldl (addBranch B group) s') := by
  induction clauses generalizing s' with
  | nil => exact h
  | cons clause rest ih =>
      obtain ⟨title, added⟩ := addBranch_eq (B := B) s' group clause
      rw [List.foldl_cons, added]
      exact ih (h.evolves (.insert h.wellFormed title _ _) rfl)

theorem Bides.armOn (h : Bides slot s s') (me : Arming) (alternative : Alternative σ) :
    Bides slot s (s'.armOn B me alternative).1 := by
  have same := WaiterTable.Evolves.refl h.wellFormed
  cases alternative with
  | trigger trigger =>
      change Bides slot s (s'.watch me trigger).1
      unfold watch
      cases s'.kernel.signal? trigger.signal with
      | none => exact h
      | some signal =>
          have noted : s'.waiters.Evolves (s'.waiters.noteSubscription me.slot trigger.signal) :=
            .modify h.wellFormed me.slot (fun _ => rfl) (fun _ => rfl)
              fun _ _ listed => List.mem_cons_of_mem _ listed
          have still : Bides slot s
              { s' with waiters := s'.waiters.noteSubscription me.slot trigger.signal } :=
            h.evolves noted rfl
          exact ⟨still.wellFormed, still.present, still.name, still.now, still.failures⟩
  | delay ticks =>
      change Bides slot s (s'.wakeAfter me ticks).1
      unfold wakeAfter
      cases s'.after ticks with
      | error e => exact h
      | ok time => exact h.evolves same rfl
  | noop => exact h.evolves same rfl
  | spawn child => exact h.evolves (.insert h.wellFormed _ _ _) rfl
  | join clauses =>
      obtain ⟨-, waiters⟩ := s'.waiters.openJoin_kept clauses.length me
      have opened : Bides slot s
          { s' with waiters := (s'.waiters.openJoin clauses.length me).2 } := by
        obtain ⟨waiter, found⟩ := h.present
        refine ⟨h.wellFormed.openJoin clauses.length me, ⟨waiter, (waiters slot).trans found⟩, ?_,
          h.now, h.failures⟩
        rw [← h.name, WaiterTable.name, WaiterTable.name, waiters]
      exact opened.addBranches _ clauses
  | refused e => exact h

theorem Bides.armOnAll (h : Bides slot s s') (me : Arming) (alternatives : List (Alternative σ)) :
    Bides slot s (s'.armOnAll B me alternatives).1 :=
  armOnAll_induction h fun _ alternative _ bides => bides.armOn me alternative

/-! ## Resuming -/

/-- What is recorded when a waiter comes to an end with a result. -/
def recorded (name : String) (now : Nat) : Except SimError Unit → List Diagnostic
  | .ok _ => []
  | .error e => [failureReport name now e]

theorem failures_drop (s : Simulation σ ω) (slot : Nat) (e : SimError) :
    (s.drop slot e).kernel.failures =
      s.kernel.failures ++ [failureReport (s.waiters.name slot) s.kernel.now e] :=
  s.kernel.failures_emit _

theorem failures_settle (me : Arming) (wf : s.waiters.WellFormed)
    (present : ∃ waiter, s.waiters.waiter? me.slot = some waiter) (done : Act σ) :
    (s.settle B me done).1.kernel.failures =
      s.kernel.failures ++ recorded (s.waiters.name me.slot) s.kernel.now (s.settle B me done).2 := by
  cases done with
  | completes =>
      change (s.complete me.slot).kernel.failures = s.kernel.failures ++ []
      rw [kernel_complete, List.append_nil]
  | fails e => exact s.failures_drop me.slot e
  | waits body alternatives =>
      have bides : Bides me.slot s s := ⟨wf, present, rfl, rfl, rfl⟩
      have restored : s.waiters.Evolves (s.waiters.restore me.slot body) :=
        .modify wf me.slot (fun _ => rfl) (fun _ => rfl) fun _ _ => id
      have back : Bides me.slot s { s with waiters := s.waiters.restore me.slot body } :=
        bides.evolves restored rfl
      have armed := back.armOnAll (B := B) me alternatives
      unfold settle rearm
      dsimp only
      generalize Simulation.armOnAll B _ me alternatives = result at armed ⊢
      obtain ⟨s₁, e | ⟨⟩⟩ := result
      · dsimp only at armed ⊢
        rw [failures_drop, armed.failures, armed.name, armed.now]
        rfl
      · exact armed.failures.trans (List.append_nil _).symm

/-- The report of a waiter that is resumed is that of its lapse, if it fails. -/
theorem failures_runWaiter {left : List (Remnant σ)} (filed : Filed left s)
    (known : s.OutputsKnown) {a : Arming} {result : Except SimError Unit}
    (ran : runWaiter B s a = some (s', result)) :
    s'.kernel.failures =
      s.kernel.failures ++ ((s.lapseOf? B a result).map (·.report s.kernel.now)).toList := by
  cases way_of_runWaiter known ran with
  | skipped unclaimed => exact (List.append_nil _).symm
  | @acted me body stale waiters done k w _ _ claimed acted settled =>
      obtain ⟨waiter, held, -, rfl, found⟩ := WaiterTable.waiter?_of_consume claimed
      have edits := edits_act acted
      have now : k.now = s.kernel.now := Kernel.now_of_committed edits.committed
      have wf : waiters.WellFormed := (filed.claim claimed).wellFormed
      have name : waiters.name a.slot = s.waiters.name a.slot := by
        rw [WaiterTable.name, WaiterTable.name, found, held]
      have after := failures_settle (B := B) (s := s.afterAct waiters stale body k w)
        ⟨a.slot, s.waiters.lastToken + 1⟩ wf ⟨_, found⟩ done
      rw [settled] at after
      dsimp only [afterAct] at after
      rw [edits.failures, name, now] at after
      cases result with
      | ok _ => exact after
      | error e => exact after

/-- The reports of a round are those of its lapses, in order. -/
theorem failures_runReady {left : List (Remnant σ)} {fuel : Nat}
    {failure failure' : Except SimError Unit} (filed : Filed left s) (known : s.OutputsKnown)
    (ran : runReady B fuel s failure = .ok (s', failure')) :
    s'.kernel.failures =
      s.kernel.failures ++ (s.lapses B fuel).map (·.report s.kernel.now) := by
  replace ran := way_of_runReady ran
  induction ran generalizing left with
  | idle idle =>
      rw [lapses_of_idle idle]
      exact (List.append_nil _).symm
  | @resumed _ s s₁ _ _ _ ready popped resumed further ih =>
      have same := surroundings_runWaiter resumed
      have now : s₁.kernel.now = s.kernel.now := now_of_surroundings same
      have popped' : Filed left { s with ready } := filed.same rfl rfl id
      have first : s₁.kernel.failures = s.kernel.failures ++ _ :=
        failures_runWaiter popped' known resumed
      have rest := ih (popped'.runWaiter known resumed) (known.of_surroundings same)
      rw [rest, first, now, lapses_succ popped resumed, List.map_append, ← Option.toList_map,
        List.append_assoc]
      rfl

/-! ## Committing -/

theorem failures_step (s : Simulation σ ω) (id : SignalId) (f : Signal → Signal × Commit) :
    (s.step id f).1.kernel.failures = s.kernel.failures := by
  rw [kernel_step]
  rfl

theorem failures_commitPending (s : Simulation σ ω) :
    s.commitPending.1.kernel.failures = s.kernel.failures := by
  have each (ids : List SignalId) (s : Simulation σ ω) (failure : Except SimError Unit) :
      (s.updateAll failure ids).1.kernel.failures = s.kernel.failures := by
    induction ids generalizing s failure with
    | nil => rfl
    | cons id rest ih => exact (ih _ _).trans (s.failures_step id _)
  exact each _ _ _

theorem failures_wrapUp (s : Simulation σ ω) (failure : Except SimError Unit) :
    (s.wrapUp failure).1.kernel.failures = s.kernel.failures := by
  obtain ⟨stopRequest, wrapped⟩ := s.wrapUp_eq failure
  obtain ⟨signals, purged⟩ := kernel_purge s.commitPending.1
  rw [wrapped, purged]
  exact s.failures_commitPending

end Simulation

end DeltaCycle
