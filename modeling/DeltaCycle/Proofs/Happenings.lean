import DeltaCycle.Proofs.Passage

/-!
# Happenings

Of all that a simulation is made of, signals depend on the kernel and the event queue alone,
the desk. Whatever a simulation does comes down to few kinds of steps of its desk. The happenings
of a course are its log: what was written, which signals were updated, and what came due.
-/

set_option autoImplicit false

namespace DeltaCycle

variable {σ ω α : Type}

/-- What happens to signals. -/
inductive Happening where
  /-- A value was written, here as the signal represents it. -/
  | written (signal : SignalId) (value : Value)
  /-- A commit phase took what was pending. -/
  | collected
  /-- The update phase of a signal found a value proposed. -/
  | updated (time : Nat) (signal : SignalId) (value : Value)
  /-- The update phase of a signal failed: the hook refused the change, or the delay reaches past
  the last tick. -/
  | lost (signal : SignalId)
  /-- A value came due. -/
  | arrived (signal : SignalId) (value : Value) (stamp : Nat)

/-- The signal that a happening is about. -/
def Happening.signal? : Happening → Option SignalId
  | written id _ | updated _ id _ | lost id | arrived id .. => some id
  | collected => none

/-- A value came due. -/
def Happening.IsArrival : Happening → Prop
  | arrived .. => True
  | _ => False

/-- The signals, and what is due. -/
structure Desk where
  kernel : Kernel
  queue : EventQueue

/-- A value that the rule of a shadow gives for its target. -/
def Kernel.Gives (k : Kernel) (id : SignalId) (value : Value) : Prop :=
  ∃ shadow ∈ k.shadows, shadow.target = id ∧ (shadow.evaluate k).2 = .ok value

/-- What the outcome of an update phase puts into the queue. -/
def EventQueue.defer (q : EventQueue) (now : Nat) (id : SignalId) : Commit → EventQueue
  | .deferred delay value stamp => q.push (now + delay) (.apply id value stamp)
  | _ => q

namespace Desk

/-- A step of a desk, with what happens in it. -/
inductive Step : Desk → Option Happening → Desk → Prop where
  | marked (k : Kernel) (q : EventQueue) (id : SignalId) : Step ⟨k, q⟩ none ⟨k.mark id, q⟩
  | noted (k : Kernel) (q : EventQueue) (stopRequest : Option String)
      (diagnostics : DiagnosticLog) : Step ⟨k, q⟩ none ⟨{ k with stopRequest, diagnostics }, q⟩
  | rewired (k : Kernel) (q : EventQueue) (id : SignalId) (f : WaitLists → WaitLists) :
      Step ⟨k, q⟩ none ⟨k.modify id fun s => { s with waits := f s.waits }, q⟩
  | written {k : Kernel} (q : EventQueue) {id : SignalId} {value next : Value} {fromRule : Bool}
      (proposed : k.proposal id value fromRule = .ok next)
      (given : fromRule = true → k.Gives id value) :
      Step ⟨k, q⟩ (some (.written id next)) ⟨(k.modify id fun s => { s with next }).mark id, q⟩
  | collected (k : Kernel) (q : EventQueue) :
      Step ⟨k, q⟩ (some .collected) ⟨{ k with pending := [] }, q⟩
  | updated {k : Kernel} (q : EventQueue) {id : SignalId} {signal : Signal}
      (found : k.signal? id = some signal) :
      Step ⟨k, q⟩ (some (.updated k.now id signal.next))
        ⟨k.modify id fun s => s.update.1, q.defer k.now id signal.update.2⟩
  | lost (k : Kernel) (q : EventQueue) (id : SignalId) :
      Step ⟨k, q⟩ (some (.lost id)) ⟨k.modify id fun s => s.update.1, q⟩
  | queued {k : Kernel} (q : EventQueue) {time : Nat} (a : Arming) (ahead : k.now ≤ time) :
      Step ⟨k, q⟩ none ⟨k, q.push time (.wake a)⟩
  | taken (k : Kernel) {q rest : EventQueue} {time : Nat} {a : Arming}
      (popped : q.popDue time = some (.wake a, rest)) : Step ⟨k, q⟩ none ⟨k, rest⟩
  | arrived (k : Kernel) {q rest : EventQueue} {time : Nat} {id : SignalId} {value : Value}
      {stamp : Nat} (popped : q.popDue time = some (.apply id value stamp, rest)) :
      Step ⟨k, q⟩ (some (.arrived id value stamp))
        ⟨k.modify id fun s => (s.applyDeferred value stamp).1, rest⟩
  | ticked (k : Kernel) {q : EventQueue} {time : Nat} (undue : ∀ e ∈ q.toList, time ≤ e.time) :
      Step ⟨k, q⟩ none ⟨{ k with now := time }, q⟩

/-- Steps one after the other, with the log of what happens. -/
inductive Goes : Desk → List Happening → Desk → Prop where
  | rest (d : Desk) : Goes d [] d
  | step {d d' d'' : Desk} {happening : Option Happening} {log : List Happening}
      (first : Step d happening d') (others : Goes d' log d'') :
      Goes d (happening.toList ++ log) d''

theorem Goes.trans {d d' d'' : Desk} {log more : List Happening} (first : Goes d log d')
    (second : Goes d' more d'') : Goes d (log ++ more) d'' := by
  induction first with
  | rest d => exact second
  | step happens others ih =>
      rw [List.append_assoc]
      exact .step happens (ih second)

theorem Step.goes {d d' : Desk} {happening : Option Happening} (step : Step d happening d') :
    Goes d happening.toList d' := by
  have goes := Goes.step step (.rest d')
  rwa [List.append_nil] at goes

/-- What every step keeps is kept. -/
theorem Goes.keeps {P : Desk → Prop}
    (kept : ∀ {d happening d'}, Step d happening d' → P d → P d') {d d' : Desk}
    {log : List Happening} (goes : Goes d log d') (holds : P d) : P d' := by
  induction goes with
  | rest d => exact holds
  | step happens others ih => exact ih (kept happens holds)

/-- What every step keeps that is part of the log of a course. -/
theorem Goes.keeps_of_log {P : Desk → Prop} {allowed : Happening → Prop}
    (kept : ∀ {d happening d'}, Step d happening d' → (∀ h ∈ happening, allowed h) → P d → P d')
    {d d' : Desk} {log : List Happening} (goes : Goes d log d')
    (only : ∀ h ∈ log, allowed h) (holds : P d) : P d' := by
  induction goes with
  | rest d => exact holds
  | step happens others ih =>
      refine ih (fun h listed => only h (List.mem_append_right _ listed)) (kept happens ?_ holds)
      exact fun h listed => only h (List.mem_append_left _ (Option.mem_toList.mpr listed))

end Desk

/-! ## Signals of a kernel -/

namespace Kernel

theorem modify_of_found {k : Kernel} {id : SignalId} {signal : Signal}
    (found : k.signal? id = some signal) (f : Signal → Signal) :
    (k.modify id fun _ => f signal) = k.modify id f := by
  obtain ⟨_, here⟩ := Array.getElem?_eq_some_iff.mp found
  have same : (k.signals.modify id.index fun _ => f signal) = k.signals.modify id.index f := by
    apply Array.ext
    · simp only [Array.size_modify]
    · intro i _ _
      simp only [Array.getElem_modify]
      split
      · next at_index =>
          subst at_index
          rw [here]
      · rfl
  simp only [modify, same]

theorem modify_of_unknown {k : Kernel} {id : SignalId} (unknown : k.signal? id = none)
    (f : Signal → Signal) : k.modify id f = k := by
  have same : k.signals.modify id.index f = k.signals := by
    apply Array.ext
    · simp only [Array.size_modify]
    · intro i _ bound
      rw [Array.getElem_modify, if_neg]
      rintro rfl
      exact absurd ((Array.getElem?_eq_getElem bound).symm.trans unknown) nofun
  rw [modify, same]

end Kernel

/-! ## What is written -/

namespace Kernel

/-- What a write writes. -/
def writes (k : Kernel) (id : SignalId) (value : Value) (fromRule : Bool) :
    List (SignalId × Value) :=
  match k.proposal id value fromRule with
  | .ok next => [(id, next)]
  | .error _ => []

/-- What a change of the proposed value writes. -/
def rewrites (k : Kernel) (id : SignalId) (change : Value → Except ValueError Value) :
    List (SignalId × Value) :=
  match k.signal? id with
  | none => []
  | some signal =>
      match change signal.next with
      | .error _ => []
      | .ok value => k.writes id value false

/-- What received values write, up to the first that is refused. -/
def takes (k : Kernel) : List (SignalId × Value) → List (SignalId × Value)
  | [] => []
  | (id, value) :: rest =>
      match k.write id value false with
      | (_, .error _) => []
      | (k', .ok _) => k.writes id value false ++ takes k' rest

end Kernel

/-- What a request writes. -/
def Request.writes (k : Kernel) : Request ω → List (SignalId × Value)
  | setNext id proposed => k.writes id proposed false
  | setNextBit id index bit => k.rewrites id (·.withBit index bit)
  | setNextSlice id hi lo content => k.rewrites id (·.withSlice hi lo content)
  | _ => []

/-- What an activity writes where it is carried out. -/
def Activity.writes (k : Kernel) (w : ω) : Activity ω α → List (SignalId × Value)
  | ask request go =>
      match request.perform k w with
      | none => []
      | some (reply, k', w') => request.writes k ++ (go reply).writes k' w'
  | later go => (go ()).writes k w
  | _ => []

/-- What a shadow writes where it is recomputed. -/
def Shadow.writes (σ : Type) (k : Kernel) (s : Shadow) : List (SignalId × Value) :=
  match Shadow.clause? (σ := σ) s with
  | none => []
  | some _ =>
      match s.evaluate k with
      | (_, .error _) => []
      | (k', .ok value) => k'.writes s.target value true

/-- What a waiter writes that is resumed with a body. -/
def Body.writes (B : Behaviours σ ω) (k : Kernel) (w : ω) : Body σ → List (SignalId × Value)
  | .process state => (B.resume state).writes k w
  | .shadow rule => rule.writes σ k
  | .always block true => (B.react block.body).writes k w
  | _ => []

namespace Simulation

/-- What the waiter of an arming writes if it is resumed now. -/
def waiterWrites (B : Behaviours σ ω) (s : Simulation σ ω) (a : Arming) :
    List (SignalId × Value) :=
  match (s.waiters.consume a).1 with
  | none => []
  | some (_, body, _) => body.writes B s.kernel s.world

/-- What the waiters write, in the order of resumes, until none is ready. -/
def writes (B : Behaviours σ ω) : Nat → Simulation σ ω → List (SignalId × Value)
  | 0, _ => []
  | fuel + 1, s =>
      match s.ready.pop? with
      | none => []
      | some (a, ready) =>
          match runWaiter B { s with ready } a with
          | none => []
          | some (s', _) => s.waiterWrites B a ++ writes B fuel s'

theorem writes_of_idle {B : Behaviours σ ω} {s : Simulation σ ω} (idle : s.ready.pop? = none)
    (fuel : Nat) : s.writes B fuel = [] := by
  cases fuel with
  | zero => rfl
  | succ fuel => rw [writes, idle]

theorem writes_succ {B : Behaviours σ ω} {s s₁ : Simulation σ ω} {a : Arming}
    {ready : Fifo Arming} {result : Except SimError Unit} (popped : s.ready.pop? = some (a, ready))
    (resumed : runWaiter B { s with ready } a = some (s₁, result)) (fuel : Nat) :
    s.writes B (fuel + 1) = s.waiterWrites B a ++ s₁.writes B fuel := by
  simp only [writes, popped, resumed]

/-- What the reply of the bridge writes, if one is awaited. -/
def received (s : Simulation σ ω) : List (SignalId × Value) :=
  match s.openLink? with
  | none => []
  | some l =>
      if l.awaitingReply then
        match l.bridge.receive s.kernel.now s.world with
        | (_, .error _) => []
        | (_, .ok values) => s.kernel.takes values
      else
        []

/-- What the update phases of signals find proposed, in order. -/
def found (s : Simulation σ ω) : List SignalId → List (SignalId × Value)
  | [] => []
  | id :: rest =>
      ((s.kernel.signal? id).map fun signal => (id, signal.next)).toList ++
        found (s.step id Signal.update).1 rest

/-- What a commit phase finds proposed: one entry for each update. -/
def updated (s : Simulation σ ω) : List (SignalId × Value) :=
  found { s with kernel := { s.kernel with pending := [] } } s.kernel.pending.reverse

end Simulation

/-- The log of writes. -/
def logOfWrites (writes : List (SignalId × Value)) : List Happening :=
  writes.map fun write => .written write.1 write.2

@[simp] theorem logOfWrites_append (first second : List (SignalId × Value)) :
    logOfWrites (first ++ second) = logOfWrites first ++ logOfWrites second :=
  List.map_append

/-- What a happening writes. -/
def Happening.write? : Happening → Option (SignalId × Value)
  | written id value => some (id, value)
  | _ => none

theorem write?_of_arrivals {log : List Happening} (arrivals : ∀ h ∈ log, h.IsArrival) :
    log.filterMap Happening.write? = [] := by
  refine List.filterMap_eq_nil_iff.mpr fun h listed => ?_
  have arrival := arrivals h listed
  cases h <;> first | rfl | exact absurd arrival id

theorem write?_logOfWrites (writes : List (SignalId × Value)) :
    (logOfWrites writes).filterMap Happening.write? = writes := by
  rw [logOfWrites, List.filterMap_map]
  exact List.filterMap_some

/-- The log of the update phases of a commit phase. -/
def logOfUpdates (now : Nat) (updates : List (SignalId × Value)) : List Happening :=
  updates.map fun update => .updated now update.1 update.2

/-! ## Writing is a course of steps -/

namespace Kernel

open Desk

theorem goes_write {k : Kernel} (q : EventQueue) {id : SignalId} {value : Value}
    {fromRule : Bool} (given : fromRule = true → k.Gives id value) :
    Goes ⟨k, q⟩ (logOfWrites (k.writes id value fromRule)) ⟨(k.write id value fromRule).1, q⟩ := by
  unfold write writes
  cases proposed : k.proposal id value fromRule with
  | error e => exact .rest _
  | ok next => exact (Step.written q proposed given).goes

/-- Not every write is by a rule. -/
theorem goes_setNext (k : Kernel) (q : EventQueue) (id : SignalId) (value : Value) :
    Goes ⟨k, q⟩ (logOfWrites (k.writes id value false)) ⟨(k.write id value false).1, q⟩ :=
  goes_write q nofun

theorem goes_next? {k k' : Kernel} (q : EventQueue) {id : SignalId} {proposed : Value}
    (read : k.next? id = some (proposed, k')) : Goes ⟨k, q⟩ [] ⟨k', q⟩ := by
  unfold next? at read
  cases found : k.signal? id with
  | none => simp [found] at read
  | some s =>
      simp only [found, Option.map_some, Option.some.injEq, Prod.mk.injEq] at read
      rw [← read.2]
      exact (Step.marked k q id).goes

theorem goes_changeNext (k : Kernel) (q : EventQueue) (id : SignalId)
    (change : Value → Except ValueError Value) :
    Goes ⟨k, q⟩ (logOfWrites (k.rewrites id change)) ⟨(k.changeNext id change).1, q⟩ := by
  unfold changeNext rewrites next?
  cases k.signal? id with
  | none => exact .rest _
  | some signal =>
      have marked := (Step.marked k q id).goes
      dsimp only [Option.map_some]
      cases change signal.next with
      | error cause => exact marked
      | ok value => exact marked.trans (goes_setNext (k.mark id) q id value)

end Kernel

open Desk

theorem Request.goes_perform {k k' : Kernel} {w w' : ω} (q : EventQueue) {r : Request ω}
    {reply : r.Reply} (performed : r.perform k w = some (reply, k', w')) :
    Goes ⟨k, q⟩ (logOfWrites (r.writes k)) ⟨k', q⟩ := by
  cases r with
  | now | value _ | name _ | world _ =>
      simp only [Request.perform, Option.some.injEq, Prod.mk.injEq] at performed
      rw [← performed.2.1]
      exact .rest _
  | next signal =>
      simp only [Request.perform, Option.map_eq_some_iff, Prod.mk.injEq, Prod.exists] at performed
      obtain ⟨proposed, marked, read, _, same, _⟩ := performed
      rw [← same]
      exact Kernel.goes_next? q read
  | setNext signal value =>
      simp only [Request.perform, Option.some.injEq, Prod.mk.injEq] at performed
      rw [← performed.2.1]
      exact k.goes_setNext q signal value
  | setNextBit signal index bit =>
      simp only [Request.perform, Option.some.injEq, Prod.mk.injEq] at performed
      rw [← performed.2.1]
      exact k.goes_changeNext q signal (·.withBit index bit)
  | setNextSlice signal hi lo content =>
      simp only [Request.perform, Option.some.injEq, Prod.mk.injEq] at performed
      rw [← performed.2.1]
      exact k.goes_changeNext q signal (·.withSlice hi lo content)
  | finish reason =>
      simp only [Request.perform, Option.some.injEq, Prod.mk.injEq] at performed
      rw [← performed.2.1]
      exact (Step.noted k q _ k.diagnostics).goes

theorem Activity.goes_run {k k' : Kernel} {w w' : ω} (q : EventQueue) {activity : Activity ω α}
    {answer : Except SimError α} (ran : activity.run k w = some (answer, k', w')) :
    Goes ⟨k, q⟩ (logOfWrites (activity.writes k w)) ⟨k', q⟩ := by
  induction activity generalizing k w with
  | done _ | fail _ =>
      simp only [run, Option.some.injEq, Prod.mk.injEq] at ran
      rw [← ran.2.1]
      exact .rest _
  | undefined => cases ran
  | ask request go ih =>
      simp only [run] at ran
      cases performed : request.perform k w with
      | none => simp [performed] at ran
      | some replied =>
          obtain ⟨reply, k₁, w₁⟩ := replied
          simp only [performed] at ran
          simp only [writes, performed, logOfWrites_append]
          exact (Request.goes_perform q performed).trans (ih reply ran)
  | later go ih => exact ih () ran

namespace Shadow

/-- What a rule gives does not depend on the diagnostics. -/
theorem evaluate_emit (k : Kernel) (d : Diagnostic) (s : Shadow) :
    (s.evaluate (k.emit d)).2 = (s.evaluate k).2 := by
  have parts (list : List ConcatPart) : (k.emit d).partValues list = k.partValues list := by
    induction list with
    | nil => rfl
    | cons part rest ih =>
        simp only [Kernel.partValues, ih]
        cases part <;> rfl
  unfold evaluate
  split
  · rfl
  · rfl
  · simp only [join, parts]
  · next drivers rule =>
      have same : asserted (k.emit d) drivers = asserted k drivers := rfl
      simp only [resolve, same]
      split
      · rfl
      · rfl
      · have policy : (k.emit d).contention = k.contention := rfl
        rw [policy]
        cases k.contention <;> rfl

/-- To evaluate a rule records a diagnostic at most, and does not change what it gives. -/
theorem evaluate_fst (k : Kernel) (s : Shadow) :
    (s.evaluate k).1 = k ∨ ∃ d, (s.evaluate k).1 = k.emit d := by
  unfold evaluate
  split
  · exact .inl rfl
  · exact .inl rfl
  · exact .inl rfl
  · unfold resolve
    split
    · exact .inl rfl
    · exact .inl rfl
    · split
      · exact .inl rfl
      · exact .inr ⟨_, rfl⟩

theorem goes_evaluate (k : Kernel) (q : EventQueue) (s : Shadow) :
    Goes ⟨k, q⟩ [] ⟨(s.evaluate k).1, q⟩ := by
  rcases evaluate_fst k s with same | ⟨d, same⟩
  · rw [same]
    exact .rest _
  · rw [same]
    exact (Step.noted k q k.stopRequest _).goes

theorem gives_evaluate {k k' : Kernel} {s : Shadow} {value : Value} (declared : s ∈ k.shadows)
    (evaluated : s.evaluate k = (k', .ok value)) : k'.Gives s.target value := by
  rcases evaluate_fst k s with same | ⟨d, same⟩
  · rw [evaluated] at same
    dsimp only at same
    subst same
    exact ⟨s, declared, rfl, by rw [evaluated]⟩
  · rw [evaluated] at same
    dsimp only at same
    subst same
    exact ⟨s, declared, rfl, by rw [evaluate_emit, evaluated]⟩

theorem goes_resume {k : Kernel} (q : EventQueue) {s : Shadow} (declared : s ∈ k.shadows) :
    Goes ⟨k, q⟩ (logOfWrites (s.writes σ k)) ⟨(s.resume (σ := σ) k).1, q⟩ := by
  unfold resume writes
  cases s.clause? (σ := σ) with
  | none => exact .rest _
  | some clause =>
      dsimp only
      have evaluates := goes_evaluate k q s
      have gives (k' : Kernel) (value : Value) (evaluated : s.evaluate k = (k', .ok value)) :=
        gives_evaluate declared evaluated
      generalize s.evaluate k = result at evaluates gives ⊢
      obtain ⟨k', e | value⟩ := result
      · exact evaluates
      · dsimp only
        have given : true = true → k'.Gives s.target value := fun _ => gives k' value rfl
        have writes := evaluates.trans (Kernel.goes_write q given)
        generalize k'.write s.target value true = result at writes ⊢
        obtain ⟨k'', _ | _⟩ := result <;> exact writes

end Shadow

end DeltaCycle
