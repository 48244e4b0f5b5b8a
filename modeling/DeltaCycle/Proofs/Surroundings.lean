import DeltaCycle.Proofs.Header
import DeltaCycle.Proofs.Ways

/-!
# What no waiter changes

A waiter that is resumed proposes values, is armed, makes others ready and records
diagnostics. It changes neither the committed values nor the clock, and of the simulation it
changes only the books about waiters: the surroundings of a simulation, everything else,
are the same before and after the waiters of a round have run.
-/

set_option autoImplicit false

namespace DeltaCycle

variable {σ ω α : Type}

namespace Signal

/-- The signal without what waiters change: its proposed value and its wait lists. -/
def committed (s : Signal) : Signal := { s with next := s.init, waits := {} }

end Signal

namespace Kernel

/-- The kernel without what waiters change. -/
def committed (k : Kernel) : Kernel :=
  { k with
    signals := k.signals.map Signal.committed
    pending := []
    stopRequest := none
    diagnostics := {} }

theorem committed_signals (k : Kernel) :
    k.committed.signals = k.signals.map Signal.committed := rfl

theorem signal?_committed (k : Kernel) (id : SignalId) :
    k.committed.signal? id = (k.signal? id).map Signal.committed := by
  simp only [signal?, committed, Array.getElem?_map]

/-- Signals of kernels that differ only in what waiters change differ only in that. -/
theorem signal?_of_committed {k k' : Kernel} (same : k'.committed = k.committed)
    (id : SignalId) :
    (k'.signal? id).map Signal.committed = (k.signal? id).map Signal.committed := by
  rw [← signal?_committed, same, signal?_committed]

theorem now_of_committed {k k' : Kernel} (same : k'.committed = k.committed) :
    k'.now = k.now := by
  have clocks := congrArg Kernel.now same
  exact clocks

theorem val?_of_committed {k k' : Kernel} (same : k'.committed = k.committed)
    (id : SignalId) : k'.val? id = k.val? id := by
  have values := congrArg (Option.map Signal.val) (signal?_of_committed same id)
  rw [Option.map_map, Option.map_map] at values
  exact values

theorem isSome_signal?_of_committed {k k' : Kernel} (same : k'.committed = k.committed)
    (id : SignalId) : (k'.signal? id).isSome = (k.signal? id).isSome := by
  have known := congrArg Option.isSome (signal?_of_committed same id)
  simpa only [Option.isSome_map] using known

/-- A change of one signal in what waiters change leaves the rest. -/
theorem committed_modify (k : Kernel) (id : SignalId) {f : Signal → Signal}
    (keeps : ∀ s, (f s).committed = s.committed) : (k.modify id f).committed = k.committed := by
  have same : (k.signals.modify id.index f).map Signal.committed =
      k.signals.map Signal.committed := by
    apply Array.ext
    · simp only [Array.size_map, Array.size_modify]
    · intro i _ _
      simp only [Array.getElem_map, Array.getElem_modify]
      split
      · exact keeps _
      · rfl
  simp only [committed, modify, same]

/-- What a waiter does to the kernel while it runs: it marks signals as pending, proposes values,
asks for the end and records diagnostics. That it failed is recorded by others. -/
inductive Edits (k : Kernel) : Kernel → Prop where
  | refl : Edits k k
  | mark {k' : Kernel} (edits : Edits k k') (id : SignalId) : Edits k (k'.mark id)
  | propose {k' : Kernel} (edits : Edits k k') (id : SignalId) (next : Value) :
      Edits k (k'.modify id fun s => { s with next })
  | finish {k' : Kernel} (edits : Edits k k') (reason : String) : Edits k (k'.finish reason)
  | emit {k' : Kernel} {d : Diagnostic} (edits : Edits k k') (other : d.code ≠ .processFailed) :
      Edits k (k'.emit d)

theorem Edits.trans {k k' k'' : Kernel} (first : Edits k k') (second : Edits k' k'') :
    Edits k k'' := by
  induction second with
  | refl => exact first
  | mark _ id ih => exact ih.mark id
  | propose _ id next ih => exact ih.propose id next
  | finish _ reason ih => exact ih.finish reason
  | emit _ other ih => exact ih.emit other

theorem Edits.committed {k k' : Kernel} (edits : Edits k k') : k'.committed = k.committed := by
  induction edits with
  | refl => rfl
  | mark _ id ih => exact ih
  | propose _ id next ih =>
      exact (committed_modify _ id (f := fun s => { s with next }) fun _ => rfl).trans ih
  | finish _ reason ih => exact ih
  | emit _ other ih => exact ih

theorem edits_write (k : Kernel) (id : SignalId) (value : Value) (fromRule : Bool) :
    Edits k (k.write id value fromRule).1 := by
  unfold write
  cases k.proposal id value fromRule with
  | error e => exact .refl
  | ok next => exact (Edits.refl.propose id next).mark id

theorem edits_next? {k k' : Kernel} {id : SignalId} {proposed : Value}
    (read : k.next? id = some (proposed, k')) : Edits k k' := by
  unfold next? at read
  cases found : k.signal? id with
  | none => simp [found] at read
  | some s =>
      simp only [found, Option.map_some, Option.some.injEq, Prod.mk.injEq] at read
      rw [← read.2]
      exact Edits.refl.mark id

theorem edits_changeNext (k : Kernel) (id : SignalId)
    (change : Value → Except ValueError Value) : Edits k (k.changeNext id change).1 := by
  unfold changeNext
  cases read : k.next? id with
  | none => exact .refl
  | some found =>
      obtain ⟨current, k'⟩ := found
      dsimp only
      cases change current with
      | error cause => exact edits_next? read
      | ok value => exact (edits_next? read).trans (edits_write k' id value false)

end Kernel

open Kernel

theorem Request.edits_perform {k k' : Kernel} {w w' : ω} {r : Request ω} {reply : r.Reply}
    (performed : r.perform k w = some (reply, k', w')) : Edits k k' := by
  cases r with
  | now | value _ | name _ | world _ =>
      simp only [Request.perform, Option.some.injEq, Prod.mk.injEq] at performed
      rw [← performed.2.1]
      exact .refl
  | next signal =>
      simp only [Request.perform, Option.map_eq_some_iff, Prod.mk.injEq, Prod.exists] at performed
      obtain ⟨proposed, marked, read, _, same, _⟩ := performed
      rw [← same]
      exact edits_next? read
  | setNext signal value =>
      simp only [Request.perform, Option.some.injEq, Prod.mk.injEq] at performed
      rw [← performed.2.1]
      exact edits_write k signal value false
  | setNextBit signal index bit =>
      simp only [Request.perform, Option.some.injEq, Prod.mk.injEq] at performed
      rw [← performed.2.1]
      exact edits_changeNext k signal _
  | setNextSlice signal hi lo content =>
      simp only [Request.perform, Option.some.injEq, Prod.mk.injEq] at performed
      rw [← performed.2.1]
      exact edits_changeNext k signal _
  | finish reason =>
      simp only [Request.perform, Option.some.injEq, Prod.mk.injEq] at performed
      rw [← performed.2.1]
      exact Edits.refl.finish reason

theorem Activity.edits_run {k k' : Kernel} {w w' : ω} {activity : Activity ω α}
    {answer : Except SimError α} (ran : activity.run k w = some (answer, k', w')) :
    Edits k k' := by
  induction activity generalizing k w with
  | done _ | fail _ =>
      simp only [run, Option.some.injEq, Prod.mk.injEq] at ran
      rw [← ran.2.1]
      exact .refl
  | undefined => cases ran
  | ask request go ih =>
      simp only [run] at ran
      cases performed : request.perform k w with
      | none => simp [performed] at ran
      | some replied =>
          obtain ⟨reply, k₁, w₁⟩ := replied
          simp only [performed] at ran
          exact (Request.edits_perform performed).trans (ih reply ran)
  | later go ih => exact ih () ran

namespace Shadow

theorem edits_evaluate (k : Kernel) (s : Shadow) : Edits k (s.evaluate k).1 := by
  unfold evaluate
  split
  · exact .refl
  · exact .refl
  · exact .refl
  · unfold resolve
    split
    · exact .refl
    · exact .refl
    · split
      · exact .refl
      · exact Edits.refl.emit fun same => by cases same

theorem edits_resume (k : Kernel) (s : Shadow) : Edits k (s.resume (σ := σ) k).1 := by
  unfold resume
  cases s.clause? (σ := σ) with
  | none => exact .refl
  | some clause =>
      dsimp only
      have evaluated := edits_evaluate k s
      generalize s.evaluate k = result at evaluated ⊢
      obtain ⟨k', _ | v⟩ := result
      · exact evaluated
      · dsimp only
        have written := evaluated.trans (edits_write k' s.target v true)
        generalize k'.write s.target v true = result at written ⊢
        obtain ⟨k'', _ | _⟩ := result <;> exact written

end Shadow

namespace Simulation

/-- What no waiter changes in a simulation. -/
structure Surroundings (ω : Type) where
  kernel : Kernel
  hook : Option (Hook ω)
  link : Option (Link ω)
  header : Header
  delta : Nat
  maxDeltas : Nat
  stats : RunStats

/-- The surroundings of the waiters. That an output changed is noted by a waiter. -/
def surroundings (s : Simulation σ ω) : Surroundings ω where
  kernel := s.kernel.committed
  hook := s.hook
  link := s.link.map fun l => { l with changed := true }
  header := s.header
  delta := s.delta
  maxDeltas := s.maxDeltas
  stats := s.stats

theorem committed_of_surroundings {s s' : Simulation σ ω} {stats : RunStats}
    (same : s'.surroundings = { s.surroundings with stats }) :
    s'.kernel.committed = s.kernel.committed :=
  congrArg Surroundings.kernel same

theorem surroundings_of_committed {s : Simulation σ ω} {kernel : Kernel} (world : ω)
    (same : kernel.committed = s.kernel.committed) :
    ({ s with kernel, world } : Simulation σ ω).surroundings = s.surroundings := by
  simp only [surroundings, same]
  rfl

section Arming

variable (B : Behaviours σ ω) (s : Simulation σ ω) (me : Arming)

theorem surroundings_watch (trigger : Trigger) :
    (s.watch me trigger).1.surroundings = s.surroundings := by
  unfold watch
  cases s.kernel.signal? trigger.signal with
  | none => rfl
  | some _ =>
      have same := Kernel.committed_modify s.kernel trigger.signal
        (f := fun signal => { signal with waits := enlist me signal.waits trigger })
        fun _ => rfl
      exact surroundings_of_committed (s := s) s.world same

theorem surroundings_wakeAfter (ticks : Nat) :
    (s.wakeAfter me ticks).1.surroundings = s.surroundings := by
  unfold wakeAfter
  cases s.after ticks <;> rfl

theorem surroundings_armOn (alternative : Alternative σ) :
    (s.armOn B me alternative).1.surroundings = s.surroundings := by
  cases alternative with
  | trigger t => exact surroundings_watch s me t
  | delay ticks => exact surroundings_wakeAfter s me ticks
  | noop => rfl
  | spawn child => rfl
  | join clauses =>
      obtain ⟨waiters, ready, same⟩ := addBranches_spec B
        { s with waiters := (s.waiters.openJoin clauses.length me).2 }
        (s.waiters.openJoin clauses.length me).1 clauses
      simp only [armOn, same]
      rfl
  | refused e => rfl

end Arming

section Resuming

variable {B : Behaviours σ ω}

theorem kernel_complete (s : Simulation σ ω) (slot : Nat) : (s.complete slot).kernel = s.kernel := by
  obtain ⟨waiters, ready, same⟩ := s.complete_spec slot
  rw [same]

/-- An act edits the kernel. -/
theorem edits_act {k k' : Kernel} {w w' : ω} {outputs : List SignalId} {body : Body σ}
    {done : Act σ} (acted : act B k w outputs body = some (done, k', w')) :
    Kernel.Edits k k' := by
  cases way_of_act acted with
  | process ran => exact Activity.edits_run ran
  | @shadow shadow _ _ resumed =>
      have edits := Shadow.edits_resume (σ := σ) k shadow
      rw [resumed] at edits
      exact edits
  | reacts ran => exact Activity.edits_run ran
  | _ => exact .refl

theorem surroundings_settle (s : Simulation σ ω) (me : Arming) (done : Act σ) :
    (s.settle B me done).1.surroundings = s.surroundings := by
  cases done with
  | completes =>
      obtain ⟨waiters, ready, same⟩ := s.complete_spec me.slot
      rw [settle, same]
      rfl
  | fails e => rfl
  | waits body alternatives =>
      refine rearm_induction (P := fun t => t.surroundings = s.surroundings) rfl
        (fun t same => ?_) fun t e same => same
      exact armOnAll_induction (P := fun t => t.surroundings = s.surroundings) same
        fun t alternative _ same => (surroundings_armOn B t me alternative).trans same

theorem surroundings_noteOutputs (s : Simulation σ ω) (me : Arming) :
    (s.noteOutputs me).1.surroundings = s.surroundings := by
  have noted :
      ({ s with link := s.link.map fun (l : Link ω) => { l with changed := true } } :
        Simulation σ ω).surroundings = s.surroundings := by
    cases linked : s.link <;> simp only [surroundings, linked] <;> rfl
  exact noteOutputs_induction (P := fun t => t.surroundings = s.surroundings) noted
    (fun t trigger same => (surroundings_watch t me trigger).trans same) fun t same => same

theorem surroundings_runBody {s s' : Simulation σ ω} {me : Arming} {body : Body σ}
    {result : Except SimError Unit} (ran : runBody B s me body = some (s', result)) :
    s'.surroundings = s.surroundings := by
  cases way_of_runBody ran with
  | noted notes =>
      have kept := surroundings_noteOutputs s me
      rwa [notes] at kept
  | @acted _ done kernel world _ _ acted settled =>
      have kept := surroundings_settle (B := B) { s with kernel, world } me done
      rw [settled] at kept
      exact kept.trans (surroundings_of_committed world (edits_act acted).committed)

/-- A resume is counted, unless the arming is stale. -/
theorem surroundings_runWaiter {s s' : Simulation σ ω} {arming : Arming}
    {result : Except SimError Unit} (ran : runWaiter B s arming = some (s', result)) :
    s'.surroundings =
      { s.surroundings with
        stats := { s.stats with
          resumes := s.stats.resumes + (s.waiters.consume arming).1.isSome.toNat } } := by
  rw [runWaiter] at ran
  generalize s.waiters.consume arming = claim at ran ⊢
  obtain ⟨_ | ⟨me, body, stale⟩, waiters⟩ := claim
  · cases ran
    rfl
  · have kept := surroundings_runBody ran
    exact kept

/-- The waiters of a round leave the surroundings as they are, except that resumes are counted. -/
theorem surroundings_runReady {fuel : Nat} {s s' : Simulation σ ω}
    {failure failure' : Except SimError Unit}
    (ran : runReady B fuel s failure = .ok (s', failure')) :
    ∃ resumes, s'.surroundings = { s.surroundings with stats := { s.stats with resumes } } := by
  replace ran := way_of_runReady ran
  induction ran with
  | idle => exact ⟨_, rfl⟩
  | @resumed _ _ s₁ _ _ _ _ popped resumed further ih =>
      have kept := surroundings_runWaiter resumed
      have stats := congrArg Surroundings.stats kept
      change s₁.stats = _ at stats
      obtain ⟨resumes, same⟩ := ih
      refine ⟨resumes, ?_⟩
      rw [same, kept, stats]
      rfl

end Resuming

end Simulation

end DeltaCycle
