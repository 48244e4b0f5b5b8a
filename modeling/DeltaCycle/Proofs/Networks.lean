import DeltaCycle.Proofs.Candour
import DeltaCycle.Proofs.Footprints
import DeltaCycle.Proofs.Sweeping
import DeltaCycle.Proofs.Tenancy
import DeltaCycle.Proofs.Tiers
import DeltaCycle.Stimulus

/-!
# Networks

A network is a simulation of shadows and scripts alone. Its shadows keep their places in the waiter
table, and a shadow that is resumed in a delta cycle proposes a value for a signal whose tier is not
below that cycle. So every delta cycle clears one more tier.
-/

set_option autoImplicit false

namespace DeltaCycle

variable {ω : Type}

/-- Scripts as processes, and no blocks. -/
def Script.behaviours : Behaviours Script ω where
  name := Script.name
  resume := Script.resume
  react := .done

namespace Script

/-- A script waits for some ticks, if it waits, and fails by a write that is refused. -/
theorem play_spec {name : String} {now : Nat} {steps : List ScriptStep} {k k' : Kernel} {w w' : ω}
    {answer : Except SimError (Step Script)}
    (ran : (play name now steps).run k w = some (answer, k', w')) :
    Candid answer ∧
      ∀ state clause, answer = .ok (.wait state clause) → ∃ ticks, 0 < ticks ∧ clause = .delay ticks := by
  induction steps generalizing k w with
  | nil =>
      cases ran
      exact ⟨trivial, fun state clause waits => by cases waits⟩
  | cons step rest ih =>
      rw [play] at ran
      split at ran
      · next early =>
          cases ran
          refine ⟨trivial, fun state clause waits => ?_⟩
          cases waits
          exact ⟨_, Nat.sub_pos_of_lt early, rfl⟩
      · have written := k.candid_write step.signal step.value false
        change (((Activity.ofExcept (k.write step.signal step.value false).2).bind
          fun _ => play name now rest).run (k.write step.signal step.value false).1 w) = _ at ran
        generalize k.write step.signal step.value false = result at ran written
        obtain ⟨m, e | _⟩ := result
        · cases ran
          exact ⟨written, fun state clause waits => by cases waits⟩
        · exact ih ran

theorem resume_spec {s : Script} {k k' : Kernel} {w w' : ω} {answer : Except SimError (Step Script)}
    (ran : s.resume.run k w = some (answer, k', w')) :
    Candid answer ∧
      ∀ state clause, answer = .ok (.wait state clause) → ∃ ticks, 0 < ticks ∧ clause = .delay ticks :=
  @play_spec _ _ k.now _ _ _ _ _ _ ran

theorem candid_behaviours : (behaviours (ω := ω)).Candid where
  resume _ _ _ turn ran := (@resume_spec _ _ _ _ _ _ turn.1 ran).1
  react _ _ _ turn ran := by
    cases ran
    trivial

end Script

/-- A claim that is refused leaves the waiters as they are. -/
theorem WaiterTable.waiter?_of_unclaimed {β : Type} {t t' : WaiterTable β} {a : Arming}
    (unclaimed : t.consume a = (none, t')) (slot : Nat) : t'.waiter? slot = t.waiter? slot := by
  obtain ⟨lastToken, -, rfl⟩ := eq_of_unclaimed unclaimed
  rfl

/-- A shadow that is recomputed marks its target only. -/
theorem Shadow.pending_resume {k : Kernel} {shadow : Shadow} {id : SignalId}
    (marked : id ∈ (shadow.resume (σ := Script) k).1.pending) :
    id = shadow.target ∨ id ∈ k.pending := by
  unfold resume at marked
  cases waits : shadow.clause? (σ := Script) with
  | none =>
      rw [waits] at marked
      exact .inr marked
  | some clause =>
      have noted : (shadow.evaluate k).1.pending = k.pending := by
        rcases evaluate_fst k shadow with same | ⟨d, same⟩ <;> rw [same]
        rfl
      simp only [waits] at marked
      generalize shadow.evaluate k = result at marked noted
      obtain ⟨m, e | v⟩ := result
      · exact .inr (noted ▸ marked)
      · dsimp only at marked noted
        cases decided : m.proposal shadow.target v true with
        | error e =>
            rw [Kernel.write_of_error decided] at marked
            exact .inr (noted ▸ marked)
        | ok next =>
            rw [Kernel.write_of_ok decided] at marked
            exact (List.mem_cons.mp marked).imp_right (noted ▸ ·)

namespace Kernel

/-- The shadow in a place follows the signal. -/
def Hears (k : Kernel) (place : Nat) (id : SignalId) : Prop :=
  ∃ shadow, k.shadows[place]? = some shadow ∧ id ∈ shadow.rule.sources

/-- No inertial signal commits a value in the tick in which the value was found proposed. -/
def Patient (k : Kernel) : Prop :=
  ∀ id s i, k.signal? id = some s → s.inertia = some i → 0 < i.delay

/-- A slot is for the shadow that was declared in its place, or for a script. -/
def Assigns (k : Kernel) (slot : Nat) : Body Script → Prop
  | .shadow shadow => k.shadows[slot]? = some shadow
  | .process _ => k.shadows.length ≤ slot
  | _ => False

variable {k k' : Kernel}

theorem Patient.of_extended (patient : k.Patient) (extended : k'.Extends k) : k'.Patient := by
  intro id s i found inertia
  obtain ⟨old, was, same⟩ := extended id s found
  have delays := Signal.delay_of_design same
  rw [inertia] at delays
  cases before : old.inertia with
  | none => simp [before] at delays
  | some i' =>
      simp only [before, Option.map_some, Option.some.injEq] at delays
      rw [← delays]
      exact patient id old i' was before

theorem Patient.of_committed (patient : k.Patient) (same : k'.committed = k.committed) :
    k'.Patient := by
  intro id s i found inertia
  have signals := signal?_of_committed same id
  rw [found] at signals
  obtain ⟨old, was, alike⟩ := Option.map_eq_some_iff.mp signals.symm
  have kept := congrArg Signal.inertia alike
  exact patient id old i was (Eq.trans kept inertia)

theorem Hears.tier_le {place : Nat} {id : SignalId} (hears : k.Hears place id) (tiered : k.Tiered) :
    k.tier id ≤ place := by
  obtain ⟨shadow, here, source⟩ := hears
  exact tiered place shadow here id source

theorem Hears.lt_length {place : Nat} {id : SignalId} (hears : k.Hears place id) :
    place < k.shadows.length := by
  obtain ⟨shadow, here, -⟩ := hears
  exact (List.getElem?_eq_some_iff.mp here).1

end Kernel

/-- A waiter of a script waits for some ticks, and one of a shadow for a source. -/
def Alternative.Suits (k : Kernel) (slot : Nat) : Alternative Script → Prop
  | .trigger t => k.Hears slot t.signal
  | .delay ticks => 0 < ticks
  | _ => False

namespace Simulation

/-- A simulation of the shadows of a kernel and of scripts, without a bridge. -/
structure Network (k : Kernel) (s : Simulation Script ω) : Prop where
  unlinked : s.link = none
  staff : ∀ slot waiter, s.waiters.waiter? slot = some waiter →
    waiter.parent = none ∧ ∀ body, waiter.body = some body → k.Assigns slot body
  watched : ∀ t, ∀ a ∈ s.kernel.watchers t, k.Hears a.slot t.signal
  patient : s.kernel.Patient

/-- A network in which only the tiers are left to be cleared that the delta cycle is not past, but for
as many as are allowed. -/
structure Sinking (k : Kernel) (allowed : Nat) (s : Simulation Script ω) : Prop
    extends Network k s where
  later : ∀ e ∈ s.queue.toList, s.kernel.now < e.time
  roused : ∀ a ∈ s.ready.toList, 0 < s.delta → a.slot < k.shadows.length ∧ s.delta ≤ a.slot + 1
  low : ∀ id ∈ s.kernel.pending, s.delta ≤ k.tier id + allowed
  shallow : s.delta ≤ k.shadows.length + 1

variable {k : Kernel} {allowed : Nat} {s s' : Simulation Script ω}

theorem Network.known (network : s.Network k) : s.OutputsKnown := by
  intro id listed
  rw [outputs, network.unlinked] at listed
  cases listed

/-! ## Arming -/

namespace Sinking

/-- What a network is does not depend on the rest of the simulation. -/
theorem elsewhere (sinking : s.Sinking k allowed) {stale : Std.HashSet SignalId}
    {hook : Option (Hook ω)} {hookStarted : Bool} {state : RunState} {maxDeltas : Nat}
    {defaultDuration : Option Nat} {stats : RunStats} {world : ω} :
    ({ s with stale, hook, hookStarted, state, maxDeltas, defaultDuration, stats, world } :
      Simulation Script ω).Sinking k allowed :=
  ⟨⟨sinking.unlinked, sinking.staff, sinking.watched, sinking.patient⟩, sinking.later,
    sinking.roused, sinking.low, sinking.shallow⟩

theorem watch (sinking : s.Sinking k allowed) {me : Arming} {t : Trigger}
    (hears : k.Hears me.slot t.signal) : (s.watch me t).1.Sinking k allowed := by
  unfold Simulation.watch
  cases known : s.kernel.signal? t.signal with
  | none => exact sinking
  | some signal =>
      refine { sinking with
        staff := fun slot waiter found => ?_
        watched := fun t' a listed => ?_
        patient := ?_ }
      · dsimp only at found
        rw [WaiterTable.noteSubscription, WaiterTable.waiter?_modify] at found
        split at found
        · obtain ⟨old, was, rfl⟩ := Option.map_eq_some_iff.mp found
          exact sinking.staff slot old was
        · exact sinking.staff slot waiter found
      · dsimp only at listed
        rw [Kernel.watchers_watch (Option.isSome_of_eq_some known)] at listed
        split at listed
        · next same =>
            rcases List.mem_cons.mp listed with rfl | listed
            · rw [same]
              exact hears
            · exact sinking.watched t' a listed
        · exact sinking.watched t' a listed
      · exact sinking.patient.of_extended
          (Desk.Step.rewired s.kernel s.queue t.signal fun w => enlist me w t).extends.2

/-- What is scheduled some ticks ahead is later. -/
theorem push (sinking : s.Sinking k allowed) {ticks : Nat} (ahead : 0 < ticks) (payload : Payload) :
    ({ s with queue := s.queue.push (s.kernel.now + ticks) payload } :
      Simulation Script ω).Sinking k allowed := by
  refine { sinking with later := fun e listed => ?_ }
  cases (s.queue.toList_push (s.kernel.now + ticks) payload).mem_iff.mp listed with
  | head => exact Nat.lt_add_of_pos_right ahead
  | tail _ before => exact sinking.later e before

theorem wakeAfter (sinking : s.Sinking k allowed) (me : Arming) {ticks : Nat} (ahead : 0 < ticks) :
    (s.wakeAfter me ticks).1.Sinking k allowed := by
  unfold Simulation.wakeAfter after
  by_cases inRange : s.kernel.now + ticks ≤ lastTick
  · rw [if_pos inRange]
    exact sinking.push ahead _
  · rw [if_neg inRange]
    exact sinking

theorem armOn (sinking : s.Sinking k allowed) {me : Arming} {alternative : Alternative Script}
    (suits : alternative.Suits k me.slot) :
    (s.armOn Script.behaviours me alternative).1.Sinking k allowed := by
  cases alternative with
  | trigger t => exact sinking.watch suits
  | delay ticks => exact sinking.wakeAfter me suits
  | _ => exact suits.elim

theorem armOnAll (sinking : s.Sinking k allowed) {me : Arming}
    {alternatives : List (Alternative Script)} (suit : ∀ a ∈ alternatives, a.Suits k me.slot) :
    (s.armOnAll Script.behaviours me alternatives).1.Sinking k allowed :=
  armOnAll_induction sinking fun _ a listed sinking => sinking.armOn (suit a listed)

/-! ## Resuming -/

/-- Only what is known of the waiters of a network counts. -/
theorem of_waiters (sinking : s.Sinking k allowed) {waiters : WaiterTable (Body Script)}
    (staff : ∀ slot waiter, waiters.waiter? slot = some waiter →
      waiter.parent = none ∧ ∀ body, waiter.body = some body → k.Assigns slot body) :
    ({ s with waiters } : Simulation Script ω).Sinking k allowed :=
  { sinking with staff }

theorem remove (sinking : s.Sinking k allowed) (slot : Nat) :
    ({ s with waiters := (s.waiters.remove slot).2 } : Simulation Script ω).Sinking k allowed := by
  refine sinking.of_waiters fun slot' waiter found => ?_
  rw [WaiterTable.waiter?_remove] at found
  split at found
  · cases found
  · exact sinking.staff slot' waiter found

theorem drop (sinking : s.Sinking k allowed) (slot : Nat) (e : SimError) :
    (s.drop slot e).Sinking k allowed :=
  have removed := sinking.remove slot
  ⟨⟨removed.unlinked, removed.staff, removed.watched, removed.patient⟩, removed.later, removed.roused,
    removed.low, removed.shallow⟩

/-- Nobody waits for the completion of another one. -/
theorem complete (sinking : s.Sinking k allowed) (slot : Nat) :
    (s.complete slot).Sinking k allowed := by
  have removed := sinking.remove slot
  unfold Simulation.complete
  cases found : s.waiters.waiter? slot with
  | none =>
      have nobody : (s.waiters.remove slot).1 = none := by rw [WaiterTable.remove, found]
      generalize s.waiters.remove slot = result at nobody removed ⊢
      obtain ⟨_, waiters⟩ := result
      subst nobody
      exact removed
  | some waiter =>
      have nobody := (WaiterTable.remove_fst found).trans (sinking.staff slot waiter found).1
      generalize s.waiters.remove slot = result at nobody removed ⊢
      obtain ⟨_, waiters⟩ := result
      subst nobody
      exact removed

theorem restore (sinking : s.Sinking k allowed) {slot : Nat} {body : Body Script}
    (assigned : k.Assigns slot body) :
    ({ s with waiters := s.waiters.restore slot body } : Simulation Script ω).Sinking k allowed := by
  refine sinking.of_waiters fun slot' waiter found => ?_
  rw [WaiterTable.restore, WaiterTable.waiter?_modify] at found
  split at found
  · next same =>
      obtain ⟨old, was, rfl⟩ := Option.map_eq_some_iff.mp found
      refine ⟨(sinking.staff slot' old was).1, fun body' present => ?_⟩
      cases present
      exact same ▸ assigned
  · exact sinking.staff slot' waiter found

/-- What an act may be, for the waiter in a slot. -/
theorem settle (sinking : s.Sinking k allowed) {me : Arming} {done : Act Script}
    (waits : ∀ body alternatives, done = .waits body alternatives →
      k.Assigns me.slot body ∧ ∀ a ∈ alternatives, a.Suits k me.slot) :
    (s.settle Script.behaviours me done).1.Sinking k allowed := by
  cases done with
  | completes => exact sinking.complete me.slot
  | fails e => exact sinking.drop me.slot e
  | waits body alternatives =>
      obtain ⟨assigned, suit⟩ := waits body alternatives rfl
      exact rearm_induction (sinking.restore assigned) (fun _ sinking => sinking.armOnAll suit)
        fun _ e sinking => sinking.drop me.slot e

/-- A waiter that runs changes the kernel only by what it marks, as far as a network is concerned. -/
theorem edited (sinking : s.Sinking k allowed) {m : Kernel} (edits : Kernel.Edits s.kernel m)
    (low : ∀ id ∈ m.pending, s.delta ≤ k.tier id + allowed) :
    ({ s with kernel := m } : Simulation Script ω).Sinking k allowed := by
  refine { sinking with
    watched := fun t a listed => ?_
    patient := sinking.patient.of_committed edits.committed
    later := fun e listed => ?_
    low }
  · rw [show Kernel.watchers _ = Kernel.watchers _ from edits.watchers] at listed
    exact sinking.watched t a listed
  · rw [show Kernel.now _ = Kernel.now _ from Kernel.now_of_committed edits.committed]
    exact sinking.later e listed

/-- What is claimed is a body that the slot is for. -/
theorem claim (sinking : s.Sinking k allowed) {a me : Arming} {body : Body Script}
    {stale : List SignalId} {waiters : WaiterTable (Body Script)}
    (claimed : s.waiters.consume a = (some (me, body, stale), waiters)) :
    ({ s with waiters } : Simulation Script ω).Sinking k allowed ∧ me.slot = a.slot ∧
      k.Assigns a.slot body := by
  obtain ⟨waiter, found, -, present, -, rfl, rfl⟩ := WaiterTable.claimed_of_consume claimed
  refine ⟨sinking.of_waiters fun slot' waiter' found' => ?_, rfl,
    (sinking.staff a.slot waiter found).2 body present⟩
  rw [WaiterTable.waiter?_modify] at found'
  split at found'
  · obtain ⟨old, was, rfl⟩ := Option.map_eq_some_iff.mp found'
    exact ⟨(sinking.staff slot' old was).1, fun body' absent => by cases absent⟩
  · exact sinking.staff slot' waiter' found'

/-- Scripts run in the first delta cycle of a tick, and every other one is left to shadows of tiers that
are still to be cleared. -/
theorem act (sinking : s.Sinking k 0) (made : k.Made) {slot : Nat} {body : Body Script}
    (roused : 0 < s.delta → slot < k.shadows.length ∧ s.delta ≤ slot + 1)
    (assigned : k.Assigns slot body) {done : Act Script} {m : Kernel} {w : ω}
    (acted : Simulation.act Script.behaviours s.kernel s.world s.outputs body = some (done, m, w)) :
    ({ s with kernel := m } : Simulation Script ω).Sinking k 0 ∧
      ∀ body' alternatives, done = .waits body' alternatives →
        k.Assigns slot body' ∧ ∀ a ∈ alternatives, a.Suits k slot := by
  have edits := edits_act acted
  cases way_of_act acted with
  | @process state answer _ _ ran =>
      have first : s.delta = 0 := by
        by_contra later
        have beyond : k.shadows.length ≤ slot := assigned
        have within := (roused (Nat.pos_of_ne_zero later)).1
        omega
      refine ⟨sinking.edited edits fun id _ => by omega, fun body' alternatives waits => ?_⟩
      have spec := (Script.resume_spec ran).2
      obtain e | ⟨state', clause⟩ | _ := answer
      · cases waits
      · obtain ⟨ticks, ahead, rfl⟩ := spec state' clause rfl
        cases waits
        refine ⟨assigned, fun a listed => ?_⟩
        rw [List.mem_singleton.mp listed]
        exact ahead
      · cases waits
  | @shadow shadow answer _ resumed =>
      have here : k.shadows[slot]? = some shadow := assigned
      have tier := made.sound.declared.tier_target here
      refine ⟨sinking.edited edits fun id marked => ?_, fun body' alternatives waits => ?_⟩
      · have m_eq : (shadow.resume (σ := Script) s.kernel).1 = m := congrArg Prod.fst resumed
        rw [← m_eq] at marked
        rcases Shadow.pending_resume marked with rfl | before
        · rcases Nat.eq_zero_or_pos s.delta with first | later
          · omega
          · have due := (roused later).2
            omega
        · exact sinking.low id before
      · obtain e | _ | clause := answer
        · cases waits
        · cases waits
        · cases waits
          have follows := made.followed shadow (List.mem_of_getElem? here)
          refine ⟨assigned, fun a listed => ?_⟩
          rw [Shadow.clause?_spec (Shadow.writes_of_resume resumed).1 follows] at listed
          obtain ⟨id, source, rfl⟩ := List.mem_map.mp listed
          exact ⟨shadow, here, source⟩
  | reacts ran => exact assigned.elim
  | joins => exact assigned.elim
  | branch clause => exact assigned.elim
  | begins block => exact assigned.elim
  | outputs => exact assigned.elim

theorem resume (sinking : s.Sinking k 0) (made : k.Made) {a : Arming} {ready : Fifo Arming}
    {result : Except SimError Unit} (popped : s.ready.pop? = some (a, ready))
    (ran : runWaiter Script.behaviours { s with ready } a = some (s', result)) :
    s'.Sinking k 0 := by
  have listed := Fifo.toList_of_pop? popped
  have taken : ({ s with ready } : Simulation Script ω).Sinking k 0 := by
    refine { sinking with roused := fun b others => sinking.roused b ?_ }
    rw [listed]
    exact .tail _ others
  have roused := sinking.roused a (by rw [listed]; exact .head _)
  cases way_of_runWaiter taken.known ran with
  | skipped unclaimed =>
      refine taken.of_waiters fun slot waiter found => ?_
      rw [WaiterTable.waiter?_of_unclaimed unclaimed] at found
      exact taken.staff slot waiter found
  | @acted me body stale waiters done m w _ _ claimed acted settled =>
      obtain ⟨claims, slot, assigned⟩ := taken.claim claimed
      obtain ⟨after, waits⟩ := claims.act made roused assigned acted
      rw [← slot] at waits
      have link : noted s.link body = none := by
        rw [sinking.unlinked]
        cases body <;> rfl
      have books : (afterAct { s with ready } waiters stale body m w).Sinking k 0 :=
        ⟨⟨link, after.staff, after.watched, after.patient⟩, after.later, after.roused, after.low,
          after.shallow⟩
      have settles := books.settle waits
      rw [settled] at settles
      exact settles

/-- All that a round leaves to do is in tiers that are still to be cleared. -/
theorem runReady (sinking : s.Sinking k 0) (made : k.Made) {fuel : Nat}
    {failure failure' : Except SimError Unit}
    (ran : Simulation.runReady Script.behaviours fuel s failure = .ok (s', failure')) :
    s'.Sinking k 0 := by
  replace ran := way_of_runReady ran
  induction ran with
  | idle => exact sinking
  | resumed popped resumed further ih => exact ih (sinking.resume made popped resumed)

end Sinking

/-! ## Committing -/

section Step

variable {σ : Type} {z : Simulation σ ω} {id : SignalId} {f : Signal → Signal × Commit}

/-- A transition of a signal makes those ready that wait for the signal. -/
theorem mem_ready_step (moves : ∀ signal, Signal.Moves z.kernel.now id signal (f signal))
    {a : Arming} (listed : a ∈ (z.step id f).1.ready.toList) :
    a ∈ z.ready.toList ∨ ∃ t : Trigger, t.signal = id ∧ a ∈ z.kernel.watchers t := by
  unfold step at listed
  cases found : z.kernel.signal? id with
  | none =>
      rw [found] at listed
      exact .inl listed
  | some signal =>
      have outcome := moves signal
      simp only [found] at listed
      generalize f signal = result at outcome listed
      obtain ⟨signal', commit⟩ := result
      cases commit with
      | unchanged => exact .inl listed
      | deferred delay value stamp =>
          simp only [absorb] at listed
          split at listed <;> exact .inl listed
      | changed old woken =>
          obtain rfl : old = signal.val := by
            cases outcome
            rfl
          obtain ⟨-, gone⟩ := Kernel.watchers_moves found outcome
          simp only [absorb] at listed
          obtain ⟨world, same⟩ := report_spec
            { z with
              kernel := z.kernel.modify id fun _ => signal'
              stats := { z.stats with commits := z.stats.commits + 1 }
              ready := z.ready.append woken } id signal.val
          rw [same] at listed
          dsimp only at listed
          rw [Fifo.toList_append] at listed
          refine (List.mem_append.mp listed).imp_right fun woke => ?_
          obtain ⟨t, fired, watching⟩ := (gone a).mp woke
          exact ⟨t, Trigger.signal_of_firedBy fired, watching⟩

/-- An update phase schedules what an inertial signal puts off, and nothing else. -/
theorem queue_update (z : Simulation σ ω) (id : SignalId) :
    (z.step id Signal.update).1.queue = z.queue ∨
      ∃ signal i payload, z.kernel.signal? id = some signal ∧ signal.inertia = some i ∧
        (z.step id Signal.update).1.queue = z.queue.push (z.kernel.now + i.delay) payload := by
  unfold step
  cases found : z.kernel.signal? id with
  | none => exact .inl rfl
  | some signal =>
      have queue := queue_absorb
        { z with kernel := z.kernel.modify id fun _ => signal.update.1 } id signal.update.2
      dsimp only at queue ⊢
      rw [queue]
      cases inertia : signal.inertia with
      | some i =>
          rw [Signal.update_of_inertial inertia]
          split
          · exact .inr ⟨signal, i, _, rfl, inertia, rfl⟩
          · exact .inl rfl
      | none =>
          rw [Signal.update_of_prompt inertia]
          rcases signal.apply_cases signal.next with ⟨-, same⟩ | ⟨-, waits, woken, same⟩
          all_goals
            rw [same]
            split <;> exact .inl rfl

end Step

namespace Network

/-- A transition of a signal that keeps its design keeps a network. -/
theorem step (network : s.Network k) {id : SignalId} {f : Signal → Signal × Commit}
    (moves : ∀ signal, Signal.Moves s.kernel.now id signal (f signal))
    (designed : ∀ signal, (f signal).1.design = signal.design) : (s.step id f).1.Network k := by
  have sheds : Sheds s (s.step id f).1 := sheds_step moves
  obtain ⟨kernel, queue, ready, stats, world, stepped, -⟩ := step_spec moves
  constructor
  · rw [stepped]
    exact network.unlinked
  · rw [sheds.waiters]
    exact network.staff
  · exact fun t a listed => network.watched t a (sheds.fewer listed)
  · rw [kernel_step]
    refine network.patient.of_extended fun id' signal' found => ?_
    rw [Kernel.signal?_modify] at found
    split at found
    · obtain ⟨signal, was, rfl⟩ := Option.map_eq_some_iff.mp found
      exact ⟨signal, was, (designed signal).symm⟩
    · exact ⟨signal', found, rfl⟩

end Network

namespace Sinking

/-- Signals that are updated wake shadows of higher tiers. -/
theorem update (sinking : s.Sinking k 0) (made : k.Made) {id : SignalId}
    (due : s.delta ≤ k.tier id + 1) : (s.step id Signal.update).1.Sinking k 0 := by
  have moves : ∀ signal, Signal.Moves s.kernel.now id signal signal.update :=
    fun signal => signal.moves_update s.kernel.now id
  have network := sinking.toNetwork.step moves fun signal =>
    (@Signal.Turns.lost id signal).design
  have paced := pace_step s id Signal.update
  have now : (s.step id Signal.update).1.kernel.now = s.kernel.now := congrArg Pace.now paced
  have delta : (s.step id Signal.update).1.delta = s.delta := congrArg Pace.delta paced
  refine ⟨network, fun e listed => ?_, fun a listed later => ?_, fun id' marked => ?_, ?_⟩
  · rw [now]
    rcases s.queue_update id with same | ⟨signal, i, payload, found, inertia, pushed⟩
    · rw [same] at listed
      exact sinking.later e listed
    · rw [pushed] at listed
      exact (sinking.push (sinking.patient id signal i found inertia) payload).later e listed
  · rw [delta] at later ⊢
    rcases mem_ready_step moves listed with before | ⟨t, rfl, watching⟩
    · exact sinking.roused a before later
    · have hears := sinking.watched t a watching
      have tier := hears.tier_le made.tiered
      exact ⟨hears.lt_length, by omega⟩
  · rw [kernel_step] at marked
    rw [delta]
    exact sinking.low id' marked
  · rw [delta]
    exact sinking.shallow

theorem updateAll (sinking : s.Sinking k 0) (made : k.Made) {ids : List SignalId}
    (due : ∀ id ∈ ids, s.delta ≤ k.tier id + 1) (failure : Except SimError Unit) :
    (s.updateAll failure ids).1.Sinking k 0 := by
  induction ids generalizing s failure with
  | nil => exact sinking
  | cons id rest ih =>
      have delta : (s.step id Signal.update).1.delta = s.delta :=
        congrArg Pace.delta (pace_step s id Signal.update)
      rw [updateAll_cons]
      refine ih (sinking.update made (due id (.head _))) (fun id' listed => ?_) _
      rw [delta]
      exact due id' (.tail _ listed)

/-- A commit phase takes all that is marked. -/
theorem commitPending (sinking : s.Sinking k 1) (made : k.Made) :
    s.commitPending.1.Sinking k 0 := by
  have emptied : ({ s with kernel := { s.kernel with pending := [] } } :
      Simulation Script ω).Sinking k 0 :=
    { sinking with low := fun id marked => by cases marked }
  exact emptied.updateAll made (fun id listed => sinking.low id (List.mem_reverse.mp listed)) _

end Sinking

end Simulation

end DeltaCycle
