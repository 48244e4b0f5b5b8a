import DeltaCycle.Proofs.Passage
import DeltaCycle.Simulation.Traced

/-!
# Wiretaps

A bridge can be tapped: every call that is made on it is written down in a part of the world that
nobody else touches. The engine is heard only where values are exchanged and where the bridge is
closed: commits, resumes and the hook leave the record alone.
-/

set_option autoImplicit false

namespace DeltaCycle

variable {σ ω α τ : Type}

/-! ## Tapping -/

/-- A call that is made on a bridge. -/
inductive BridgeCall where
  | send (time : Nat) (values : List (SignalId × Value))
  | receive (time : Nat)
  | close
deriving Repr, DecidableEq

/-- The bridge, with a record of the calls made on it in a second part of the world. -/
def Bridge.tapped (b : Bridge ω) : Bridge (ω × List BridgeCall) where
  outputs := b.outputs
  receive := fun time (w, log) => onFirst (b.receive time) (w, log ++ [.receive time])
  send := fun time values (w, log) => onFirst (b.send time values) (w, log ++ [.send time values])
  close := fun (w, log) => onFirst b.close (w, log ++ [.close])

/-- The hook in a world with a second part that it leaves alone. -/
def Hook.beside (τ : Type) (h : Hook ω) : Hook (ω × τ) where
  start := fun traced => Bridge.onFirst (h.start traced)
  change := fun c => Bridge.onFirst (h.change c)
  finish := Bridge.onFirst h.finish

namespace Instance

mutual

/-- The instance with its bridge tapped. -/
def tapped : Instance σ ω → Instance σ (ω × List BridgeCall)
  | process state => process state
  | always block => always block
  | bridge b => bridge b.tapped
  | group members => group (tappedAll members)

/-- The instances with their bridges tapped. -/
def tappedAll : List (Instance σ ω) → List (Instance σ (ω × List BridgeCall))
  | [] => []
  | member :: rest => tapped member :: tappedAll rest

end

end Instance

/-! ## Records that are left alone -/

/-- An activity leaves alone what is noted in the world. -/
def Activity.Spares (note : ω → τ) (activity : Activity ω α) : Prop :=
  ∀ k w answer k' w', activity.run k w = some (answer, k', w') → note w' = note w

/-- All activities leave alone what is noted in the world. -/
structure Behaviours.Spares (B : Behaviours σ ω) (note : ω → τ) : Prop where
  resume : ∀ state, (B.resume state).Spares note
  react : ∀ body, (B.react body).Spares note

/-- A hook leaves alone what is noted in the world, as long as the simulation goes on. -/
structure Hook.Overlooks (h : Hook ω) (note : ω → τ) : Prop where
  start : ∀ traced w, note (h.start traced w).1 = note w
  change : ∀ c w, note (h.change c w).1 = note w

/-- A hook leaves alone what is noted in the world. -/
structure Hook.Spares (h : Hook ω) (note : ω → τ) : Prop extends h.Overlooks note where
  finish : ∀ w, note (h.finish w).1 = note w

/-- A bridge leaves alone what is noted in the world. -/
structure Bridge.Spares (b : Bridge ω) (note : ω → τ) : Prop where
  receive : ∀ time w, note (b.receive time w).1 = note w
  send : ∀ time values w, note (b.send time values w).1 = note w
  close : ∀ w, note (b.close w).1 = note w

/-- Every call that is made on a bridge is noted. -/
structure Bridge.Noted (b : Bridge ω) (note : ω → List BridgeCall) : Prop where
  receive : ∀ time w, note (b.receive time w).1 = note w ++ [.receive time]
  send : ∀ time values w, note (b.send time values w).1 = note w ++ [.send time values]
  close : ∀ w, note (b.close w).1 = note w ++ [.close]

theorem Bridge.noted_tapped (b : Bridge ω) : b.tapped.Noted Prod.snd :=
  ⟨fun _ _ => rfl, fun _ _ _ => rfl, fun _ => rfl⟩

theorem Hook.spares_beside (h : Hook ω) : (h.beside τ).Spares Prod.snd :=
  ⟨⟨fun _ _ => rfl, fun _ _ => rfl⟩, fun _ => rfl⟩

theorem Bridge.spares_beside (b : Bridge ω) : (b.beside τ).Spares Prod.snd :=
  ⟨fun _ _ => rfl, fun _ _ _ => rfl, fun _ => rfl⟩

theorem Activity.spares_beside (activity : Activity ω α) : (activity.beside τ).Spares Prod.snd := by
  induction activity with
  | done answer =>
      rintro k w answer k' w' ⟨⟩
      rfl
  | fail error =>
      rintro k w answer k' w' ⟨⟩
      rfl
  | undefined => exact nofun
  | later go ih => exact fun k w answer k' w' ran => ih () k w answer k' w' ran
  | ask request go ih =>
      intro k w answer k' w' ran
      cases request with
      | world change => exact (ih _ _ _ _ _ _ ran : w'.2 = (change w.1, w.2).2)
      | next signal =>
          simp only [beside, run, Request.perform] at ran
          cases found : k.next? signal with
          | none => simp [found] at ran
          | some proposed =>
              simp only [found, Option.map_some] at ran
              exact ih _ _ _ _ _ _ ran
      | _ => exact ih _ _ _ _ _ _ ran

theorem Behaviours.spares_beside (B : Behaviours σ ω) : (B.beside τ).Spares Prod.snd :=
  ⟨fun state => (B.resume state).spares_beside, fun body => (B.react body).spares_beside⟩

namespace Simulation

/-! ## The record in a round -/

section Books

variable {B : Behaviours σ ω}

/-- The world, the link and the hook. -/
def outside (s : Simulation σ ω) : ω × Option (Link ω) × Option (Hook ω) :=
  (s.world, s.link, s.hook)

theorem outside_armOn (s : Simulation σ ω) (me : Arming) (alternative : Alternative σ) :
    (s.armOn B me alternative).1.outside = s.outside := by
  cases alternative with
  | trigger t =>
      simp only [armOn, watch]
      cases s.kernel.signal? t.signal <;> rfl
  | delay ticks =>
      simp only [armOn, wakeAfter]
      cases s.after ticks <;> rfl
  | noop => rfl
  | spawn child => rfl
  | join clauses =>
      obtain ⟨waiters, ready, same⟩ := addBranches_spec B
        { s with waiters := (s.waiters.openJoin clauses.length me).2 }
        (s.waiters.openJoin clauses.length me).1 clauses
      simp only [armOn, same]
      rfl
  | refused e => rfl

theorem outside_armOnAll (s : Simulation σ ω) (me : Arming) (alternatives : List (Alternative σ)) :
    (s.armOnAll B me alternatives).1.outside = s.outside :=
  armOnAll_induction (P := fun t => t.outside = s.outside) rfl fun _ _ _ same =>
    (outside_armOn ..).trans same

theorem outside_settle (s : Simulation σ ω) (me : Arming) (done : Act σ) :
    (s.settle B me done).1.outside = s.outside := by
  cases done with
  | completes =>
      obtain ⟨waiters, ready, same⟩ := s.complete_spec me.slot
      rw [settle, same]
      rfl
  | fails e => rfl
  | waits body alternatives =>
      exact rearm_induction (P := fun t => t.outside = s.outside) rfl
        (fun _ same => (outside_armOnAll ..).trans same) fun _ _ same => same

end Books

section Sparing

variable {B : Behaviours σ ω} {note : ω → τ}

theorem note_of_act (spares : B.Spares note) {k k' : Kernel} {w w' : ω} {outputs : List SignalId}
    {body : Body σ} {done : Act σ} (acted : act B k w outputs body = some (done, k', w')) :
    note w' = note w := by
  cases way_of_act acted with
  | process ran => exact spares.resume _ k w _ _ _ ran
  | reacts ran => exact spares.react _ k w _ _ _ ran
  | _ => rfl

theorem outside_of_runWaiter {s s' : Simulation σ ω} {a me : Arming} {body : Body σ}
    {stale : List SignalId} {waiters : WaiterTable (Body σ)} {done : Act σ} {k : Kernel} {w : ω}
    {result : Except SimError Unit} (known : s.OutputsKnown)
    (claimed : s.waiters.consume a = (some (me, body, stale), waiters))
    (acted : act B s.kernel s.world s.outputs body = some (done, k, w))
    (ran : runWaiter B s a = some (s', result)) : s'.outside = (w, noted s.link body, s.hook) := by
  rw [runWaiter_eq claimed known, acted, Option.map_some, Option.some.injEq] at ran
  have settled (s₁ : Simulation σ ω) :
      (s₁.settle B me done).1.outside = s₁.outside := outside_settle s₁ me done
  have same := congrArg (fun turn => turn.1.outside) ran
  exact same.symm.trans (settled _)

theorem note_of_runWaiter (spares : B.Spares note) {s s' : Simulation σ ω} {a : Arming}
    {result : Except SimError Unit} (known : s.OutputsKnown)
    (ran : runWaiter B s a = some (s', result)) : note s'.world = note s.world := by
  cases way_of_runWaiter known ran with
  | skipped unclaimed => rfl
  | acted claimed acted settled =>
      have world := congrArg Prod.fst (outside_of_runWaiter known claimed acted ran)
      exact (congrArg note world).trans (note_of_act spares acted)

theorem note_of_runReady (spares : B.Spares note) {fuel : Nat} {s s' : Simulation σ ω}
    {failure failure' : Except SimError Unit} (known : s.OutputsKnown)
    (ran : runReady B fuel s failure = .ok (s', failure')) : note s'.world = note s.world := by
  replace ran := way_of_runReady ran
  induction ran with
  | idle => rfl
  | @resumed _ s _ _ _ _ ready popped resumed further ih =>
      have same := surroundings_runWaiter resumed
      have first := note_of_runWaiter (s := { s with ready }) spares known resumed
      exact (ih (known.of_surroundings same)).trans first

/-! ## The record outside of rounds -/

/-- What is noted, the link and the hook. -/
def wiring (note : ω → τ) (s : Simulation σ ω) : τ × Option (Link ω) × Option (Hook ω) :=
  (note s.world, s.link, s.hook)

/-- The hook leaves alone what is noted. -/
def Discreet (note : ω → τ) (s : Simulation σ ω) : Prop :=
  ∀ h, s.hook = some h → h.Spares note

theorem Discreet.of_wiring {s s' : Simulation σ ω} (discreet : s.Discreet note)
    (same : s'.wiring note = s.wiring note) : s'.Discreet note := by
  intro h hooked
  have hook : s'.hook = s.hook := congrArg (fun wires => wires.2.2) same
  exact discreet h (hook ▸ hooked)

/-- The hook leaves alone what is noted, as long as the simulation goes on. -/
def Overlooked (note : ω → τ) (s : Simulation σ ω) : Prop :=
  ∀ h, s.hook = some h → h.Overlooks note

theorem Discreet.overlooked {s : Simulation σ ω} (discreet : s.Discreet note) :
    s.Overlooked note := fun h hooked => (discreet h hooked).toOverlooks

theorem Overlooked.of_wiring {s s' : Simulation σ ω} (overlooked : s.Overlooked note)
    (same : s'.wiring note = s.wiring note) : s'.Overlooked note := by
  intro h hooked
  have hook : s'.hook = s.hook := congrArg (fun wires => wires.2.2) same
  exact overlooked h (hook ▸ hooked)

theorem openLink?_of_wiring {s s' : Simulation σ ω} (same : s'.wiring note = s.wiring note) :
    s'.openLink? = s.openLink? :=
  congrArg (fun wires => wires.2.1.filter fun l : Link ω => !l.closed) same

theorem wiring_absorb {s : Simulation σ ω} (overlooked : s.Overlooked note) (id : SignalId)
    (commit : Commit) : (s.absorb id commit).1.wiring note = s.wiring note := by
  cases commit with
  | unchanged => rfl
  | deferred delay value stamp =>
      unfold absorb
      dsimp only
      split <;> rfl
  | changed old woken =>
      unfold absorb report
      dsimp only
      cases hooked : s.hook with
      | none => simp only [wiring, hooked]
      | some h =>
          cases s.kernel.signal? id with
          | none => simp only [wiring, hooked]
          | some signal =>
              dsimp only
              split
              · have spared := (overlooked h hooked).change
                  { time := s.kernel.now, signal := id, name := signal.name, old,
                    new := signal.val } s.world
                simp only [wiring, hooked, spared]
              · simp only [wiring, hooked]

theorem wiring_step {s : Simulation σ ω} (overlooked : s.Overlooked note) (id : SignalId)
    (f : Signal → Signal × Commit) : (s.step id f).1.wiring note = s.wiring note := by
  unfold step
  cases s.kernel.signal? id with
  | none => rfl
  | some signal =>
      exact wiring_absorb (s := { s with kernel := s.kernel.modify id fun _ => (f signal).1 })
        overlooked id _

theorem wiring_updateAll {s : Simulation σ ω} (overlooked : s.Overlooked note)
    (failure : Except SimError Unit) (ids : List SignalId) :
    (s.updateAll failure ids).1.wiring note = s.wiring note :=
  updateAll_induction (P := fun t => t.wiring note = s.wiring note) rfl
    (fun _ id same => (wiring_step (overlooked.of_wiring same) id _).trans same) failure ids

theorem wiring_commitPending {s : Simulation σ ω} (overlooked : s.Overlooked note) :
    s.commitPending.1.wiring note = s.wiring note :=
  wiring_updateAll (s := { s with kernel := { s.kernel with pending := [] } }) overlooked _ _

theorem wiring_drainUpTo {s : Simulation σ ω} (overlooked : s.Overlooked note) (count time : Nat) :
    (drainUpTo count s time).1.wiring note = s.wiring note := by
  refine drainUpTo_induction (P := fun t => t.wiring note = s.wiring note) rfl
    (fun s₁ payload queue _ same => ?_) count
  refine Eq.trans ?_ same
  cases payload with
  | wake a => rfl
  | apply id value stamp =>
      exact wiring_step (s := { s₁ with queue }) (overlooked.of_wiring same) id _

theorem wiring_moveClock (s : Simulation σ ω) (time : Nat) :
    (s.moveClock time).1.wiring note = s.wiring note := by
  obtain ⟨now, delta, deltas, timeSteps, same⟩ := moveClock_spec s time
  rw [same]
  rfl

theorem wiring_nextDelta (s : Simulation σ ω) :
    s.nextDelta.1.wiring note = s.wiring note := by
  obtain ⟨delta, deltas, same⟩ := nextDelta_spec s
  rw [same]
  rfl

theorem wiring_purge (s : Simulation σ ω) : s.purge.wiring note = s.wiring note := by
  rw [purge_eq]
  rfl

/-- The end of a cycle in which somebody failed or asked for the end makes no calls. -/
theorem wiring_wrapUp {s : Simulation σ ω} (overlooked : s.Overlooked note)
    (failure : Except SimError Unit) : (s.wrapUp failure).1.wiring note = s.wiring note := by
  obtain ⟨stopRequest, wrapped⟩ := s.wrapUp_eq failure
  have same := (wiring_purge s.commitPending.1).trans (wiring_commitPending overlooked)
  rw [wrapped]
  exact same

theorem wiring_startHook {s : Simulation σ ω} (overlooked : s.Overlooked note) :
    s.startHook.1.wiring note = s.wiring note := by
  unfold startHook
  split
  · rfl
  · dsimp only
    cases hooked : s.hook with
    | none => simp only [wiring, hooked]
    | some h =>
        have spared := (overlooked h hooked).start (tracedSignals s.kernel) s.world
        simp only [wiring, hooked, spared]

end Sparing

end Simulation

end DeltaCycle
