import DeltaCycle.Proofs.BridgeProtocol

/-!
# Winding down

When a run ends the simulation, the bridge is closed and then the hook is told of the end, each
once: the link remembers that it was closed, and a simulation that has ended does not run again.
But the hook is told only if the bridge closes, so that a bridge that does not close leaves the
hook waiting for ever.
-/

set_option autoImplicit false

namespace DeltaCycle

variable {σ ω ω' τ : Type}

/-! ## Recording -/

/-- A call that winds something down, and what it returns. -/
inductive Ending where
  /-- The bridge is closed. -/
  | closed (result : Except BridgeError Unit)
  /-- The hook is told of the end. -/
  | finished (result : Except SimError Unit)
deriving Repr, DecidableEq

/-- The bridge, with a record in a second part of the world of every time that it is closed. -/
def Bridge.recorded (b : Bridge ω) : Bridge (ω × List Ending) where
  outputs := b.outputs
  receive := fun time => onFirst (b.receive time)
  send := fun time values => onFirst (b.send time values)
  close := fun (w, log) =>
    let (w, result) := b.close w
    ((w, log ++ [.closed result]), result)

/-- The hook, with a record of every time that it is told of the end. -/
def Hook.recorded (h : Hook ω) : Hook (ω × List Ending) where
  start := fun traced => Bridge.onFirst (h.start traced)
  change := fun c => Bridge.onFirst (h.change c)
  finish := fun (w, log) =>
    let (w, result) := h.finish w
    ((w, log ++ [.finished result]), result)

theorem Hook.overlooks_recorded (h : Hook ω) : h.recorded.Overlooks Prod.snd :=
  ⟨fun _ _ => rfl, fun _ _ => rfl⟩

namespace Instance

mutual

/-- The instance with its bridges changed. -/
def rewired (f : Bridge ω → Bridge ω') : Instance σ ω → Instance σ ω'
  | process state => process state
  | always block => always block
  | bridge b => bridge (f b)
  | group members => group (rewiredAll f members)

/-- The instances with their bridges changed. -/
def rewiredAll (f : Bridge ω → Bridge ω') : List (Instance σ ω) → List (Instance σ ω')
  | [] => []
  | member :: rest => rewired f member :: rewiredAll f rest

end

mutual

theorem exists_of_mem_flatten_rewired {f : Bridge ω → Bridge ω'} (i : Instance σ ω)
    {b : Bridge ω'} (listed : .bridge b ∈ (i.rewired f).flatten) : ∃ b', b = f b' := by
  cases i with
  | process state => simp [rewired, flatten] at listed
  | always block => simp [rewired, flatten] at listed
  | bridge b' =>
      simp only [rewired, flatten, List.mem_singleton, bridge.injEq] at listed
      exact ⟨b', listed⟩
  | group members => exact exists_of_mem_flattenAll_rewired members listed

/-- All bridges among the instances were changed. -/
theorem exists_of_mem_flattenAll_rewired {f : Bridge ω → Bridge ω'}
    (instances : List (Instance σ ω)) {b : Bridge ω'}
    (listed : .bridge b ∈ flattenAll (rewiredAll f instances)) : ∃ b', b = f b' := by
  cases instances with
  | nil => cases listed
  | cons i rest =>
      rw [rewiredAll, flattenAll] at listed
      rcases List.mem_append.mp listed with here | later
      · exact exists_of_mem_flatten_rewired i here
      · exact exists_of_mem_flattenAll_rewired rest later

end

end Instance

namespace Simulation

variable {B : Behaviours σ ω} {s s' : Simulation σ (ω × List Ending)}

/-! ## As long as the simulation goes on -/

/-- The record, the hook, the bridge and whether it was closed. -/
def stance (s : Simulation σ (ω × List Ending)) :
    List Ending × Option (Hook (ω × List Ending)) × Option (Bridge (ω × List Ending) × Bool) :=
  (s.world.2, s.hook, s.link.map fun l => (l.bridge, l.closed))

/-- Nothing was wound down yet: the bridge is open, and what becomes of it and of the hook will be
recorded. -/
structure Poised (s : Simulation σ (ω × List Ending)) : Prop where
  known : s.OutputsKnown
  stance : ∃ (h : Hook ω) (b : Bridge ω), s.stance = ([], some h.recorded, some (b.recorded, false))

theorem stance_of_wiring (same : s'.wiring Prod.snd = s.wiring Prod.snd) :
    s'.stance = s.stance := by
  have log : s'.world.2 = s.world.2 := congrArg Prod.fst same
  have link : s'.link = s.link := congrArg (fun wires => wires.2.1) same
  have hook : s'.hook = s.hook := congrArg (fun wires => wires.2.2) same
  rw [Simulation.stance, log, link, hook, Simulation.stance]

theorem stance_runReady (known : s.OutputsKnown) {fuel : Nat}
    {failure failure' : Except SimError Unit}
    (ran : runReady (B.beside _) fuel s failure = .ok (s', failure')) : s'.stance = s.stance := by
  obtain ⟨resumes, same⟩ := surroundings_runReady ran
  have log : s'.world.2 = s.world.2 := note_of_runReady B.spares_beside known ran
  have hook : s'.hook = s.hook := congrArg Surroundings.hook same
  have link := congrArg (fun x : Surroundings (ω × List Ending) =>
    x.link.map fun l => (l.bridge, l.closed)) same
  simp only [surroundings, Option.map_map] at link
  rw [Simulation.stance, log, hook, Simulation.stance]
  exact congrArg (fun link => (s.world.2, s.hook, link)) link

theorem stance_sendOutputs (b : Bridge ω) : (s.sendOutputs b.recorded).1.stance = s.stance := by
  have told : (b.recorded.send s.kernel.now (snapshot s.kernel b.recorded.outputs) s.world).1.2 =
    s.world.2 := rfl
  unfold sendOutputs
  generalize b.recorded.send s.kernel.now (snapshot s.kernel b.recorded.outputs) s.world = sent
    at told ⊢
  obtain ⟨world, e | _⟩ := sent
  · exact congrArg (·, s.hook, _) told
  · simp only [Simulation.stance, changeLink, Option.map_map]
    exact congrArg (·, s.hook, _) told

theorem stance_readReply {l : Link (ω × List Ending)} {b : Bridge ω}
    (recorded : l.bridge = b.recorded) : (s.readReply l).1.stance = s.stance := by
  unfold readReply
  split
  · rw [recorded]
    have heard : (b.recorded.receive s.kernel.now s.world).1.2 = s.world.2 := rfl
    dsimp only [changeLink]
    generalize b.recorded.receive s.kernel.now s.world = received at heard ⊢
    obtain ⟨world, e | values⟩ := received
    · simp only [Simulation.stance, Option.map_map]
      exact congrArg (·, s.hook, _) heard
    · obtain ⟨kernel, same, -⟩ := takeIn_spec
        { s with link := s.link.map fun l => { l with awaitingReply := false }, world } false values
      dsimp only
      rw [same]
      simp only [Simulation.stance, Option.map_map]
      exact congrArg (·, s.hook, _) heard
  · rfl

namespace Poised

variable (poised : s.Poised)

include poised

theorem of_stance (known : s'.OutputsKnown) (same : s'.stance = s.stance) : s'.Poised := by
  refine ⟨known, ?_⟩
  rw [same]
  exact poised.stance

theorem overlooked : s.Overlooked Prod.snd := by
  obtain ⟨-, h, b, same⟩ := poised
  intro h' hooked
  have hook : s.hook = some h.recorded := congrArg (fun stance => stance.2.1) same
  obtain rfl := Option.some.inj (hooked.symm.trans hook)
  exact h.overlooks_recorded

theorem linked : ∃ (l : Link (ω × List Ending)) (b : Bridge ω),
    s.link = some l ∧ l.bridge = b.recorded ∧ l.closed = false := by
  obtain ⟨-, h, b, same⟩ := poised
  have link : s.link.map (fun l => (l.bridge, l.closed)) = some (b.recorded, false) :=
    congrArg (fun stance => stance.2.2) same
  obtain ⟨l, present, parts⟩ := Option.map_eq_some_iff.mp link
  exact ⟨l, b, present, congrArg Prod.fst parts, congrArg Prod.snd parts⟩

theorem openLink?_of {l : Link (ω × List Ending)} (linked : s.openLink? = some l) :
    ∃ b : Bridge ω, l.bridge = b.recorded := by
  obtain ⟨l', b, present, recorded, -⟩ := poised.linked
  obtain rfl := Option.some.inj ((link_of_openLink? linked).symm.trans present)
  exact ⟨b, recorded⟩

theorem commitPending : s.commitPending.1.Poised :=
  poised.of_stance (poised.known.of_frame (frame_updateAll _ _ _))
    (stance_of_wiring (wiring_commitPending poised.overlooked))

theorem runReady {fuel : Nat} {failure failure' : Except SimError Unit}
    (ran : Simulation.runReady (B.beside _) fuel s failure = .ok (s', failure')) : s'.Poised := by
  obtain ⟨resumes, same⟩ := surroundings_runReady ran
  exact poised.of_stance (poised.known.of_surroundings same) (stance_runReady poised.known ran)

theorem exchange : s.exchange.1.Poised := by
  refine poised.of_stance (poised.known.of_frame (frame_exchange s)) ?_
  unfold Simulation.exchange
  cases linked : s.openLink? with
  | none => rfl
  | some l =>
      obtain ⟨b, recorded⟩ := poised.openLink?_of linked
      have read : (s.readReply l).1.stance = s.stance := stance_readReply recorded
      dsimp only
      generalize s.readReply l = result at read ⊢
      obtain ⟨s₁, e | inbound⟩ := result
      · exact read
      · dsimp only at read ⊢
        split
        · have sent : (s₁.sendOutputs b.recorded).1.stance = s₁.stance := stance_sendOutputs b
          rw [recorded]
          generalize s₁.sendOutputs b.recorded = result at sent ⊢
          obtain ⟨s₂, _ | _⟩ := result <;> exact sent.trans read
        · exact read

theorem purge : s.purge.Poised :=
  poised.of_stance (poised.known.of_frame (frame_purge s)) (stance_of_wiring (wiring_purge s))

theorem drainUpTo (count time : Nat) : (drainUpTo count s time).1.Poised :=
  poised.of_stance (poised.known.of_frame (frame_drainUpTo s count time))
    (stance_of_wiring (wiring_drainUpTo poised.overlooked count time))

theorem advanceTo (time : Nat) : (s.advanceTo time).1.Poised := by
  refine advanceTo_induction ?_ (fun _ count poised => poised.drainUpTo count time) ?_
  · obtain ⟨now, delta, deltas, timeSteps, moved⟩ := moveClock_spec s time
    rw [moved]
    exact poised.of_stance poised.known rfl
  · intro s₁ l linked poised
    obtain ⟨b, recorded⟩ := poised.openLink?_of linked
    rw [recorded]
    exact poised.of_stance (poised.known.of_frame (frame_sendOutputs s₁ _)) (stance_sendOutputs b)

theorem proceed (cap : Option Nat) : (s.proceed cap).1.Poised := by
  refine proceed_induction poised.exchange (fun _ poised => poised.purge) (fun s₁ poised => ?_)
    (fun _ _ poised => poised.of_stance poised.known rfl)
    (fun _ time poised => poised.advanceTo time) cap
  obtain ⟨delta, deltas, next⟩ := nextDelta_spec s₁
  rw [next]
  exact poised.of_stance poised.known rfl

theorem wrapUp (failure : Except SimError Unit) : (s.wrapUp failure).1.Poised := by
  have after := poised.commitPending.purge
  obtain ⟨stopRequest, wrapped⟩ := s.wrapUp_eq failure
  rw [wrapped]
  exact after.of_stance after.known rfl

/-- No cycle winds anything down, whatever comes of it. -/
theorem cycle {fuel : Nat} {cap : Option Nat} {verdict : Verdict}
    (turned : s.cycle (B.beside _) fuel cap = .ok (s', verdict)) : s'.Poised :=
  cycle_induction turned poised.commitPending (fun poised ran => poised.runReady ran)
    (fun _ poised => poised.proceed cap) fun _ failure poised => poised.wrapUp failure

theorem loop {fuel : Nat} {cap : Option Nat} {result : Except SimError Outcome}
    (looped : loop (B.beside _) fuel s cap = .ok (s', result)) : s'.Poised := by
  replace looped := way_of_loop looped
  induction looped with
  | ended turned => exact poised.cycle turned
  | again turned further ih => exact ih (poised.cycle turned)

theorem startHook : s.startHook.1.Poised := by
  have same : s.startHook.1.stance = s.stance :=
    stance_of_wiring (wiring_startHook poised.overlooked)
  have adjusted := s.adjusts_startHook
  obtain ⟨hook, hookStarted, state, maxDeltas, defaultDuration, world, started⟩ := adjusted
  rw [started] at same ⊢
  exact poised.of_stance poised.known same

end Poised

/-! ## At the end -/

/-- The bridge was closed, and if that succeeded, the hook was told of the end. -/
inductive WoundDown : List Ending → Prop where
  | told (result : Except SimError Unit) : WoundDown [.closed (.ok ()), .finished result]
  | untold (e : BridgeError) : WoundDown [.closed (.error e)]

/-- Everything was wound down, and the link remembers it. -/
structure Retired (s : Simulation σ (ω × List Ending)) : Prop where
  woundDown : WoundDown s.world.2
  closed : ∃ l, s.link = some l ∧ l.closed = true

theorem Poised.shutdown (poised : s.Poised) : s.shutdown.1.Retired := by
  obtain ⟨l, b, present, recorded, isOpen⟩ := poised.linked
  obtain ⟨-, h, b', same⟩ := poised
  have silent : s.world.2 = [] := congrArg Prod.fst same
  have hook : s.hook = some h.recorded := congrArg (fun stance => stance.2.1) same
  have closing : s.closeLink =
      ({ s with
          link := some { l with closed := true }
          world := ((b.close s.world.1).1, [.closed (b.close s.world.1).2]) },
        (b.close s.world.1).2.mapError .cosimulation) := by
    simp only [closeLink, present, Link.close, isOpen, Bool.false_eq_true, if_false, recorded,
      Bridge.recorded, silent, List.nil_append]
  rw [Simulation.shutdown, closing]
  cases (b.close s.world.1).2 with
  | error e => exact ⟨.untold e, _, rfl, rfl⟩
  | ok _ =>
      simp only [Except.mapError, hook]
      exact ⟨.told _, _, rfl, rfl⟩

/-- A bridge that was closed is not closed again when the simulation is given up. -/
theorem Retired.quit (retired : s.Retired) : s.quit.2 = s.world := by
  obtain ⟨l, present, closed⟩ := retired.closed
  simp only [Simulation.quit, closeLink, present, Link.close, closed, if_true]
  rfl

/-- After a call, nothing was wound down if the simulation can go on, and everything was if it has
ended. -/
def Settled (s : Simulation σ (ω × List Ending)) : Prop :=
  s.hasEnded = false ∧ s.Poised ∨ s.hasEnded = true ∧ s.Retired

theorem Poised.conclude (poised : s.Poised) (final : Except SimError Outcome) :
    (s.conclude final).1.Settled := by
  by_cases goes : final = .ok .suspended
  · subst goes
    exact .inl ⟨rfl, poised.of_stance poised.known rfl⟩
  · have shuts (state : RunState) :
        ({ s with state } : Simulation σ (ω × List Ending)).shutdown.1.Retired := by
      have stated : ({ s with state } : Simulation σ (ω × List Ending)).Poised :=
        poised.of_stance poised.known rfl
      exact stated.shutdown
    refine .inr ⟨s.ended_conclude goes, ?_⟩
    unfold Simulation.conclude
    split
    · exact absurd rfl goes
    · have shut := shuts .finished
      generalize Simulation.shutdown { s with state := .finished } = down at shut ⊢
      obtain ⟨s₁, _ | _⟩ := down <;> exact shut
    · exact shuts .failed

theorem Poised.run (poised : s.Poised) (running : s.hasEnded = false) {fuel : Nat}
    {duration : Option Nat} {result : Except SimError Outcome}
    (ran : run (B.beside _) fuel s duration = .ok (s', result)) : s'.Settled := by
  have begun := poised.startHook
  cases way_of_run ran with
  | terminated ended => cases running.symm.trans ended
  | untold running' started =>
      have refused := congrArg Prod.snd started
      obtain ⟨world, same⟩ := startHook_of_refused refused
      rw [started] at begun same
      cases same
      exact .inl ⟨running, begun⟩
  | @played s₁ s₂ _ final _ running' started looped concluded =>
      rw [started] at begun
      have concludes := (begun.loop looped).conclude final
      rw [concluded] at concludes
      exact concludes

/-! ## Sessions -/

/-- Simulations between the calls of a session, where a bridge and a hook are installed before the
first one. Settings may be changed at any time. -/
inductive Supervised (B : Behaviours σ ω) : Simulation σ (ω × List Ending) → Prop where
  | built {kernel : Kernel} {instances : List (Instance σ ω)} {world : ω}
      {s : Simulation σ (ω × List Ending)}
      (built : build (B.beside _) kernel (Instance.rewiredAll Bridge.recorded instances)
        (world, []) = .ok s) (bridged : s.link.isSome = true) (hook : Hook ω) :
      Supervised B (s.setHook hook.recorded)
  | tuned {s : Simulation σ (ω × List Ending)} (supervised : Supervised B s) (maxDeltas : Nat)
      (defaultDuration : Option Nat) : Supervised B { s with maxDeltas, defaultDuration }
  | answered {s s' : Simulation σ (ω × List Ending)} {fuel : Nat} {call : Call}
      {result : Except SimError Outcome} (supervised : Supervised B s)
      (answered : s.answer (B.beside _) fuel call = .ok (s', result)) : Supervised B s'

theorem poised_of_build {kernel : Kernel} {instances : List (Instance σ ω)} {world : ω}
    (built : build (B.beside _) kernel (Instance.rewiredAll Bridge.recorded instances) (world, []) =
      .ok s) (bridged : s.link.isSome = true) (hook : Hook ω) :
    (s.setHook hook.recorded).Poised := by
  obtain ⟨start, -, link⟩ := outside_of_build built
  have known : (s.setHook hook.recorded).OutputsKnown := fun id output =>
    known_build built id output
  rcases link with unlinked | ⟨bridge, listed, linked⟩
  · rw [unlinked] at bridged
    cases bridged
  · obtain ⟨b, rfl⟩ := Instance.exists_of_mem_flattenAll_rewired instances listed
    refine ⟨known, hook, b, ?_⟩
    simp only [Simulation.stance, setHook, start, linked, Option.map_some]

theorem Settled.answer (settled : s.Settled) {fuel : Nat} {call : Call}
    {result : Except SimError Outcome}
    (answered : s.answer (B.beside _) fuel call = .ok (s', result)) : s'.Settled := by
  rcases settled with ⟨running, poised⟩ | ⟨ended, retired⟩
  · cases call with
    | run duration => exact poised.run running answered
    | runToCompletion =>
        have uncapped : ({ s with defaultDuration := none } :
            Simulation σ (ω × List Ending)).Poised := poised.of_stance poised.known rfl
        exact uncapped.run running answered
  · obtain ⟨default, refused⟩ := answer_of_ended (B := B.beside _) ended fuel call
    cases refused.symm.trans answered
    exact .inr ⟨ended, retired.woundDown, retired.closed⟩

theorem Supervised.settled (supervised : Supervised B s) : s.Settled := by
  induction supervised with
  | @built kernel instances world s built bridged hook =>
      have ready : s.state = .ready := (adds_build built).state
      have running : (s.setHook hook.recorded).hasEnded = false := by
        simp only [hasEnded, setHook, ready]
      exact .inl ⟨running, poised_of_build built bridged hook⟩
  | tuned supervised maxDeltas defaultDuration ih =>
      rcases ih with ⟨running, poised⟩ | ⟨ended, retired⟩
      · exact .inl ⟨running, poised.of_stance poised.known rfl⟩
      · exact .inr ⟨ended, retired.woundDown, retired.closed⟩
  | answered supervised answered ih => exact ih.answer answered

/-- Winding down. Nothing is wound down before the call that ends the simulation, whatever it ends
with. In that call the bridge is closed once, and unless closing it fails, the hook is told of the
end once, whatever it says to that. Nothing is wound down again by later calls, or when the simulation
is given up. -/
theorem the_end_closes_the_bridge_and_then_tells_the_hook {fuel : Nat} {call : Call}
    {result : Except SimError Outcome} (supervised : Supervised B s) (running : s.hasEnded = false)
    (answered : s.answer (B.beside _) fuel call = .ok (s', result)) (ended : s'.hasEnded = true) :
    s.world.2 = [] ∧ WoundDown s'.world.2 ∧ s'.quit.2 = s'.world ∧
      ∀ fuel' calls, ∃ s'' results, s'.answerAll (B.beside _) fuel' calls = .ok (s'', results) ∧
        s''.world = s'.world ∧ s''.quit.2 = s'.world := by
  have settled := supervised.settled
  have settles := settled.answer answered
  obtain ⟨-, poised⟩ := settled.resolve_right fun ends => by
    cases running.symm.trans ends.1
  obtain ⟨-, retired⟩ := settles.resolve_left fun goes => by
    cases ended.symm.trans goes.1
  obtain ⟨-, h, b, stance⟩ := poised
  refine ⟨congrArg Prod.fst stance, retired.woundDown, retired.quit, fun fuel' calls => ?_⟩
  obtain ⟨default, refused⟩ := answerAll_of_ended (B := B.beside _) ended fuel' calls
  have retired' : ({ s' with defaultDuration := default } :
      Simulation σ (ω × List Ending)).Retired := ⟨retired.woundDown, retired.closed⟩
  exact ⟨_, _, refused, rfl, retired'.quit⟩

/-- An engine that drives nothing, and what comes of closing the connection to it. -/
def engine (closing : Except BridgeError Unit) : Bridge Unit where
  outputs := []
  receive _ w := (w, .ok [])
  send _ _ w := (w, .ok ())
  close w := (w, closing)

/-- A hook that takes everything in. -/
def observer : Hook Unit where
  start _ w := (w, .ok ())
  change _ w := (w, .ok ())
  finish w := (w, .ok ())

/-- A simulation of nothing but an engine, which the observer watches. -/
def station (closing : Except BridgeError Unit) : Simulation Unit (Unit × List Ending) :=
  { kernel := ledger
    world := ((), [])
    link := some { bridge := (engine closing).recorded }
    hook := some observer.recorded }

/-- What was wound down by a run, if it ended the simulation. -/
def endings : Except Stuck (Simulation Unit (Unit × List Ending) × Except SimError Outcome) →
    Option (List Ending)
  | .ok (s, _) => if s.hasEnded then some s.world.2 else none
  | .error _ => none

/-- The engine is closed and the observer is told. -/
theorem the_observer_is_told :
    ∃ s' result, (station (.ok ())).answer (sleepy.beside _) 9 (.run none) = .ok (s', result) ∧
      WoundDown s'.world.2 ∧ s'.quit.2 = s'.world ∧
      s'.world.2 = [.closed (.ok ()), .finished (.ok ())] := by
  have built : build (sleepy.beside _) ledger
      (Instance.rewiredAll Bridge.recorded [.bridge (engine (.ok ()))]) ((), []) =
      .ok { station (.ok ()) with hook := none } := rfl
  have supervised : Supervised sleepy (station (.ok ())) := .built built rfl observer
  have ends : endings ((station (.ok ())).answer (sleepy.beside _) 9 (.run none)) =
      some [.closed (.ok ()), .finished (.ok ())] := by decide +kernel
  unfold endings at ends
  split at ends
  · next s' result answered =>
      split at ends
      · next ended =>
          obtain ⟨-, woundDown, given, -⟩ :=
            the_end_closes_the_bridge_and_then_tells_the_hook supervised rfl answered ended
          exact ⟨s', result, answered, woundDown, given, Option.some.inj ends⟩
      · cases ends
  · cases ends

/-- Where the engine does not close, the observer is not told of the end. -/
theorem the_observer_waits_for_ever :
    endings ((station (.error (.garbled "close garbled"))).answer (sleepy.beside _) 9 (.run none)) =
      some [.closed (.error (.garbled "close garbled"))] := by
  decide +kernel

end Simulation

end DeltaCycle
