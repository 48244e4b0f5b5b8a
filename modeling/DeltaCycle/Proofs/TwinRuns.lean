import DeltaCycle.Proofs.Twins

/-!
# Runs of twins

Twins stay twins over whole cycles, runs and sessions, and answer every call alike. A kernel on which
other diagnostics were recorded before, and instances that are written differently but do the same,
give twins.
-/

set_option autoImplicit false

namespace DeltaCycle

variable {σ ω α : Type}

/-- Two instances are the same, or a block and a process that does what it does. -/
inductive Instance.Like (B : Behaviours σ ω) (R : Body σ → Body σ → Prop) :
    Instance σ ω → Instance σ ω → Prop where
  | refl (i : Instance σ ω) : Like B R i i
  | unrolled {block : Always σ} {state : σ} (sensitive : block.sensitivity ≠ .triggers [])
      (named : B.name state = block.name) (related : R (.always block false) (.process state)) :
      Like B R (.always block) (.process state)

namespace Simulation

variable {B : Behaviours σ ω} {R : Body σ → Body σ → Prop} {log : DiagnosticLog}
  {s s' : Simulation σ ω}

namespace Twin

/-! ## Cycles -/

section Cycles

theorem sendOutputs (twin : Twin R log s s') (bridge : Bridge ω) :
    Alike R log (s.sendOutputs bridge) (s'.sendOutputs bridge) := by
  cases twin with
  | @mk waiters like =>
      have same : snapshot (s.kernel.following log) bridge.outputs =
          snapshot s.kernel bridge.outputs := rfl
      unfold Simulation.sendOutputs
      dsimp only [Kernel.now_following]
      rw [same]
      split <;> exact Twin.alike (.mk like)

theorem takeIn (twin : Twin R log s s') (changed : Bool) (values : List (SignalId × Value)) :
    Alike R log (s.takeIn changed values) (s'.takeIn changed values) := by
  induction values generalizing s s' changed with
  | nil => exact twin.alike
  | cons value rest ih =>
      cases twin with
      | @mk waiters like =>
          obtain ⟨id, value⟩ := value
          simp only [Simulation.takeIn, Kernel.write_following]
          cases s.kernel.write id value false with
          | mk kernel result =>
              cases result with
              | error e => exact Twin.alike (.mk like)
              | ok _ =>
                  refine ih ?_ _
                  exact .mk like

theorem readReply (twin : Twin R log s s') (l : Link ω) :
    Alike R log (s.readReply l) (s'.readReply l) := by
  cases twin with
  | mk like =>
      unfold Simulation.readReply
      dsimp only [changeLink, Kernel.now_following]
      split
      · split
        · exact Twin.alike (.mk like)
        · refine takeIn ?_ false _
          exact .mk like
      · exact Twin.alike (.mk like)

theorem openLink? (twin : Twin R log s s') : s'.openLink? = s.openLink? := by
  cases twin
  rfl

theorem exchange (twin : Twin R log s s') : Alike R log s.exchange s'.exchange := by
  simp only [Simulation.exchange, twin.openLink?]
  cases s.openLink? with
  | none => exact twin.alike
  | some l =>
      obtain ⟨s₁, s₁', inbound, read, read', twin₁⟩ := twin.readReply l
      simp only [read, read']
      cases inbound with
      | error e => exact twin₁.alike
      | ok inbound =>
          dsimp only
          split
          · obtain ⟨s₂, s₂', sent, sends, sends', twin₂⟩ := twin₁.sendOutputs l.bridge
            simp only [sends, sends']
            cases sent <;> exact twin₂.alike
          · exact twin₁.alike

theorem nextDelta (twin : Twin R log s s') : Alike R log s.nextDelta s'.nextDelta := by
  cases twin with
  | mk like =>
      unfold Simulation.nextDelta
      dsimp only [Kernel.now_following]
      split <;> exact Twin.alike (.mk like)

/-- Twins stay twins where the clock is set. -/
theorem setNow (twin : Twin R log s s') (now : Nat) :
    Twin R log { s with kernel := { s.kernel with now } }
      { s' with kernel := { s'.kernel with now } } := by
  cases twin with
  | mk like => exact .mk like

theorem moveClock (twin : Twin R log s s') (time : Nat) :
    Alike R log (s.moveClock time) (s'.moveClock time) := by
  have now : s'.kernel.now = s.kernel.now := by
    cases twin
    rfl
  obtain ⟨s₁, s₁', result, stays, stays', twin₁⟩ := twin.nextDelta
  simp only [Simulation.moveClock, now, stays, stays']
  split
  · cases twin with
    | mk like => exact Twin.alike (.mk like)
  · cases result with
    | error e => exact twin₁.alike
    | ok _ => exact (twin₁.setNow time).alike

theorem fire (twin : Twin R log s s') (payload : Payload) :
    Alike R log (s.fire payload) (s'.fire payload) := by
  cases payload with
  | apply id value stamp => exact twin.step id _
  | wake a =>
      cases twin with
      | mk like => exact Twin.alike (.mk like)

theorem drainUpTo (twin : Twin R log s s') (count time : Nat) :
    Alike R log (drainUpTo count s time) (drainUpTo count s' time) := by
  induction count generalizing s s' with
  | zero => exact twin.alike
  | succ count ih =>
      have queue : s'.queue = s.queue := by
        cases twin
        rfl
      simp only [Simulation.drainUpTo, queue]
      cases s.queue.popDue time with
      | none => exact twin.alike
      | some due =>
          obtain ⟨payload, rest⟩ := due
          have popped : Twin R log { s with queue := rest } { s' with queue := rest } := by
            cases twin with
            | mk like => exact .mk like
          obtain ⟨s₁, s₁', result, fires, fires', twin₁⟩ := popped.fire payload
          simp only [fires, fires']
          cases result with
          | error e => exact twin₁.alike
          | ok _ => exact ih twin₁

theorem advanceTo (twin : Twin R log s s') (time : Nat) :
    Alike R log (s.advanceTo time) (s'.advanceTo time) := by
  obtain ⟨s₁, s₁', moved, moves, moves', twin₁⟩ := twin.moveClock time
  simp only [Simulation.advanceTo, moves, moves']
  cases moved with
  | error e => exact twin₁.alike
  | ok _ =>
      have queue : s₁'.queue = s₁.queue := by
        cases twin₁
        rfl
      obtain ⟨s₂, s₂', drained, drains, drains', twin₂⟩ := twin₁.drainUpTo s₁.queue.size time
      simp only [drain, queue, drains, drains']
      cases drained with
      | error e => exact twin₂.alike
      | ok _ =>
          simp only [twin₂.openLink?]
          cases s₂.openLink? with
          | none => exact twin₂.alike
          | some l => exact twin₂.sendOutputs l.bridge

theorem goOn {p p' : Simulation σ ω × Except SimError Unit} (alike : Alike R log p p') :
    Alike R log (goOn p) (goOn p') := by
  obtain ⟨s, s', result, rfl, rfl, twin⟩ := alike
  cases result <;> exact twin.alike

theorem proceed (twin : Twin R log s s') (cap : Option Nat) :
    Alike R log (s.proceed cap) (s'.proceed cap) := by
  obtain ⟨s₁, s₁', exchanged, exchanges, exchanges', twin₁⟩ := twin.exchange
  simp only [Simulation.proceed, exchanges, exchanges']
  cases exchanged with
  | error e => exact twin₁.alike
  | ok exchanged =>
      have purged := twin₁.purge
      dsimp only
      generalize s₁.purge = q, s₁'.purge = q' at purged ⊢
      have desk : q'.kernel.pending = q.kernel.pending ∧ q'.kernel.now = q.kernel.now ∧
          q'.queue = q.queue := by
        cases purged
        exact ⟨rfl, rfl, rfl⟩
      rw [desk.1, desk.2.1, desk.2.2]
      split
      · exact goOn purged.nextDelta
      · split
        · exact purged.alike
        · cases q.queue.nextTime? with
          | none => exact purged.alike
          | some time =>
              dsimp only
              cases cap.filter (· < time) with
              | none => exact goOn (purged.advanceTo time)
              | some cap =>
                  cases purged with
                  | mk like => exact Twin.alike (.mk like)

theorem wrapUp (twin : Twin R log s s') (failure : Except SimError Unit) :
    Alike R log (s.wrapUp failure) (s'.wrapUp failure) := by
  obtain ⟨s₁, s₁', committed, commits, commits', twin₁⟩ := twin.commitPending
  have purged := twin₁.purge
  simp only [Simulation.wrapUp, commits, commits']
  generalize s₁.purge = q, s₁'.purge = q' at purged ⊢
  cases firstError failure committed with
  | error e => exact purged.alike
  | ok _ =>
      cases purged with
      | mk like => exact Twin.alike (.mk like)

theorem cycle (likeness : Likeness B R) (twin : Twin R log s s') (fuel : Nat)
    (cap : Option Nat) : Both R log (s.cycle B fuel cap) (s'.cycle B fuel cap) := by
  obtain ⟨s₁, s₁', committed, commits, commits', twin₁⟩ := twin.commitPending
  simp only [Simulation.cycle, commits, commits']
  cases committed with
  | error e => exact .went twin₁.alike
  | ok _ =>
      have ran := twin₁.runReady likeness fuel (.ok ())
      dsimp only
      generalize Simulation.runReady B fuel s₁ (.ok ()) = x,
        Simulation.runReady B fuel s₁' (.ok ()) = y at ran ⊢
      cases ran with
      | stuck why => exact .stuck why
      | went alike =>
          obtain ⟨s₂, s₂', failure, rfl, rfl, twin₂⟩ := alike
          have stop : s₂'.kernel.stopRequest = s₂.kernel.stopRequest := by
            cases twin₂
            rfl
          dsimp only
          rw [stop]
          cases failure with
          | error e => exact .went (twin₂.wrapUp _)
          | ok _ =>
              cases s₂.kernel.stopRequest with
              | none => exact .went (twin₂.proceed cap)
              | some reason => exact .went (twin₂.wrapUp _)

theorem loop (likeness : Likeness B R) (twin : Twin R log s s') (fuel : Nat)
    (cap : Option Nat) : Both R log (loop B fuel s cap) (loop B fuel s' cap) := by
  induction fuel generalizing s s' with
  | zero => exact .stuck _
  | succ fuel ih =>
      have turned := twin.cycle likeness (fuel + 1) cap
      unfold Simulation.loop
      generalize s.cycle B (fuel + 1) cap = x, s'.cycle B (fuel + 1) cap = y at turned ⊢
      cases turned with
      | stuck why => exact .stuck why
      | went alike =>
          obtain ⟨s₁, s₁', verdict, rfl, rfl, twin₁⟩ := alike
          cases verdict with
          | again => exact ih twin₁
          | ended result => exact .went twin₁.alike

end Cycles

/-! ## Runs -/

section Runs

theorem startHook (twin : Twin R log s s') : Alike R log s.startHook s'.startHook := by
  cases twin with
  | @mk waiters like =>
      have same : tracedSignals (s.kernel.following log) = tracedSignals s.kernel := rfl
      unfold Simulation.startHook
      dsimp only
      rw [same]
      split
      · exact Twin.alike (.mk like)
      · split <;> exact Twin.alike (.mk like)

theorem closeLink (twin : Twin R log s s') : Alike R log s.closeLink s'.closeLink := by
  cases twin with
  | mk like =>
      unfold Simulation.closeLink
      dsimp only
      split <;> exact Twin.alike (.mk like)

theorem shutdown (twin : Twin R log s s') : Alike R log s.shutdown s'.shutdown := by
  obtain ⟨s₁, s₁', closed, closes, closes', twin₁⟩ := twin.closeLink
  simp only [Simulation.shutdown, closes, closes']
  cases closed with
  | error e => exact twin₁.alike
  | ok _ =>
      cases twin₁ with
      | mk like =>
          dsimp only
          split <;> exact Twin.alike (.mk like)

theorem setState (twin : Twin R log s s') (state : RunState) :
    Twin R log { s with state } { s' with state } := by
  cases twin with
  | mk like => exact .mk like

theorem conclude (twin : Twin R log s s') (result : Except SimError Outcome) :
    Alike R log (s.conclude result) (s'.conclude result) := by
  cases result with
  | error e =>
      obtain ⟨s₁, s₁', _, shuts, shuts', twin₁⟩ := (twin.setState .failed).shutdown
      simp only [Simulation.conclude, shuts, shuts']
      exact twin₁.alike
  | ok outcome =>
      cases outcome with
      | suspended => exact (twin.setState .suspended).alike
      | finished reason =>
          obtain ⟨s₁, s₁', shut, shuts, shuts', twin₁⟩ := (twin.setState .finished).shutdown
          simp only [Simulation.conclude, shuts, shuts']
          cases shut <;> exact twin₁.alike

theorem run (likeness : Likeness B R) (twin : Twin R log s s') (fuel : Nat)
    (duration : Option Nat) : Both R log (run B fuel s duration) (run B fuel s' duration) := by
  have ended : s'.hasEnded = s.hasEnded := by
    cases twin
    rfl
  obtain ⟨s₁, s₁', begun, begins, begins', twin₁⟩ := twin.startHook
  simp only [Simulation.run, ended, begins, begins']
  split
  · exact .went twin.alike
  · cases begun with
    | error e => exact .went twin₁.alike
    | ok _ =>
        have cap : s₁'.capOf duration = s₁.capOf duration := by
          cases twin₁
          rfl
        have looped := twin₁.loop likeness fuel (s₁.capOf duration)
        dsimp only
        rw [cap]
        generalize Simulation.loop B fuel s₁ (s₁.capOf duration) = x,
          Simulation.loop B fuel s₁' (s₁.capOf duration) = y at looped ⊢
        cases looped with
        | stuck why => exact .stuck why
        | went alike =>
            obtain ⟨s₂, s₂', result, rfl, rfl, twin₂⟩ := alike
            exact .went (twin₂.conclude result)

theorem answer (likeness : Likeness B R) (twin : Twin R log s s') (fuel : Nat) (call : Call) :
    Both R log (s.answer B fuel call) (s'.answer B fuel call) := by
  cases call with
  | run duration => exact twin.run likeness fuel duration
  | runToCompletion =>
      have uncapped : Twin R log { s with defaultDuration := none }
          { s' with defaultDuration := none } := by
        cases twin with
        | mk like => exact .mk like
      exact uncapped.run likeness fuel none

/-- Twins close their bridges alike, and what they hand back differs in earlier diagnostics only. -/
theorem quit (twin : Twin R log s s') :
    s'.quit = (s.quit.1.map fun kernel => kernel.following log, s.quit.2) := by
  obtain ⟨s₁, s₁', closed, closes, closes', twin₁⟩ := twin.closeLink
  simp only [Simulation.quit, closes, closes']
  cases twin₁
  cases closed <;> rfl

end Runs

end Twin

/-! ## Sessions -/

/-- What a caller does with a simulation. -/
inductive Move (ω : Type) where
  | call (call : Call)
  | setHook (hook : Hook ω)
  | setMaxDeltas (maxDeltas : Nat)
  | setDefaultDuration (duration : Option Nat)

/-- Makes moves one after the other, and tells what each of the calls returned. -/
def play (B : Behaviours σ ω) (fuel : Nat) :
    Simulation σ ω → List (Move ω) →
      Except Stuck (Simulation σ ω × List (Except SimError Outcome))
  | s, [] => .ok (s, [])
  | s, .setHook hook :: moves => (s.setHook hook).play B fuel moves
  | s, .setMaxDeltas maxDeltas :: moves => (s.setMaxDeltas maxDeltas).play B fuel moves
  | s, .setDefaultDuration defaultDuration :: moves =>
      { s with defaultDuration }.play B fuel moves
  | s, .call call :: moves =>
      match s.answer B fuel call with
      | .error stuck => .error stuck
      | .ok (s, result) =>
          match s.play B fuel moves with
          | .error stuck => .error stuck
          | .ok (s, results) => .ok (s, result :: results)

/-- A session that begins with a call goes on after what the call leaves. -/
theorem play_call {fuel : Nat} {call : Call} {moves : List (Move ω)} {s s' : Simulation σ ω}
    {results : List (Except SimError Outcome)}
    (played : s.play B fuel (.call call :: moves) = .ok (s', results)) :
    ∃ s₁ result results', s.answer B fuel call = .ok (s₁, result) ∧
      s₁.play B fuel moves = .ok (s', results') ∧ results = result :: results' := by
  rw [play] at played
  cases answered : s.answer B fuel call with
  | error stuck => simp [answered] at played
  | ok turn =>
      obtain ⟨s₁, result⟩ := turn
      simp only [answered] at played
      cases others : s₁.play B fuel moves with
      | error stuck => simp [others] at played
      | ok rest =>
          obtain ⟨s₂, results'⟩ := rest
          simp only [others] at played
          cases played
          exact ⟨s₁, result, results', rfl, others, rfl⟩

/-- What comes of a session: no simulation at all, no result, or a simulation and what the calls
returned. -/
abbrev SessionResult (σ ω : Type) : Type :=
  Except SimError (Except Stuck (Simulation σ ω × List (Except SimError Outcome)))

/-- Builds a simulation and makes moves on it. -/
def session (B : Behaviours σ ω) (kernel : Kernel) (instances : List (Instance σ ω)) (world : ω)
    (fuel : Nat) (moves : List (Move ω)) : SessionResult σ ω :=
  (build B kernel instances world).map fun s => s.play B fuel moves

theorem Twin.play (likeness : Likeness B R) (twin : Twin R log s s') (fuel : Nat)
    (moves : List (Move ω)) : Twin.Both R log (s.play B fuel moves) (s'.play B fuel moves) := by
  induction moves generalizing s s' with
  | nil => exact .went twin.alike
  | cons move moves ih =>
      cases move with
      | setHook hook =>
          refine ih ?_
          cases twin with
          | mk like => exact .mk like
      | setMaxDeltas maxDeltas =>
          refine ih ?_
          cases twin with
          | mk like => exact .mk like
      | setDefaultDuration duration =>
          refine ih ?_
          cases twin with
          | mk like => exact .mk like
      | call call =>
          have answered := twin.answer likeness fuel call
          unfold Simulation.play
          generalize s.answer B fuel call = x, s'.answer B fuel call = y at answered ⊢
          cases answered with
          | stuck why => exact .stuck why
          | went alike =>
              obtain ⟨s₁, s₁', result, rfl, rfl, twin₁⟩ := alike
              have others := ih twin₁
              dsimp only
              generalize s₁.play B fuel moves = x, s₁'.play B fuel moves = y at others ⊢
              cases others with
              | stuck why => exact .stuck why
              | went alike =>
                  obtain ⟨s₂, s₂', results, rfl, rfl, twin₂⟩ := alike
                  exact .went twin₂.alike

/-! ## Beginnings -/

/-- Two ways of building fail alike, or give twins. -/
inductive Twin.Built (R : Body σ → Body σ → Prop) (log : DiagnosticLog) :
    Except SimError (Simulation σ ω) → Except SimError (Simulation σ ω) → Prop where
  | refused (e : SimError) : Built R log (.error e) (.error e)
  | built {s s' : Simulation σ ω} (twin : Twin R log s s') : Built R log (.ok s) (.ok s')

namespace Twin

theorem attach (likeness : Likeness B R) (twin : Twin R log s s') (bridge : Bridge ω) :
    Built R log (s.attach bridge) (s'.attach bridge) := by
  have link : s'.link = s.link := by
    cases twin
    rfl
  have known : (fun id => (s'.kernel.signal? id).isNone) = fun id => (s.kernel.signal? id).isNone := by
    cases twin
    rfl
  have added : Twin R log
      (if bridge.outputs.isEmpty then s else s.addWaiter "cosim" .outputs none)
      (if bridge.outputs.isEmpty then s' else s'.addWaiter "cosim" .outputs none) := by
    split
    · exact twin
    · exact twin.addWaiter _ (likeness.refl _) none
  simp only [Simulation.attach, link, known]
  split
  · exact .refused _
  · split
    · exact .refused _
    · refine .built ?_
      generalize (if bridge.outputs.isEmpty = true then s else _) = t,
        (if bridge.outputs.isEmpty = true then s' else _) = t' at added ⊢
      cases added with
      | mk like => exact .mk like

theorem addInstance (likeness : Likeness B R) (twin : Twin R log s s') {i i' : Instance σ ω}
    (like : Instance.Like B R i i') : Built R log (s.addInstance B i) (s'.addInstance B i') := by
  cases like with
  | unrolled sensitive named related =>
      simp only [Simulation.addInstance, named]
      exact .built (twin.addWaiter _ related none)
  | refl =>
      cases i with
      | process state => exact .built (twin.addWaiter _ (likeness.refl _) none)
      | always block =>
          simp only [Simulation.addInstance]
          split
          · exact .refused _
          · exact .built (twin.addWaiter _ (likeness.refl _) none)
      | bridge bridge => exact twin.attach likeness bridge
      | group members => exact .built twin

theorem addInstances (likeness : Likeness B R) (twin : Twin R log s s')
    {instances instances' : List (Instance σ ω)}
    (like : List.Forall₂ (Instance.Like B R) instances instances') :
    Built R log (s.addInstances B instances) (s'.addInstances B instances') := by
  induction like generalizing s s' with
  | nil => exact .built twin
  | @cons i i' _ _ first _ ih =>
      have added := twin.addInstance likeness first
      simp only [Simulation.addInstances]
      generalize s.addInstance B i = x, s'.addInstance B i' = y at added ⊢
      cases added with
      | refused e => exact .refused e
      | built twin₁ => exact ih twin₁

theorem addShadows (likeness : Likeness B R) (twin : Twin R log s s') :
    Twin R log s.addShadows s'.addShadows := by
  have each (shadows : List Shadow) {s s' : Simulation σ ω} (twin : Twin R log s s') :
      Twin R log
        (shadows.foldl
          (fun s shadow => s.addWaiter (shadow.processName s.kernel) (.shadow shadow) none) s)
        (shadows.foldl
          (fun s shadow => s.addWaiter (shadow.processName s.kernel) (.shadow shadow) none) s') := by
    induction shadows generalizing s s' with
    | nil => exact twin
    | cons shadow rest ih =>
        have name : shadow.processName s'.kernel = shadow.processName s.kernel := by
          cases twin
          rfl
        refine ih ?_
        dsimp only
        rw [name]
        exact twin.addWaiter _ (likeness.refl _) none
  have shadows : s'.kernel.shadows = s.kernel.shadows := by
    cases twin
    rfl
  unfold Simulation.addShadows
  rw [shadows]
  exact each _ twin

theorem build (likeness : Likeness B R) (kernel : Kernel) (log : DiagnosticLog)
    {instances instances' : List (Instance σ ω)}
    (like : List.Forall₂ (Instance.Like B R) (Instance.flattenAll instances)
      (Instance.flattenAll instances')) (world : ω) :
    Built R log (build B kernel instances world)
      (build B (kernel.following log) instances' world) := by
  have empty : Twin R log { kernel, world } { kernel := kernel.following log, world } := by
    refine .mk (.mk ⟨rfl, fun x => ?_⟩)
    rw [show (({} : WaiterTable (Body σ)).slots)[x]? = none from rfl]
    exact .none
  exact (empty.addShadows likeness).addInstances likeness like

/-- Two sessions cannot begin for the same reason, or get stuck alike, or lead to twins after the same
returns. -/
inductive Sessions (R : Body σ → Body σ → Prop) (log : DiagnosticLog) :
    Except SimError (Except Stuck (Simulation σ ω × α)) →
      Except SimError (Except Stuck (Simulation σ ω × α)) → Prop where
  | refused (e : SimError) : Sessions R log (.error e) (.error e)
  | held {outcome outcome' : Except Stuck (Simulation σ ω × α)} (both : Both R log outcome outcome') :
      Sessions R log (.ok outcome) (.ok outcome')

theorem session (likeness : Likeness B R) (kernel : Kernel) (log : DiagnosticLog)
    {instances instances' : List (Instance σ ω)}
    (like : List.Forall₂ (Instance.Like B R) (Instance.flattenAll instances)
      (Instance.flattenAll instances')) (world : ω) (fuel : Nat) (moves : List (Move ω)) :
    Sessions R log (session B kernel instances world fuel moves)
      (session B (kernel.following log) instances' world fuel moves) := by
  have built := build likeness kernel log like world
  unfold Simulation.session
  generalize Simulation.build B kernel instances world = x,
    Simulation.build B (kernel.following log) instances' world = y at built ⊢
  cases built with
  | refused e => exact .refused e
  | built twin => exact .held (twin.play likeness fuel moves)

end Twin

end Simulation

end DeltaCycle
