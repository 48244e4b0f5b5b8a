import DeltaCycle.Simulation.Round

/-!
# Runs

A run repeats rounds. After each round it exchanges values with the bridge; while that
or pending writes leave something to do, the next round belongs to the same tick.
Otherwise the clock moves to the earliest event in the queue, unless the cap of the run
comes first or nothing is left to happen.
-/

set_option autoImplicit false

namespace DeltaCycle

namespace Simulation

variable {σ ω : Type}

/-! ## The bridge -/

/-- The committed values of the outputs. -/
def snapshot (k : Kernel) (outputs : List SignalId) : List (SignalId × Value) :=
  outputs.filterMap fun id => (k.val? id).map (id, ·)

/-- Changes the state of the link, if there is one. -/
def changeLink (s : Simulation σ ω) (f : Link ω → Link ω) : Simulation σ ω :=
  { s with link := s.link.map f }

/-- Sends the outputs; from then on a reply is awaited. -/
def sendOutputs (s : Simulation σ ω) (bridge : Bridge ω) :
    Simulation σ ω × Except SimError Unit :=
  match bridge.send s.kernel.now (snapshot s.kernel bridge.outputs) s.world with
  | (world, .error e) => ({ s with world }, .error (.cosimulation e))
  | (world, .ok _) =>
      ({ s with world }.changeLink fun l => { l with changed := false, awaitingReply := true },
        .ok ())

/-- Whether the proposed values of two kernels for a signal differ. -/
def proposalDiffers (before after : Kernel) (id : SignalId) : Bool :=
  match before.signal? id, after.signal? id with
  | some a, some b => !b.next.same a.next
  | _, _ => false

/-- Writes received values in order, up to the first that is refused, and tells whether
any proposed value changed. -/
def takeIn (s : Simulation σ ω) (changed : Bool) :
    List (SignalId × Value) → Simulation σ ω × Except SimError Bool
  | [] => (s, .ok changed)
  | (id, value) :: rest =>
      match s.kernel.write id value false with
      | (_, .error e) => (s, .error e)
      | (kernel, .ok _) =>
          takeIn { s with kernel } (changed || proposalDiffers s.kernel kernel id) rest

/-- Reads the reply, if one is awaited. -/
def readReply (s : Simulation σ ω) (l : Link ω) : Simulation σ ω × Except SimError Bool :=
  if l.awaitingReply then
    let s := s.changeLink fun l => { l with awaitingReply := false }
    match l.bridge.receive s.kernel.now s.world with
    | (world, .error e) => ({ s with world }, .error (.cosimulation e))
    | (world, .ok values) => takeIn { s with world } false values
  else
    (s, .ok false)

/-- The link, while it is open. -/
def openLink? (s : Simulation σ ω) : Option (Link ω) :=
  s.link.filter fun l => !l.closed

/-- Reads the reply of the engine, and sends the outputs if the reply or the design
changed anything. Tells whether a send was made. -/
def exchange (s : Simulation σ ω) : Simulation σ ω × Except SimError Bool :=
  match s.openLink? with
  | none => (s, .ok false)
  | some l =>
      match s.readReply l with
      | (s, .error e) => (s, .error e)
      | (s, .ok inbound) =>
          if inbound || l.changed then
            match s.sendOutputs l.bridge with
            | (s, .error e) => (s, .error e)
            | (s, .ok _) => (s, .ok true)
          else
            (s, .ok false)

/-! ## Time -/

/-- Enters the next delta cycle of the tick, up to the limit. -/
def nextDelta (s : Simulation σ ω) : Simulation σ ω × Except SimError Unit :=
  let s := { s with
    delta := s.delta + 1
    stats := { s.stats with deltas := s.stats.deltas + 1 } }
  if s.maxDeltas < s.delta then (s, .error (.deltaCycleLimit s.kernel.now s.maxDeltas))
  else (s, .ok ())

/-- Moves the clock to a tick that is not earlier; staying in the tick takes a delta
cycle. -/
def moveClock (s : Simulation σ ω) (time : Nat) : Simulation σ ω × Except SimError Unit :=
  if s.kernel.now < time then
    ({ s with
        delta := 0
        stats := { s.stats with timeSteps := s.stats.timeSteps + 1 }
        kernel := { s.kernel with now := time } },
      .ok ())
  else
    match s.nextDelta with
    | (s, .ok _) => ({ s with kernel := { s.kernel with now := time } }, .ok ())
    | (s, .error e) => (s, .error e)

/-- What an entry that came due does. -/
def fire (s : Simulation σ ω) : Payload → Simulation σ ω × Except SimError Unit
  | .wake arming => ({ s with ready := s.ready.push arming }, .ok ())
  | .apply id value stamp => s.step id fun signal => signal.applyDeferred value stamp

/-- Takes `count` entries at most that are due at this tick, up to the first that fails. -/
def drainUpTo : Nat → Simulation σ ω → Nat → Simulation σ ω × Except SimError Unit
  | 0, s, _ => (s, .ok ())
  | count + 1, s, time =>
      match s.queue.popDue time with
      | none => (s, .ok ())
      | some (payload, queue) =>
          match fire { s with queue } payload with
          | (s, .ok _) => drainUpTo count s time
          | (s, .error e) => (s, .error e)

/-- Takes everything that is due at this tick. Firing an entry adds none. -/
def drain (s : Simulation σ ω) (time : Nat) : Simulation σ ω × Except SimError Unit :=
  drainUpTo s.queue.size s time

/-- Moves the clock, takes what is due, and sends the outputs to the engine. -/
def advanceTo (s : Simulation σ ω) (time : Nat) : Simulation σ ω × Except SimError Unit :=
  match s.moveClock time with
  | (s, .error e) => (s, .error e)
  | (s, .ok _) =>
      match s.drain time with
      | (s, .error e) => (s, .error e)
      | (s, .ok _) =>
          match s.openLink? with
          | some l => s.sendOutputs l.bridge
          | none => (s, .ok ())

/-! ## The loop -/

/-- Whether a run goes on after a cycle. -/
inductive Verdict where
  | again
  | ended (result : Except SimError Outcome)

/-- What follows a transition that must succeed for the run to go on. -/
def goOn : Simulation σ ω × Except SimError Unit → Simulation σ ω × Verdict
  | (s, .ok _) => (s, .again)
  | (s, .error e) => (s, .ended (.error e))

/-- The end of a cycle in which nobody failed or asked for the end: exchange with the
bridge, then stay in the tick, move the clock, or stop. -/
def proceed (s : Simulation σ ω) (cap : Option Nat) : Simulation σ ω × Verdict :=
  match s.exchange with
  | (s, .error e) => (s, .ended (.error e))
  | (s, .ok exchanged) =>
      let s := s.purge
      if !s.kernel.pending.isEmpty || exchanged then
        goOn s.nextDelta
      else if cap = some s.kernel.now then
        (s, .ended (.ok .suspended))
      else
        match s.queue.nextTime? with
        | none => (s, .ended (.ok (.finished .noMoreEvents)))
        | some time =>
            match cap.filter (· < time) with
            | some cap =>
                ({ s with kernel := { s.kernel with now := cap }, delta := 0 },
                  .ended (.ok .suspended))
            | none => goOn (s.advanceTo time)

/-- The end of a cycle in which a waiter failed or a process asked for the end: what was
written in the cycle is still committed. The failure of a waiter counts first. -/
def wrapUp (s : Simulation σ ω) (failure : Except SimError Unit) : Simulation σ ω × Verdict :=
  let (s, committed) := s.commitPending
  let s := s.purge
  match firstError failure committed with
  | .error e => (s, .ended (.error e))
  | .ok _ =>
      ({ s with kernel := { s.kernel with stopRequest := none } },
        .ended (.ok (.finished (.requested (s.kernel.stopRequest.getD "")))))

/-- One turn of the loop: a round and what follows it. -/
def cycle (B : Behaviours σ ω) (fuel : Nat) (s : Simulation σ ω) (cap : Option Nat) :
    Except Stuck (Simulation σ ω × Verdict) :=
  match s.commitPending with
  | (s, .error e) => .ok (s, .ended (.error e))
  | (s, .ok _) =>
      match runReady B fuel s (.ok ()) with
      | .error stuck => .error stuck
      | .ok (s, failure) =>
          match failure, s.kernel.stopRequest with
          | .ok _, none => .ok (s.proceed cap)
          | failure, _ => .ok (s.wrapUp failure)

/-- Repeats the loop until it ends. The cycles, and the resumes of each, are granted
beforehand, since nothing bounds them for processes in general. -/
def loop (B : Behaviours σ ω) :
    Nat → Simulation σ ω → Option Nat → Except Stuck (Simulation σ ω × Except SimError Outcome)
  | 0, _, _ => .error .outOfFuel
  | fuel + 1, s, cap =>
      match s.cycle B (fuel + 1) cap with
      | .error stuck => .error stuck
      | .ok (s, .again) => loop B fuel s cap
      | .ok (s, .ended result) => .ok (s, result)

/-! ## Starting and ending -/

/-- The traced signals with their committed values. -/
def tracedSignals (k : Kernel) : List Traced :=
  k.ids.filterMap fun id =>
    match k.signal? id with
    | some s => if s.traced then some ⟨id, s.name, s.val⟩ else none
    | none => none

/-- Tells the hook of the start, unless it was told already. -/
def startHook (s : Simulation σ ω) : Simulation σ ω × Except SimError Unit :=
  if s.hookStarted then
    (s, .ok ())
  else
    let s := { s with hookStarted := true }
    match s.hook with
    | none => (s, .ok ())
    | some hook =>
        let (world, result) := hook.start (tracedSignals s.kernel) s.world
        ({ s with world }, result)

/-- Closes the bridge, once. -/
def closeLink (s : Simulation σ ω) : Simulation σ ω × Except SimError Unit :=
  match s.link with
  | none => (s, .ok ())
  | some l =>
      let (l, world, result) := l.close s.world
      ({ s with link := some l, world }, result.mapError .cosimulation)

/-- Closes the bridge and, if that succeeds, tells the hook of the end. -/
def shutdown (s : Simulation σ ω) : Simulation σ ω × Except SimError Unit :=
  match s.closeLink with
  | (s, .error e) => (s, .error e)
  | (s, .ok _) =>
      match s.hook with
      | none => (s, .ok ())
      | some hook =>
          let (world, result) := hook.finish s.world
          ({ s with world }, result)

/-- Records how the loop ended, and shuts down unless the run can go on later. -/
def conclude (s : Simulation σ ω) :
    Except SimError Outcome → Simulation σ ω × Except SimError Outcome
  | .ok .suspended => ({ s with state := .suspended }, .ok .suspended)
  | .ok (.finished reason) =>
      match { s with state := .finished }.shutdown with
      | (s, .ok _) => (s, .ok (.finished reason))
      | (s, .error e) => (s, .error e)
  | .error e => ({ s with state := .failed }.shutdown.1, .error e)

/-- Whether the simulation has ended. -/
def hasEnded (s : Simulation σ ω) : Bool :=
  match s.state with
  | .finished | .failed => true
  | .ready | .suspended => false

/-- The last tick of a run of this duration; a run without duration has none. -/
def capOf (s : Simulation σ ω) (duration : Option Nat) : Option Nat :=
  (duration <|> s.defaultDuration).map fun d => Nat.min (s.kernel.now + d) lastTick

/-- Runs until the duration has passed, a process asks for the end, or nothing is left to
happen. Without a duration the default one applies, if there is any. -/
def run (B : Behaviours σ ω) (fuel : Nat) (s : Simulation σ ω) (duration : Option Nat) :
    Except Stuck (Simulation σ ω × Except SimError Outcome) :=
  if s.hasEnded then
    .ok (s, .error .terminated)
  else
    match s.startHook with
    | (s, .error e) => .ok (s, .error e)
    | (s, .ok _) =>
        match loop B fuel s (s.capOf duration) with
        | .error stuck => .error stuck
        | .ok (s, result) => .ok (s.conclude result)

/-- Runs without any cap. -/
def runToCompletion (B : Behaviours σ ω) (fuel : Nat) (s : Simulation σ ω) :
    Except Stuck (Simulation σ ω × Except SimError Outcome) :=
  run B fuel { s with defaultDuration := none } none

/-- Ends the simulation: closes the bridge and hands back the kernel at the start of time.
The kernel is lost if the bridge does not close. -/
def quit (s : Simulation σ ω) : Except SimError Kernel × ω :=
  match s.closeLink with
  | (s, .error e) => (.error e, s.world)
  | (s, .ok _) => (.ok s.kernel.reset, s.world)

/-! ## Whole simulations -/

/-- What a whole simulation gives. -/
structure Summary where
  outcome : Outcome
  finalTime : Nat
  stats : RunStats
  diagnostics : List Diagnostic
deriving Repr, DecidableEq, Inhabited

/-- Builds a simulation under the given settings, runs it once, and ends it. -/
def simulate (B : Behaviours σ ω) (fuel : Nat) (config : Config) (kernel : Kernel)
    (instances : List (Instance σ ω)) (world : ω) :
    Except Stuck (Except SimError Summary × ω) :=
  match buildWith B config kernel instances world with
  | .error e => .ok (.error e, world)
  | .ok s =>
      match run B fuel s none with
      | .error stuck => .error stuck
      | .ok (s, .error e) => .ok (.error e, s.world)
      | .ok (s, .ok outcome) =>
          let summary : Summary :=
            { outcome, finalTime := s.kernel.now, stats := s.stats,
              diagnostics := s.kernel.diagnostics.entries }
          match s.quit with
          | (.error e, world) => .ok (.error e, world)
          | (.ok _, world) => .ok (.ok summary, world)

end Simulation

end DeltaCycle
