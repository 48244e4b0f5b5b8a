import DeltaCycle.Activity
import DeltaCycle.EventQueue
import DeltaCycle.Fifo
import DeltaCycle.Hook
import DeltaCycle.Shadow
import DeltaCycle.SimTime
import DeltaCycle.WaiterTable
import Std.Data.HashSet

/-!
# Simulations

A simulation owns a kernel and the waiters that run on it: the processes and always
blocks of the design, one process for each shadow signal, and one waiter that watches
the outputs of the bridge. Building a simulation makes every one of them ready, shadows
first, in the order in which they were given.
-/

set_option autoImplicit false

namespace DeltaCycle

/-- What a waiter runs. -/
inductive Body (σ : Type) where
  | process (state : σ)
  /-- A branch of a join: it yields its clause once and completes. -/
  | branch (clause : Option (Clause σ))
  | shadow (shadow : Shadow)
  | always (block : Always σ) (started : Bool)
  /-- Notes that an output of the bridge changed. -/
  | outputs

/-- Something that a simulation runs. -/
inductive Instance (σ ω : Type) where
  | process (state : σ)
  | always (block : Always σ)
  | bridge (bridge : Bridge ω)
  | group (members : List (Instance σ ω))

/-- Where a simulation stands between runs. -/
inductive RunState where
  | ready
  | suspended
  | finished
  | failed
deriving Repr, DecidableEq, Inhabited

/-- Why a simulation stopped for good. -/
inductive StopReason where
  | noMoreEvents
  /-- A process asked for the end. -/
  | requested (reason : String)
deriving Repr, DecidableEq, Inhabited

/-- How a run ended. -/
inductive Outcome where
  /-- The cap was reached. -/
  | suspended
  | finished (reason : StopReason)
deriving Repr, DecidableEq, Inhabited

namespace StopReason

/-- The reason in words. -/
def text : StopReason → String
  | noMoreEvents => "No more events"
  | requested reason => reason

end StopReason

namespace Outcome

/-- One for a suspended run and zero for a finished one. -/
def code : Outcome → Nat
  | suspended => 1
  | finished _ => 0

end Outcome

/-- Counters over all runs. -/
structure RunStats where
  /-- Delta cycles after the first of their tick. -/
  deltas : Nat := 0
  /-- Committed changes. -/
  commits : Nat := 0
  /-- Ticks entered after the start. -/
  timeSteps : Nat := 0
  /-- Resumed waiters. -/
  resumes : Nat := 0
deriving Repr, DecidableEq, Inhabited

/-- A simulation. -/
structure Simulation (σ ω : Type) where
  kernel : Kernel
  waiters : WaiterTable (Body σ) := {}
  /-- Armings to be resumed in this delta cycle. -/
  ready : Fifo Arming := {}
  queue : EventQueue := {}
  /-- Signals whose wait lists may hold stale entries. -/
  stale : Std.HashSet SignalId := {}
  hook : Option (Hook ω) := none
  /-- Whether the hook was told of the start. -/
  hookStarted : Bool := false
  link : Option (Link ω) := none
  state : RunState := .ready
  /-- Index of the delta cycle within the tick. -/
  delta : Nat := 0
  maxDeltas : Nat := defaultMaxDeltas
  /-- Duration of runs that are given none. -/
  defaultDuration : Option Nat := none
  stats : RunStats := {}
  world : ω

namespace Instance

variable {σ ω : Type}

mutual

/-- The instances without groups around them. -/
def flatten : Instance σ ω → List (Instance σ ω)
  | group members => flattenAll members
  | other => [other]

/-- The instances of a list without groups around them. -/
def flattenAll : List (Instance σ ω) → List (Instance σ ω)
  | [] => []
  | member :: rest => flatten member ++ flattenAll rest

end

end Instance

namespace Simulation

variable {σ ω : Type}

/-! ## Building -/

/-- Adds a waiter that is ready for its first run. -/
def addWaiter (s : Simulation σ ω) (name : String) (body : Body σ)
    (parent : Option Continuation) : Simulation σ ω :=
  let (arming, waiters) := s.waiters.insert name body parent
  { s with waiters, ready := s.ready.push arming }

/-- Adds the processes of the shadow signals. -/
def addShadows (s : Simulation σ ω) : Simulation σ ω :=
  s.kernel.shadows.foldl
    (fun s shadow => s.addWaiter (shadow.processName s.kernel) (.shadow shadow) none) s

/-- Attaches a bridge, whose outputs must be known. -/
def attach (s : Simulation σ ω) (bridge : Bridge ω) : Except SimError (Simulation σ ω) :=
  if s.link.isSome then
    .error .secondBridge
  else
    match bridge.outputs.find? fun id => (s.kernel.signal? id).isNone with
    | some id => .error (.unknownSignal id.index)
    | none =>
        let s := if bridge.outputs.isEmpty then s else s.addWaiter "cosim" .outputs none
        .ok { s with link := some { bridge } }

/-- Adds one instance. -/
def addInstance (B : Behaviours σ ω) (s : Simulation σ ω) :
    Instance σ ω → Except SimError (Simulation σ ω)
  | .process state => .ok (s.addWaiter (B.name state) (.process state) none)
  | .always block =>
      match block.sensitivity with
      | .triggers [] => .error (.emptySensitivity block.name)
      | _ => .ok (s.addWaiter block.name (.always block false) none)
  | .bridge bridge => s.attach bridge
  | .group _ => .ok s

/-- Adds instances in order, up to the first that is refused. -/
def addInstances (B : Behaviours σ ω) :
    Simulation σ ω → List (Instance σ ω) → Except SimError (Simulation σ ω)
  | s, [] => .ok s
  | s, i :: rest =>
      match s.addInstance B i with
      | .error e => .error e
      | .ok s => addInstances B s rest

/-- A simulation of a kernel and instances in a world. -/
def build (B : Behaviours σ ω) (kernel : Kernel) (instances : List (Instance σ ω)) (world : ω) :
    Except SimError (Simulation σ ω) :=
  let empty : Simulation σ ω := { kernel, world }
  empty.addShadows.addInstances B (Instance.flattenAll instances)

/-- The kernel with the policy and the traced signals that the settings ask for. While
tracing is off, the marks on signals stay as they are. -/
def configure (kernel : Kernel) (config : Config) : Kernel :=
  let kernel := { kernel with contention := config.contention }
  if config.trace.enabled then
    { kernel with
      signals := kernel.signals.map fun s => { s with traced := config.trace.includes s.name } }
  else
    kernel

/-- A simulation under the given settings. -/
def buildWith (B : Behaviours σ ω) (config : Config) (kernel : Kernel)
    (instances : List (Instance σ ω)) (world : ω) : Except SimError (Simulation σ ω) :=
  match build B (configure kernel config) instances world with
  | .error e => .error e
  | .ok s =>
      .ok { s with
        maxDeltas := config.simulation.maxDeltas
        defaultDuration := config.simulation.duration }

/-- Installs a hook, which will be told of the start. -/
def setHook (s : Simulation σ ω) (hook : Hook ω) : Simulation σ ω :=
  { s with hook := some hook, hookStarted := false }

/-- Sets the limit of delta cycles within a tick. -/
def setMaxDeltas (s : Simulation σ ω) (maxDeltas : Nat) : Simulation σ ω := { s with maxDeltas }

/-! ## Looking at a simulation -/

/-- The current point in time. -/
def time (s : Simulation σ ω) : SimTime := ⟨s.kernel.now, s.delta⟩

/-- The number of waiters that have not completed. -/
def liveWaiters (s : Simulation σ ω) : Nat := s.waiters.size

/-- The number of events in the queue, stale ones included. -/
def pendingEvents (s : Simulation σ ω) : Nat := s.queue.size

/-- The number of entries in wait lists whose arming is not current any more. -/
def staleEntries (s : Simulation σ ω) : Nat :=
  (s.kernel.signals.toList.flatMap (·.waits.all)).countP fun a => !s.waiters.isLive a

end Simulation

end DeltaCycle
