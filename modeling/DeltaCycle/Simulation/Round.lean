import DeltaCycle.Simulation

/-!
# Rounds

A round commits what is pending and then resumes every waiter that is ready, those that
become ready meanwhile included. Committing never resumes anybody, and resuming never
commits anything.

Every transition is a function from the simulation before to the simulation after. One
that may fail also gives the error, beside the state in which it left the simulation.
-/

set_option autoImplicit false

namespace DeltaCycle

/-- Why a run has no result. -/
inductive Stuck where
  /-- An activity does not go on, as after reading an unknown signal without a check. -/
  | undefined
  /-- The steps that were granted are used up. -/
  | outOfFuel
deriving Repr, DecidableEq, Inhabited

namespace Simulation

variable {σ ω : Type}

/-! ## Committing -/

/-- The tick that lies `ticks` ahead, unless it lies past the last one. -/
def after (s : Simulation σ ω) (ticks : Nat) : Except SimError Nat :=
  if s.kernel.now + ticks ≤ lastTick then .ok (s.kernel.now + ticks)
  else .error (.timeOverflow s.kernel.now ticks)

/-- Tells the hook of a change, if the signal is traced. -/
def report (s : Simulation σ ω) (id : SignalId) (old : Value) :
    Simulation σ ω × Except SimError Unit :=
  match s.hook, s.kernel.signal? id with
  | some hook, some signal =>
      if signal.traced then
        let change : Change :=
          { time := s.kernel.now, signal := id, name := signal.name, old, new := signal.val }
        let (world, result) := hook.change change s.world
        ({ s with world }, result)
      else
        (s, .ok ())
  | _, _ => (s, .ok ())

/-- Takes in what an update phase or a due value did to a signal: wakes the woken,
reports the change, or puts a deferred value into the queue. -/
def absorb (s : Simulation σ ω) (id : SignalId) : Commit → Simulation σ ω × Except SimError Unit
  | .unchanged => (s, .ok ())
  | .deferred delay value stamp =>
      match s.after delay with
      | .error e => (s, .error e)
      | .ok time => ({ s with queue := s.queue.push time (.apply id value stamp) }, .ok ())
  | .changed old woken =>
      report
        { s with
          stats := { s.stats with commits := s.stats.commits + 1 }
          ready := s.ready.append woken }
        id old

/-- Applies a signal's own transition and takes in the result. -/
def step (s : Simulation σ ω) (id : SignalId) (f : Signal → Signal × Commit) :
    Simulation σ ω × Except SimError Unit :=
  match s.kernel.signal? id with
  | none => (s, .ok ())
  | some signal =>
      let (signal, commit) := f signal
      absorb { s with kernel := s.kernel.modify id fun _ => signal } id commit

/-- Two results in order: the first error counts. -/
def firstError (a b : Except SimError Unit) : Except SimError Unit :=
  match a with
  | .error e => .error e
  | .ok _ => b

/-- Runs the update phase of each signal in order, errors notwithstanding, and gives the
first error. A failure from before counts first. -/
def updateAll (s : Simulation σ ω) (failure : Except SimError Unit) :
    List SignalId → Simulation σ ω × Except SimError Unit
  | [] => (s, failure)
  | id :: rest =>
      let (s, result) := s.step id Signal.update
      s.updateAll (firstError failure result) rest

/-- Commits all pending signals, in the order in which they were written, and gives the
first error. -/
def commitPending (s : Simulation σ ω) : Simulation σ ω × Except SimError Unit :=
  updateAll { s with kernel := { s.kernel with pending := [] } } (.ok ())
    s.kernel.pending.reverse

/-! ## Arming -/

/-- The wait lists of a signal with an arming added to the one of a trigger. -/
def enlist (me : Arming) (w : WaitLists) : Trigger → WaitLists
  | .event _ => { w with event := me :: w.event }
  | .edge ⟨_, .rising⟩ => { w with rising := me :: w.rising }
  | .edge ⟨_, .falling⟩ => { w with falling := me :: w.falling }

/-- Puts an arming into a wait list of a signal. -/
def watch (s : Simulation σ ω) (me : Arming) (trigger : Trigger) :
    Simulation σ ω × Except SimError Unit :=
  match s.kernel.signal? trigger.signal with
  | none => (s, .error (.unknownSignal trigger.signal.index))
  | some _ =>
      ({ s with
          kernel := s.kernel.modify trigger.signal fun signal =>
            { signal with waits := enlist me signal.waits trigger }
          waiters := s.waiters.noteSubscription me.slot trigger.signal },
        .ok ())

/-- Watches triggers in order, up to the first that is refused. -/
def watchAll (s : Simulation σ ω) (me : Arming) :
    List Trigger → Simulation σ ω × Except SimError Unit
  | [] => (s, .ok ())
  | trigger :: rest =>
      match s.watch me trigger with
      | (s, .ok _) => s.watchAll me rest
      | (s, .error e) => (s, .error e)

/-- Puts an arming into the queue, `ticks` ahead. -/
def wakeAfter (s : Simulation σ ω) (me : Arming) (ticks : Nat) :
    Simulation σ ω × Except SimError Unit :=
  match s.after ticks with
  | .error e => (s, .error e)
  | .ok time => ({ s with queue := s.queue.push time (.wake me) }, .ok ())

/-- Makes a branch of a join ready: a spawned process is the branch itself, any other
clause gets a waiter of its own. -/
def addBranch (B : Behaviours σ ω) (group : Nat) (s : Simulation σ ω) (clause : Clause σ) :
    Simulation σ ω :=
  match clause with
  | .spawn child => s.addWaiter (B.name child) (.process child) (some (.join group))
  | clause => s.addWaiter "join branch" (.branch (some clause)) (some (.join group))

mutual

/-- Arms a waiter on a clause. -/
def subscribe (B : Behaviours σ ω) (s : Simulation σ ω) (me : Arming) :
    Clause σ → Simulation σ ω × Except SimError Unit
  | .event signal => s.watch me (.event signal)
  | .edge edge => s.watch me (.edge edge)
  | .delay ticks => s.wakeAfter me ticks
  | .noop => ({ s with queue := s.queue.push s.kernel.now (.wake me) }, .ok ())
  | .any [] => (s, .error .emptyAny)
  | .any clauses => subscribeAll B s me clauses
  | .join [] => (s, .error .emptyJoin)
  | .join clauses =>
      let (group, waiters) := s.waiters.openJoin clauses.length me
      (clauses.foldl (addBranch B group) { s with waiters }, .ok ())
  | .spawn child => (s.addWaiter (B.name child) (.process child) (some (.resume me)), .ok ())

/-- Arms a waiter on clauses in order, up to the first that is refused. -/
def subscribeAll (B : Behaviours σ ω) (s : Simulation σ ω) (me : Arming) :
    List (Clause σ) → Simulation σ ω × Except SimError Unit
  | [] => (s, .ok ())
  | clause :: rest =>
      match subscribe B s me clause with
      | (s, .ok _) => subscribeAll B s me rest
      | (s, .error e) => (s, .error e)

end

/-- Arms an always block again. -/
def arm (s : Simulation σ ω) (me : Arming) : Sensitivity → Simulation σ ω × Except SimError Unit
  | .triggers triggers => s.watchAll me triggers
  | .delay ticks => s.wakeAfter me ticks

/-! ## Resuming -/

/-- The report that a waiter failed. -/
def failureReport (name : String) (now : Nat) (e : SimError) : Diagnostic where
  severity := .error
  code := .processFailed
  message := s!"process '{name}' failed"
  time := some now
  notes := [e.report]

/-- Drops a waiter that failed and records the failure. -/
def drop (s : Simulation σ ω) (slot : Nat) (e : SimError) : Simulation σ ω :=
  { s with
    waiters := (s.waiters.remove slot).2
    kernel := s.kernel.emit (failureReport (s.waiters.name slot) s.kernel.now e) }

/-- Takes over a table, and readies the arming that came with it, if there is one. -/
def release (s : Simulation σ ω) : Option Arming × WaiterTable (Body σ) → Simulation σ ω
  | (none, waiters) => { s with waiters }
  | (some caller, waiters) => { s with waiters, ready := s.ready.push caller }

/-- Removes a waiter that completed, and readies whoever it completes. -/
def complete (s : Simulation σ ω) (slot : Nat) : Simulation σ ω :=
  match s.waiters.remove slot with
  | (none, waiters) => s.release (none, waiters)
  | (some (.resume caller), waiters) => s.release (some caller, waiters)
  | (some (.join group), waiters) => s.release (waiters.completeBranch group)

/-- Puts a body back, armed by `armed`; a waiter whose arming is refused is dropped. -/
def rearm (s : Simulation σ ω) (slot : Nat) (body : Body σ)
    (armed : Simulation σ ω → Simulation σ ω × Except SimError Unit) :
    Simulation σ ω × Except SimError Unit :=
  match armed { s with waiters := s.waiters.restore slot body } with
  | (s, .ok _) => (s, .ok ())
  | (s, .error e) => (s.drop slot e, .error e)

/-- The outputs of the bridge. -/
def outputs (s : Simulation σ ω) : List SignalId :=
  match s.link with
  | some l => l.bridge.outputs
  | none => []

/-- Marks the outputs of the bridge as changed and watches them again. -/
def noteOutputs (s : Simulation σ ω) (me : Arming) : Simulation σ ω × Except SimError Unit :=
  let outputs := s.outputs
  let s := { s with link := s.link.map fun (l : Link ω) => { l with changed := true } }
  match s.watchAll me (outputs.map .event) with
  | (s, .ok _) => ({ s with waiters := s.waiters.restore me.slot .outputs }, .ok ())
  | (s, .error e) => (s, .error e)

/-- Runs the body of a waiter that was claimed under the arming `me`. -/
def runBody (B : Behaviours σ ω) (s : Simulation σ ω) (me : Arming) :
    Body σ → Option (Simulation σ ω × Except SimError Unit)
  | .process state =>
      match (B.resume state).run s.kernel s.world with
      | none => none
      | some (.error e, kernel, world) =>
          some ({ s with kernel, world }.drop me.slot e, .error e)
      | some (.ok .done, kernel, world) =>
          some ({ s with kernel, world }.complete me.slot, .ok ())
      | some (.ok (.wait state clause), kernel, world) =>
          some ({ s with kernel, world }.rearm me.slot (.process state)
            fun s => s.subscribe B me clause)
  | .branch none => some (s.complete me.slot, .ok ())
  | .branch (some clause) =>
      some (s.rearm me.slot (.branch none) fun s => s.subscribe B me clause)
  | .shadow shadow =>
      match shadow.resume s.kernel with
      | (kernel, .error e) => some ({ s with kernel }.drop me.slot e, .error e)
      | (kernel, .ok none) => some ({ s with kernel }.complete me.slot, .ok ())
      | (kernel, .ok (some clause)) =>
          some ({ s with kernel }.rearm me.slot (.shadow shadow) fun s => s.subscribe B me clause)
  | .always block false =>
      some (s.rearm me.slot (.always block true) fun s => s.arm me block.sensitivity)
  | .always block true =>
      match (B.react block.body).run s.kernel s.world with
      | none => none
      | some (.error e, kernel, world) =>
          some ({ s with kernel, world }.drop me.slot e, .error e)
      | some (.ok body, kernel, world) =>
          some ({ s with kernel, world }.rearm me.slot (.always { block with body } true)
            fun s => s.arm me block.sensitivity)
  | .outputs => some (s.noteOutputs me)

/-- Notes signals whose wait lists may hold stale entries. -/
def noteStale (s : Simulation σ ω) (signals : List SignalId) : Simulation σ ω :=
  { s with stale := s.stale.insertMany signals }

/-- Resumes the waiter of an arming, unless the arming is stale. -/
def runWaiter (B : Behaviours σ ω) (s : Simulation σ ω) (arming : Arming) :
    Option (Simulation σ ω × Except SimError Unit) :=
  match s.waiters.consume arming with
  | (none, waiters) => some ({ s with waiters }, .ok ())
  | (some (me, body, stale), waiters) =>
      let s : Simulation σ ω := { s with
        waiters
        stats := { s.stats with resumes := s.stats.resumes + 1 } }
      runBody B (s.noteStale stale) me body

/-- Resumes waiters until none is ready, and gives the first error. A failure from before
counts first. A waiter may ready others without end, so the number of resumes is granted
beforehand. -/
def runReady (B : Behaviours σ ω) :
    Nat → Simulation σ ω → Except SimError Unit →
    Except Stuck (Simulation σ ω × Except SimError Unit)
  | 0, s, failure => if s.ready.isEmpty then .ok (s, failure) else .error .outOfFuel
  | fuel + 1, s, failure =>
      match s.ready.pop? with
      | none => .ok (s, failure)
      | some (arming, ready) =>
          match runWaiter B { s with ready } arming with
          | none => .error .undefined
          | some (s, result) => runReady B fuel s (firstError failure result)

/-- Drops the stale entries of the wait lists that may hold some. -/
def purge (s : Simulation σ ω) : Simulation σ ω :=
  let waiters := s.waiters
  let keep (signal : Signal) : Signal :=
    { signal with waits := signal.waits.retain waiters.isLive }
  { s with kernel := s.stale.fold (fun k id => k.modify id keep) s.kernel, stale := {} }

end Simulation

end DeltaCycle
