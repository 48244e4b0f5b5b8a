import DeltaCycle.Proofs.Books

/-!
# What rounds do not look at

Where a simulation stands between runs, whether the hook was told of the start, and the
default duration matter when a run begins and ends. The loop in between neither reads nor
changes them: every transition commutes with replacing all three.
-/

set_option autoImplicit false

namespace DeltaCycle

namespace Simulation

variable {σ ω α : Type}

/-- The parts of a simulation that only the beginning and the end of a run look at. -/
structure Header where
  state : RunState
  hookStarted : Bool
  defaultDuration : Option Nat

/-- The header of a simulation. -/
def header (s : Simulation σ ω) : Header := ⟨s.state, s.hookStarted, s.defaultDuration⟩

/-- The simulation under another header. -/
def withHeader (s : Simulation σ ω) (h : Header) : Simulation σ ω :=
  { s with
    state := h.state
    hookStarted := h.hookStarted
    defaultDuration := h.defaultDuration }

/-- A transition's result under another header. -/
def headed (h : Header) (p : Simulation σ ω × α) : Simulation σ ω × α :=
  (p.1.withHeader h, p.2)

@[simp] theorem withHeader_header (s : Simulation σ ω) : s.withHeader s.header = s := rfl

@[simp] theorem header_withHeader (s : Simulation σ ω) (h : Header) :
    (s.withHeader h).header = h := rfl

@[simp] theorem headed_mk (h : Header) (s : Simulation σ ω) (a : α) :
    headed h (s, a) = (s.withHeader h, a) := rfl

@[simp] theorem kernel_withHeader (s : Simulation σ ω) (h : Header) :
    (s.withHeader h).kernel = s.kernel := rfl

@[simp] theorem waiters_withHeader (s : Simulation σ ω) (h : Header) :
    (s.withHeader h).waiters = s.waiters := rfl

@[simp] theorem ready_withHeader (s : Simulation σ ω) (h : Header) :
    (s.withHeader h).ready = s.ready := rfl

@[simp] theorem queue_withHeader (s : Simulation σ ω) (h : Header) :
    (s.withHeader h).queue = s.queue := rfl

@[simp] theorem world_withHeader (s : Simulation σ ω) (h : Header) :
    (s.withHeader h).world = s.world := rfl

@[simp] theorem openLink?_withHeader (s : Simulation σ ω) (h : Header) :
    (s.withHeader h).openLink? = s.openLink? := rfl

@[simp] theorem after_withHeader (s : Simulation σ ω) (h : Header) (ticks : Nat) :
    (s.withHeader h).after ticks = s.after ticks := rfl

section Committing

variable (s : Simulation σ ω) (h : Header)

theorem report_withHeader (id : SignalId) (old : Value) :
    (s.withHeader h).report id old = headed h (s.report id old) := by
  unfold report
  simp only [withHeader]
  split
  · split <;> rfl
  · rfl

theorem absorb_withHeader (id : SignalId) (commit : Commit) :
    (s.withHeader h).absorb id commit = headed h (s.absorb id commit) := by
  cases commit with
  | unchanged => rfl
  | changed old woken =>
      exact report_withHeader
        { s with
          stats := { s.stats with commits := s.stats.commits + 1 }
          ready := s.ready.append woken } h id old
  | deferred delay value stamp =>
      simp only [absorb, after_withHeader]
      cases s.after delay <;> rfl

theorem step_withHeader (id : SignalId) (f : Signal → Signal × Commit) :
    (s.withHeader h).step id f = headed h (s.step id f) := by
  simp only [step, kernel_withHeader]
  cases s.kernel.signal? id with
  | none => rfl
  | some signal =>
      exact absorb_withHeader
        { s with kernel := s.kernel.modify id fun _ => (f signal).1 } h id (f signal).2

theorem updateAll_withHeader (failure : Except SimError Unit) (ids : List SignalId) :
    (s.withHeader h).updateAll failure ids = headed h (s.updateAll failure ids) := by
  induction ids generalizing s failure with
  | nil => rfl
  | cons id rest ih =>
      simp only [updateAll, step_withHeader, headed]
      exact ih _ _

theorem commitPending_withHeader :
    (s.withHeader h).commitPending = headed h s.commitPending :=
  updateAll_withHeader { s with kernel := { s.kernel with pending := [] } } h _ _

end Committing

section Resuming

variable (s : Simulation σ ω) (h : Header)

theorem unseen_withHeader : Unseen fun s : Simulation σ ω => s.withHeader h where
  now _ := rfl
  known _ _ := rfl
  waiters _ := rfl
  ready _ := rfl
  queue _ := rfl
  setWaiters _ _ := rfl
  setReady _ _ := rfl
  setQueue _ _ := rfl
  enlists _ _ _ := rfl
  emits _ _ := rfl

theorem noteOutputs_withHeader (me : Arming) :
    (s.withHeader h).noteOutputs me = headed h (s.noteOutputs me) := by
  unfold noteOutputs
  simp only [show (s.withHeader h).link = s.link from rfl,
    show (s.withHeader h).outputs = s.outputs from rfl]
  rw [show ({ s.withHeader h with link := s.link.map fun (l : Link ω) => { l with changed := true } } :
    Simulation σ ω) =
      { s with link := s.link.map fun (l : Link ω) => { l with changed := true } }.withHeader h
    from rfl, (unseen_withHeader h).watchAll]
  rcases watchAll _ me _ with ⟨s, _ | _⟩ <;> rfl

theorem runBody_withHeader (B : Behaviours σ ω) (me : Arming) (body : Body σ) :
    runBody B (s.withHeader h) me body = (runBody B s me body).map (headed h) := by
  by_cases bridge : body = .outputs
  · subst bridge
    exact congrArg some (noteOutputs_withHeader s h me)
  · have same : act B (s.withHeader h).kernel (s.withHeader h).world (s.withHeader h).outputs body =
        act B s.kernel s.world s.outputs body := rfl
    rw [runBody_eq_of_ne bridge, runBody_eq_of_ne bridge, same]
    rcases act B s.kernel s.world s.outputs body with _ | ⟨done, kernel, world⟩
    · rfl
    · have settled := (unseen_withHeader h).settle { s with kernel, world } (B := B) rfl me done
      exact congrArg some settled

theorem runWaiter_withHeader (B : Behaviours σ ω) (arming : Arming) :
    runWaiter B (s.withHeader h) arming = (runWaiter B s arming).map (headed h) := by
  simp only [runWaiter, waiters_withHeader]
  rcases s.waiters.consume arming with ⟨_ | ⟨me, body, stale⟩, waiters⟩
  · rfl
  · exact runBody_withHeader
      ({ s with waiters, stats := { s.stats with resumes := s.stats.resumes + 1 } }.noteStale stale)
      h B me body

theorem runReady_withHeader (B : Behaviours σ ω) (fuel : Nat) (failure : Except SimError Unit) :
    runReady B fuel (s.withHeader h) failure = (runReady B fuel s failure).map (headed h) := by
  induction fuel generalizing s failure with
  | zero =>
      by_cases idle : s.ready.isEmpty = true
      · rw [show runReady B 0 s failure = _ from if_pos idle]
        exact if_pos idle
      · rw [show runReady B 0 s failure = _ from if_neg idle]
        exact if_neg idle
  | succ fuel ih =>
      simp only [runReady, ready_withHeader]
      rcases s.ready.pop? with _ | ⟨arming, ready⟩
      · rfl
      · have resumed := runWaiter_withHeader { s with ready } h B arming
        dsimp only
        rw [show ({ s.withHeader h with ready } : Simulation σ ω) = { s with ready }.withHeader h
          from rfl, resumed]
        rcases runWaiter B { s with ready } arming with _ | ⟨s, result⟩
        · rfl
        · exact ih s _

theorem purge_withHeader : (s.withHeader h).purge = s.purge.withHeader h := rfl

end Resuming

section Closing

variable (s : Simulation σ ω) (h : Header)

theorem sendOutputs_withHeader (bridge : Bridge ω) :
    (s.withHeader h).sendOutputs bridge = headed h (s.sendOutputs bridge) := by
  simp only [sendOutputs, kernel_withHeader, world_withHeader]
  rcases bridge.send _ _ s.world with ⟨_, _ | _⟩ <;> rfl

theorem takeIn_withHeader (changed : Bool) (values : List (SignalId × Value)) :
    (s.withHeader h).takeIn changed values = headed h (s.takeIn changed values) := by
  induction values generalizing s changed with
  | nil => rfl
  | cons value rest ih =>
      simp only [takeIn, kernel_withHeader]
      rcases s.kernel.write value.1 value.2 false with ⟨kernel, _ | _⟩
      · rfl
      · exact ih { s with kernel } _

theorem readReply_withHeader (l : Link ω) :
    (s.withHeader h).readReply l = headed h (s.readReply l) := by
  simp only [readReply, changeLink]
  split
  · simp only [kernel_withHeader, world_withHeader]
    rcases l.bridge.receive s.kernel.now s.world with ⟨world, _ | values⟩
    · rfl
    · exact takeIn_withHeader
        { s with link := s.link.map fun l => { l with awaitingReply := false }, world } h _ _
  · rfl

theorem exchange_withHeader : (s.withHeader h).exchange = headed h s.exchange := by
  simp only [exchange, openLink?_withHeader]
  cases s.openLink? with
  | none => rfl
  | some l =>
      simp only [readReply_withHeader]
      rcases s.readReply l with ⟨s, _ | inbound⟩
      · rfl
      · simp only [headed_mk, sendOutputs_withHeader]
        split
        · rcases s.sendOutputs l.bridge with ⟨s, _ | _⟩ <;> rfl
        · rfl

theorem nextDelta_withHeader : (s.withHeader h).nextDelta = headed h s.nextDelta := by
  by_cases limit : s.maxDeltas < s.delta + 1
  · rw [show s.nextDelta = _ from if_pos limit]
    exact if_pos limit
  · rw [show s.nextDelta = _ from if_neg limit]
    exact if_neg limit

theorem moveClock_withHeader (time : Nat) :
    (s.withHeader h).moveClock time = headed h (s.moveClock time) := by
  simp only [moveClock, kernel_withHeader, nextDelta_withHeader]
  split
  · rfl
  · rcases s.nextDelta with ⟨s, _ | _⟩ <;> rfl

theorem fire_withHeader (payload : Payload) :
    (s.withHeader h).fire payload = headed h (s.fire payload) := by
  cases payload with
  | wake arming => rfl
  | apply id value stamp => exact step_withHeader s h id _

theorem drainUpTo_withHeader (count time : Nat) :
    drainUpTo count (s.withHeader h) time = headed h (drainUpTo count s time) := by
  induction count generalizing s with
  | zero => rfl
  | succ count ih =>
      simp only [drainUpTo, queue_withHeader]
      rcases s.queue.popDue time with _ | ⟨payload, queue⟩
      · rfl
      · have fired := fire_withHeader { s with queue } h payload
        dsimp only
        rw [show ({ s.withHeader h with queue } : Simulation σ ω) = { s with queue }.withHeader h
          from rfl, fired]
        rcases fire { s with queue } payload with ⟨s, _ | _⟩
        · rfl
        · exact ih s

theorem advanceTo_withHeader (time : Nat) :
    (s.withHeader h).advanceTo time = headed h (s.advanceTo time) := by
  simp only [advanceTo, moveClock_withHeader]
  rcases s.moveClock time with ⟨s, _ | _⟩
  · rfl
  · simp only [headed_mk, drain, queue_withHeader, drainUpTo_withHeader]
    rcases drainUpTo s.queue.size s time with ⟨s, _ | _⟩
    · rfl
    · simp only [headed_mk, openLink?_withHeader]
      cases s.openLink? with
      | none => rfl
      | some l => exact sendOutputs_withHeader s h l.bridge

theorem goOn_headed (p : Simulation σ ω × Except SimError Unit) :
    goOn (headed h p) = headed h (goOn p) := by
  rcases p with ⟨s, _ | _⟩ <;> rfl

theorem proceed_withHeader (cap : Option Nat) :
    (s.withHeader h).proceed cap = headed h (s.proceed cap) := by
  simp only [proceed, exchange_withHeader]
  rcases s.exchange with ⟨s, _ | exchanged⟩
  · rfl
  · simp only [headed_mk, purge_withHeader, kernel_withHeader, queue_withHeader,
      nextDelta_withHeader, advanceTo_withHeader, goOn_headed]
    split
    · rfl
    · split
      · rfl
      · rcases s.purge.queue.nextTime? with _ | time
        · rfl
        · dsimp only
          rcases cap.filter (· < time) with _ | _ <;> rfl

theorem wrapUp_withHeader (failure : Except SimError Unit) :
    (s.withHeader h).wrapUp failure = headed h (s.wrapUp failure) := by
  simp only [wrapUp, commitPending_withHeader]
  rcases s.commitPending with ⟨s, committed⟩
  simp only [headed_mk, purge_withHeader]
  rcases firstError failure committed with _ | _ <;> rfl

theorem cycle_withHeader (B : Behaviours σ ω) (fuel : Nat) (cap : Option Nat) :
    cycle B fuel (s.withHeader h) cap = (cycle B fuel s cap).map (headed h) := by
  simp only [cycle, commitPending_withHeader]
  rcases s.commitPending with ⟨s, _ | _⟩
  · rfl
  · simp only [headed_mk, runReady_withHeader]
    rcases runReady B fuel s (.ok ()) with _ | ⟨s, failure⟩
    · rfl
    · simp only [Except.map, headed_mk, kernel_withHeader, proceed_withHeader, wrapUp_withHeader]
      rcases failure with _ | _
      · rfl
      · cases s.kernel.stopRequest <;> rfl

/-- The loop takes a header along. -/
theorem loop_withHeader (B : Behaviours σ ω) (fuel : Nat) (cap : Option Nat) :
    loop B fuel (s.withHeader h) cap = (loop B fuel s cap).map (headed h) := by
  induction fuel generalizing s with
  | zero => rfl
  | succ fuel ih =>
      simp only [loop, cycle_withHeader]
      rcases s.cycle B (fuel + 1) cap with _ | ⟨s, _ | _⟩
      · rfl
      · exact ih s
      · rfl

/-- The loop leaves the header as it is. -/
theorem header_of_loop {B : Behaviours σ ω} {fuel : Nat} {s s' : Simulation σ ω}
    {cap : Option Nat} {result : Except SimError Outcome}
    (ran : loop B fuel s cap = .ok (s', result)) : s'.header = s.header := by
  have same := loop_withHeader s s.header B fuel cap
  rw [withHeader_header, ran] at same
  have headed : s' = s'.withHeader s.header := by
    simpa only [Except.map, headed_mk, Except.ok.injEq, Prod.mk.injEq, and_true] using same
  rw [headed, header_withHeader]

end Closing

end Simulation

end DeltaCycle
