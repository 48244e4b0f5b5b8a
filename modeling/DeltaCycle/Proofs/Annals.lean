import DeltaCycle.Proofs.BridgeProtocol
import DeltaCycle.Proofs.Chronicle
import DeltaCycle.Proofs.Horizon
import DeltaCycle.Proofs.Reuse

/-!
# Traces of sessions

A change log that is there from the start tells the history of a whole session: through rounds, at
the ends of ticks, and from run to run, whatever comes of the runs.
-/

set_option autoImplicit false

namespace DeltaCycle

variable {σ ω τ : Type}

namespace Instance

mutual

theorem exists_of_mem_flatten_beside (i : Instance σ ω) {b : Bridge (ω × τ)}
    (listed : .bridge b ∈ (i.beside τ).flatten) : ∃ b' : Bridge ω, b = b'.beside τ := by
  cases i with
  | process state => simp [beside, flatten] at listed
  | always block => simp [beside, flatten] at listed
  | bridge b' =>
      simp only [beside, flatten, List.mem_singleton, bridge.injEq] at listed
      exact ⟨b', listed⟩
  | group members => exact exists_of_mem_flattenAll_beside members listed

/-- All bridges among instances beside a log leave it alone. -/
theorem exists_of_mem_flattenAll_beside (instances : List (Instance σ ω)) {b : Bridge (ω × τ)}
    (listed : .bridge b ∈ flattenAll (besideAll τ instances)) :
    ∃ b' : Bridge ω, b = b'.beside τ := by
  cases instances with
  | nil => cases listed
  | cons i rest =>
      rw [besideAll, flattenAll] at listed
      rcases List.mem_append.mp listed with here | later
      · exact exists_of_mem_flatten_beside i here
      · exact exists_of_mem_flattenAll_beside rest later

end

end Instance

/-- Kernels of one design have the same signals, but for what happened to them. -/
theorem Kernel.exists_of_blueprint {k k' : Kernel} (same : k'.blueprint = k.blueprint)
    {id : SignalId} {s : Signal} (found : k.signal? id = some s) :
    ∃ s', k'.signal? id = some s' ∧ s'.reset = s.reset := by
  have signals : k'.signals.map Signal.reset = k.signals.map Signal.reset :=
    congrArg Kernel.signals same
  have here := congrArg (fun signals : Array Signal => signals[id.index]?) signals
  simp only [Array.getElem?_map] at here
  change (k'.signal? id).map Signal.reset = (k.signal? id).map Signal.reset at here
  rw [found] at here
  exact Option.map_eq_some_iff.mp here

/-- No two signals have the same name. -/
def Kernel.NamesUnique (k : Kernel) : Prop :=
  ∀ id id' s s', k.signal? id = some s → k.signal? id' = some s' → s.name = s'.name → id = id'

/-- Where names are unique, the changes under the name of a signal are its own. -/
theorem Kernel.NamesUnique.filter_name {k k' : Kernel} (unique : k.NamesUnique)
    (same : k'.blueprint = k.blueprint) {changes : List Change} {commits : Nat}
    {ends : Nat → Kernel} (history : k'.Chronicled changes commits ends) {id : SignalId}
    {s : Signal} (found : k.signal? id = some s) (t : Nat) :
    (changes.filter fun c => c.name == s.name && c.time ≤ t) =
      changes.filter fun c => c.signal == id && c.time ≤ t := by
  refine List.filter_congr ?_
  intro c listed
  obtain ⟨other', found', -, called⟩ := history.named c listed
  obtain ⟨other, foundOther, reset⟩ := Kernel.exists_of_blueprint same.symm found'
  have named : c.name = other.name := called.trans (Signal.declared_of_reset reset).1.symm
  have either : c.name = s.name ↔ c.signal = id := by
    constructor
    · intro name
      exact unique c.signal id other s foundOther found (named.symm.trans name)
    · intro here
      rw [here, found] at foundOther
      cases foundOther
      exact named
  have tests : (c.name == s.name) = (c.signal == id) := by
    rw [Bool.eq_iff_iff, beq_iff_eq, beq_iff_eq]
    exact either
  rw [tests]

namespace Simulation

/-! ## The ends of ticks -/

/-- The kernels at the ends of ticks after a cycle: a tick ends where a cycle comes to rest in it and
the clock moves on. -/
def cycleEnds (B : Behaviours σ ω) (fuel : Nat) (s : Simulation σ ω) (cap : Option Nat)
    (ends : Nat → Kernel) : Nat → Kernel :=
  match s.rested? B fuel with
  | none => ends
  | some q => endsAfter q.kernel q.kernel.now (q.leaveTick cap).1.kernel.now ends

/-- The kernels at the ends of ticks after a loop. -/
def loopEnds (B : Behaviours σ ω) :
    Nat → Simulation σ ω → Option Nat → (Nat → Kernel) → Nat → Kernel
  | 0, _, _, ends => ends
  | fuel + 1, s, cap, ends =>
      match s.cycle B (fuel + 1) cap with
      | .ok (s', .again) => loopEnds B fuel s' cap (s.cycleEnds B (fuel + 1) cap ends)
      | _ => s.cycleEnds B (fuel + 1) cap ends

/-- The kernels at the ends of ticks after a run. -/
def runEnds (B : Behaviours σ ω) (fuel : Nat) (s : Simulation σ ω) (duration : Option Nat)
    (ends : Nat → Kernel) : Nat → Kernel :=
  if s.hasEnded then
    ends
  else
    match s.startHook with
    | (_, .error _) => ends
    | (s, .ok _) => loopEnds B fuel s (s.capOf duration) ends

/-- The kernels at the ends of ticks after a call. -/
def answerEnds (B : Behaviours σ ω) (fuel : Nat) (s : Simulation σ ω) (ends : Nat → Kernel) :
    Call → Nat → Kernel
  | .run duration => s.runEnds B fuel duration ends
  | .runToCompletion => { s with defaultDuration := none }.runEnds B fuel none ends

/-- The kernels at the ends of ticks after a session. -/
def playEnds (B : Behaviours σ ω) (fuel : Nat) :
    Simulation σ ω → List (Move ω) → (Nat → Kernel) → Nat → Kernel
  | _, [], ends => ends
  | s, .setHook hook :: moves, ends => (s.setHook hook).playEnds B fuel moves ends
  | s, .setMaxDeltas maxDeltas :: moves, ends =>
      (s.setMaxDeltas maxDeltas).playEnds B fuel moves ends
  | s, .setDefaultDuration defaultDuration :: moves, ends =>
      { s with defaultDuration }.playEnds B fuel moves ends
  | s, .call call :: moves, ends =>
      match s.answer B fuel call with
      | .error _ => ends
      | .ok (s', _) => s'.playEnds B fuel moves (s.answerEnds B fuel ends call)

/-! ## The changes of a session -/

/-- The changes that are committed in a call, in order. -/
def answerCommits (B : Behaviours σ ω) (fuel : Nat) (s : Simulation σ ω) : Call → List Change
  | .run duration => runCommits B fuel s duration
  | .runToCompletion => runCommits B fuel { s with defaultDuration := none } none

/-- The changes that are committed in a session, in order. -/
def playCommits (B : Behaviours σ ω) (fuel : Nat) : Simulation σ ω → List (Move ω) → List Change
  | _, [] => []
  | s, .setHook hook :: moves => (s.setHook hook).playCommits B fuel moves
  | s, .setMaxDeltas maxDeltas :: moves => (s.setMaxDeltas maxDeltas).playCommits B fuel moves
  | s, .setDefaultDuration defaultDuration :: moves =>
      { s with defaultDuration }.playCommits B fuel moves
  | s, .call call :: moves =>
      s.answerCommits B fuel call ++
        match s.answer B fuel call with
        | .error _ => []
        | .ok (s, _) => s.playCommits B fuel moves

section Calls

variable {B : Behaviours σ ω} {s s' : Simulation σ ω} {fuel : Nat} {call : Call}
  {result : Except SimError Outcome}

theorem leads_of_answer (answered : s.answer B fuel call = .ok (s', result)) : Leads B s s' := by
  cases call with
  | run duration => exact .ran .stays answered
  | runToCompletion =>
      have adjusts : s.Adjusts { s with defaultDuration := none } := ⟨_, _, _, _, _, _, rfl⟩
      exact .ran (.adjusted .stays adjusts) answered

theorem InTime.answer (inTime : s.InTime) (answered : s.answer B fuel call = .ok (s', result)) :
    s'.InTime := by
  cases call with
  | run duration => exact inTime.run answered
  | runToCompletion =>
      have uncapped : ({ s with defaultDuration := none } : Simulation σ ω).InTime :=
        inTime.of_same rfl rfl
      exact uncapped.run answered

end Calls

/-! ## Rounds and exchanges -/

section Quiet

variable {B : Behaviours σ ω} {s s' : Simulation σ (ω × τ)}

/-- What a round adds to a log is committed before any waiter is resumed. -/
theorem quiet_runReady (known : s.OutputsKnown) {fuel : Nat} {failure failure' : Except SimError Unit}
    (ran : runReady (B.beside _) fuel s failure = .ok (s', failure')) : s.Quiet s' := by
  obtain ⟨resumes, same⟩ := surroundings_runReady ran
  have links := congrArg (fun x : Surroundings (ω × τ) => x.link.map Link.bridge) same
  have stats := congrArg (fun x : Surroundings (ω × τ) => x.stats.commits) same
  have hooks := congrArg Surroundings.hook same
  constructor
  · exact committed_of_surroundings same
  · exact hooks
  · simp only [surroundings, Option.map_map] at links
    exact links
  · exact note_of_runReady B.spares_beside known ran
  · exact stats

theorem quiet_readReply {l : Link (ω × τ)} (spares : l.bridge.Spares Prod.snd) :
    s.Quiet (s.readReply l).1 := by
  unfold readReply
  split
  · have heard := spares.receive s.kernel.now s.world
    dsimp only [changeLink]
    generalize l.bridge.receive s.kernel.now s.world = received at heard ⊢
    obtain ⟨world, e | values⟩ := received
    · constructor
      · rfl
      · rfl
      · exact Option.map_map ..
      · exact heard
      · rfl
    · obtain ⟨kernel, same, edits⟩ := takeIn_spec
        { s with link := s.link.map fun l => { l with awaitingReply := false }, world } false values
      dsimp only
      rw [same]
      constructor
      · exact edits.committed
      · rfl
      · exact Option.map_map ..
      · exact heard
      · rfl
  · exact .refl s

theorem quiet_sendOutputs {b : Bridge (ω × τ)} (spares : b.Spares Prod.snd) :
    s.Quiet (s.sendOutputs b).1 := by
  have told := spares.send s.kernel.now (snapshot s.kernel b.outputs) s.world
  unfold sendOutputs
  generalize b.send s.kernel.now (snapshot s.kernel b.outputs) s.world = sent at told ⊢
  obtain ⟨world, e | _⟩ := sent
  · exact ⟨rfl, rfl, rfl, told, rfl⟩
  · exact ⟨rfl, rfl, Option.map_map .., told, rfl⟩

theorem quiet_exchange (bridge : ∀ l, s.link = some l → l.bridge.Spares Prod.snd) :
    s.Quiet s.exchange.1 := by
  unfold Simulation.exchange
  cases linked : s.openLink? with
  | none => exact .refl s
  | some l =>
      have spares := bridge l (link_of_openLink? linked)
      have read := s.quiet_readReply spares
      dsimp only
      generalize s.readReply l = result at read ⊢
      obtain ⟨s₁, e | inbound⟩ := result
      · exact read
      · dsimp only at read ⊢
        split
        · have sent := read.trans (quiet_sendOutputs spares)
          generalize s₁.sendOutputs l.bridge = result at sent ⊢
          obtain ⟨s₂, _ | _⟩ := result <;> exact sent
        · exact read

theorem quiet_purge : s.Quiet s.purge := by
  constructor
  · exact committed_purge s
  · rfl
  · rfl
  · rfl
  · rfl

theorem quiet_nextDelta : s.Quiet s.nextDelta.1 := by
  obtain ⟨delta, deltas, next⟩ := nextDelta_spec s
  rw [next]
  exact ⟨rfl, rfl, rfl, rfl, rfl⟩

theorem quiet_closeLink (bridge : ∀ l, s.link = some l → l.bridge.Spares Prod.snd) :
    s.Quiet s.closeLink.1 := by
  unfold closeLink
  cases linked : s.link with
  | none => exact .refl s
  | some l =>
      have closed := (bridge l linked).close s.world
      simp only [Link.close]
      split
      · constructor
        · rfl
        · rfl
        · rw [linked]
        · rfl
        · rfl
      · constructor
        · rfl
        · rfl
        · rw [linked]
          rfl
        · exact closed
        · rfl

end Quiet

variable {B : Behaviours σ ω} {s s' : Simulation σ (ω × List Change)} {ends : Nat → Kernel}

namespace Logged

theorem runReady (logged : s.Logged ends) {fuel : Nat} {failure failure' : Except SimError Unit}
    (ran : runReady (B.beside _) fuel s failure = .ok (s', failure')) : s'.Logged ends :=
  logged.of_quiet (quiet_runReady logged.known ran)

theorem exchange (logged : s.Logged ends) : s.exchange.1.Logged ends :=
  logged.of_quiet (quiet_exchange logged.bridge)

theorem purge (logged : s.Logged ends) : s.purge.Logged ends := logged.of_quiet quiet_purge

theorem wrapUp (logged : s.Logged ends) (failure : Except SimError Unit) :
    (s.wrapUp failure).1.Logged ends := by
  have committed := logged.commitPending.purge
  unfold Simulation.wrapUp
  dsimp only
  split
  · exact committed
  · exact committed.of_quiet ⟨rfl, rfl, rfl, rfl, rfl⟩

/-! ## Ticks -/

/-- Where the clock moves on, a tick ends. -/
theorem tick (logged : s.Logged ends) {now : Nat} (later : s.kernel.now ≤ now)
    (delta deltas timeSteps : Nat) :
    ({ s with
        kernel := { s.kernel with now }
        delta
        stats := { s.stats with deltas, timeSteps } } : Simulation σ (ω × List Change)).Logged
      (endsAfter s.kernel s.kernel.now now ends) := by
  constructor
  · exact logged.hook
  · exact logged.bridge
  · exact logged.known
  · exact logged.chronicled.tick later

theorem moveClock (logged : s.Logged ends) {time : Nat} (later : s.kernel.now ≤ time) :
    (s.moveClock time).1.Logged
      (endsAfter s.kernel s.kernel.now (s.moveClock time).1.kernel.now ends) := by
  have forward : s.kernel.now ≤ (s.moveClock time).1.kernel.now := by
    have kernel := kernel_nextDelta s
    unfold Simulation.moveClock
    split
    · exact later
    · generalize s.nextDelta = result at kernel ⊢
      obtain ⟨s₁, e | _⟩ := result
      · exact Nat.le_of_eq (congrArg Kernel.now kernel).symm
      · exact later
  obtain ⟨now, delta, deltas, timeSteps, moved⟩ := moveClock_spec s time
  rw [moved] at forward ⊢
  exact logged.tick forward delta deltas timeSteps

theorem advanceTo (logged : s.Logged ends) {time : Nat} (later : s.kernel.now ≤ time) :
    (s.advanceTo time).1.Logged
      (endsAfter s.kernel s.kernel.now (s.advanceTo time).1.kernel.now ends) := by
  have moved := logged.moveClock later
  unfold Simulation.advanceTo
  generalize s.moveClock time = result at moved ⊢
  obtain ⟨s₁, e | _⟩ := result
  · exact moved
  · have drained := moved.drainUpTo s₁.queue.size time
    have now := now_drainUpTo s₁ s₁.queue.size time
    dsimp only [drain] at drained ⊢
    rw [← now] at drained
    generalize Simulation.drainUpTo s₁.queue.size s₁ time = result at drained ⊢
    obtain ⟨s₂, e | _⟩ := result
    · exact drained
    · dsimp only at drained ⊢
      cases linked : s₂.openLink? with
      | none => exact drained
      | some l =>
          have sent := drained.of_quiet
            (quiet_sendOutputs (drained.bridge l (link_of_openLink? linked)))
          rw [← now_sendOutputs s₂ l.bridge] at sent
          exact sent

theorem leaveTick (logged : s.Logged ends) (ahead : ∀ e ∈ s.queue.toList, s.kernel.now ≤ e.time)
    {cap : Option Nat} (capped : ∀ limit ∈ cap, s.kernel.now ≤ limit) :
    (s.leaveTick cap).1.Logged
      (endsAfter s.kernel s.kernel.now (s.leaveTick cap).1.kernel.now ends) := by
  have stays : s.Logged (endsAfter s.kernel s.kernel.now s.kernel.now ends) := by
    rw [endsAfter_of_le (Nat.le_refl _)]
    exact logged
  refine leaveTick_induction
    (P := fun _ t => t.Logged (endsAfter s.kernel s.kernel.now t.kernel.now ends)) stays
    (fun limit _ _ present _ =>
      logged.tick (capped limit present) 0 s.stats.deltas s.stats.timeSteps)
    fun time next _ => ?_
  obtain ⟨e, listed, rfl⟩ := EventQueue.exists_of_nextTime? next
  exact logged.advanceTo (ahead e listed)

theorem rested (logged : s.Logged ends) {fuel : Nat} {q : Simulation σ (ω × List Change)}
    (rested : s.rested? (B.beside _) fuel = some q) : q.Logged ends := by
  obtain ⟨m, s₁, committed, ran, -, settles⟩ := round_of_rested rested
  have begun := logged.commitPending
  rw [committed] at begun
  have exchanges := (begun.runReady ran).exchange
  have way := way_of_proceed s₁
  rw [settles] at way
  cases way with
  | settled exchanged pending proceeds =>
      rw [exchanged] at exchanges
      exact exchanges.purge

/-- A cycle that does not come to rest ends no tick. -/
theorem unrested (logged : s.Logged ends) {fuel : Nat} {cap : Option Nat} {verdict : Verdict}
    (unrested : s.rested? (B.beside _) fuel = none)
    (turned : s.cycle (B.beside _) fuel cap = .ok (s', verdict)) : s'.Logged ends := by
  have begun := logged.commitPending
  cases way_of_cycle turned with
  | refused committed =>
      rw [committed] at begun
      exact begun
  | @proceeded m s₁ _ committed ran running went =>
      rw [committed] at begun
      have exchanges := (begun.runReady ran).exchange
      have way := way_of_proceed s₁
      rw [← rested?_of_round committed ran running, unrested] at way
      cases way with
      | failed exchanged proceeds =>
          rw [exchanged] at exchanges
          cases (proceeds cap).symm.trans went
          exact exchanges
      | entered exchanged proceeds =>
          rw [exchanged] at exchanges
          have entered := exchanges.purge.of_quiet quiet_nextDelta
          rw [← fst_goOn, ← proceeds cap, went] at entered
          exact entered
  | @wrapped m s₁ failure _ committed ran stops wraps =>
      rw [committed] at begun
      have after := (begun.runReady ran).wrapUp failure
      rw [wraps] at after
      exact after

/-! ## Runs -/

theorem cycle (logged : s.Logged ends) (reached : Reached (B.beside _) s) {fuel : Nat}
    {cap : Option Nat} (capped : ∀ limit ∈ cap, s.kernel.now ≤ limit) {verdict : Verdict}
    (turned : s.cycle (B.beside _) fuel cap = .ok (s', verdict)) :
    s'.Logged (s.cycleEnds (B.beside _) fuel cap ends) := by
  unfold cycleEnds
  cases rests : s.rested? (B.beside _) fuel with
  | none => exact logged.unrested rests turned
  | some q =>
      obtain ⟨-, now, leaves⟩ := cycle_of_rested rests
      have left := Except.ok.inj ((leaves cap).symm.trans turned)
      rw [← now] at capped
      have after := (logged.rested rests).leaveTick (reached.rested rests).ahead capped
      rw [left] at after
      dsimp only
      rw [left]
      exact after

theorem loop (logged : s.Logged ends) (reached : Reached (B.beside _) s) {fuel : Nat}
    {cap : Option Nat} (capped : ∀ limit ∈ cap, s.kernel.now ≤ limit)
    {result : Except SimError Outcome}
    (looped : loop (B.beside _) fuel s cap = .ok (s', result)) :
    s'.Logged (loopEnds (B.beside _) fuel s cap ends) := by
  replace looped := way_of_loop looped
  induction looped generalizing ends with
  | ended turned =>
      rw [loopEnds, turned]
      exact logged.cycle reached capped turned
  | again turned further ih =>
      rw [loopEnds, turned]
      -- The clock has not passed the cap, since a cycle that goes on moves it to an event before that.
      refine ih (logged.cycle reached capped turned) (reached.cycled turned) ?_
      intro limit present
      have before := capped limit present
      rw [Option.mem_def.mp present] at turned
      exact le_cap_of_cycle before turned

theorem startHook (logged : s.Logged ends) : s.startHook.1.Logged ends := by
  unfold Simulation.startHook
  split
  · exact logged
  · dsimp only
    rw [logged.hook]
    exact logged.of_quiet ⟨rfl, logged.hook.symm, rfl, rfl, rfl⟩

theorem shutdown (logged : s.Logged ends) : s.shutdown.1.Logged ends := by
  have closed := logged.of_quiet (quiet_closeLink logged.bridge)
  unfold Simulation.shutdown
  generalize s.closeLink = result at closed ⊢
  obtain ⟨s₁, e | _⟩ := result
  · exact closed
  · dsimp only at closed ⊢
    rw [closed.hook]
    exact closed.of_quiet ⟨rfl, closed.hook.symm, rfl, rfl, rfl⟩

theorem conclude (logged : s.Logged ends) (result : Except SimError Outcome) :
    (s.conclude result).1.Logged ends := by
  have shuts (state : RunState) :
      ({ s with state } : Simulation σ (ω × List Change)).shutdown.1.Logged ends := by
    have stated : ({ s with state } : Simulation σ (ω × List Change)).Logged ends :=
      logged.of_quiet ⟨rfl, rfl, rfl, rfl, rfl⟩
    exact stated.shutdown
  unfold Simulation.conclude
  split
  · exact logged.of_quiet ⟨rfl, rfl, rfl, rfl, rfl⟩
  · have shut := shuts .finished
    generalize Simulation.shutdown { s with state := .finished } = result at shut ⊢
    obtain ⟨s₁, _ | _⟩ := result <;> exact shut
  · exact shuts .failed

theorem run (logged : s.Logged ends) (reached : Reached (B.beside _) s) (inTime : s.InTime)
    {fuel : Nat} {duration : Option Nat} {result : Except SimError Outcome}
    (ran : run (B.beside _) fuel s duration = .ok (s', result)) :
    s'.Logged (s.runEnds (B.beside _) fuel duration ends) := by
  unfold runEnds
  have begun := logged.startHook
  have inTime' := inTime.of_office s.office_startHook
  have reached' : Reached (B.beside _) s.startHook.1 := .adjusted reached s.adjusts_startHook
  cases way_of_run ran with
  | terminated ended =>
      rw [if_pos ended]
      exact logged
  | untold running started =>
      rw [if_neg (Bool.eq_false_iff.mp running), started]
      rw [started] at begun
      exact begun
  | @played s₁ s₂ _ final _ running started looped concluded =>
      rw [if_neg (Bool.eq_false_iff.mp running), started]
      rw [started] at begun inTime' reached'
      have concludes := (begun.loop reached' (inTime'.le_capOf duration) looped).conclude final
      rw [concluded] at concludes
      exact concludes

theorem answer (logged : s.Logged ends) (reached : Reached (B.beside _) s) (inTime : s.InTime)
    {fuel : Nat} {call : Call} {result : Except SimError Outcome}
    (answered : s.answer (B.beside _) fuel call = .ok (s', result)) :
    Leads (B.beside _) s s' ∧ s'.InTime ∧ s'.Logged (s.answerEnds (B.beside _) fuel ends call) := by
  refine ⟨leads_of_answer answered, inTime.answer answered, ?_⟩
  cases call with
  | run duration => exact logged.run reached inTime answered
  | runToCompletion =>
      have adjusts : s.Adjusts { s with defaultDuration := none } := ⟨_, _, _, _, _, _, rfl⟩
      have logged' : ({ s with defaultDuration := none } :
          Simulation σ (ω × List Change)).Logged ends := logged.of_quiet ⟨rfl, rfl, rfl, rfl, rfl⟩
      exact logged'.run (.adjusted reached adjusts) (inTime.of_same rfl rfl) answered

/-- In a session that keeps its change log, the log stays faithful. -/
theorem play (logged : s.Logged ends) (reached : Reached (B.beside _) s) (inTime : s.InTime)
    {fuel : Nat} {moves : List (Move (ω × List Change))} {results : List (Except SimError Outcome)}
    (kept : ∀ hook, .setHook hook ∉ moves)
    (played : s.play (B.beside _) fuel moves = .ok (s', results)) :
    Leads (B.beside _) s s' ∧ s'.Logged (s.playEnds (B.beside _) fuel moves ends) := by
  induction moves generalizing s ends results with
  | nil =>
      cases played
      exact ⟨.stays, logged⟩
  | cons move moves ih =>
      have later : ∀ hook, .setHook hook ∉ moves := fun hook listed =>
        kept hook (List.mem_cons_of_mem _ listed)
      cases move with
      | setHook hook => exact absurd List.mem_cons_self (kept hook)
      | setMaxDeltas maxDeltas =>
          have adjusts : s.Adjusts (s.setMaxDeltas maxDeltas) := ⟨_, _, _, _, _, _, rfl⟩
          have logged' : (s.setMaxDeltas maxDeltas).Logged ends :=
            logged.of_quiet ⟨rfl, rfl, rfl, rfl, rfl⟩
          obtain ⟨leads, log⟩ := ih logged' (.adjusted reached adjusts) (inTime.of_same rfl rfl)
            later played
          exact ⟨leads.after (.adjusted .stays adjusts), log⟩
      | setDefaultDuration defaultDuration =>
          have adjusts : s.Adjusts { s with defaultDuration } := ⟨_, _, _, _, _, _, rfl⟩
          have logged' : ({ s with defaultDuration } :
              Simulation σ (ω × List Change)).Logged ends :=
            logged.of_quiet ⟨rfl, rfl, rfl, rfl, rfl⟩
          obtain ⟨leads, log⟩ := ih logged' (.adjusted reached adjusts) (inTime.of_same rfl rfl)
            later played
          exact ⟨leads.after (.adjusted .stays adjusts), log⟩
      | call call =>
          obtain ⟨s₁, result, results', answered, others, -⟩ := play_call played
          obtain ⟨leads, inTime', logged'⟩ := logged.answer reached inTime answered
          obtain ⟨leads', log⟩ := ih logged' (leads.reached reached) inTime' later others
          rw [playEnds, answered]
          exact ⟨leads'.after leads, log⟩

end Logged

/-! ## Beginnings -/

/-- Bridges that were built beside a log leave it alone. -/
theorem spares_of_build {s : Simulation σ (ω × τ)} {kernel : Kernel}
    {instances : List (Instance σ ω)} {w : ω × τ}
    (built : build (B.beside τ) kernel (Instance.besideAll τ instances) w = .ok s) :
    ∀ l, s.link = some l → l.bridge.Spares Prod.snd := by
  intro l linked
  obtain ⟨-, -, link⟩ := outside_of_build built
  rcases link with unlinked | ⟨bridge, listed, linked'⟩
  · rw [unlinked] at linked
    cases linked
  · rw [linked'] at linked
    cases linked
    obtain ⟨b, rfl⟩ := Instance.exists_of_mem_flattenAll_beside instances listed
    exact b.spares_beside

/-- A session that begins with a change log begins with an empty one. -/
theorem logged_of_build {kernel : Kernel} {instances : List (Instance σ ω)} {world : ω}
    (made : kernel.Made)
    (built : build (B.beside _) kernel (Instance.besideAll _ instances) (world, []) = .ok s)
    (ends : Nat → Kernel) : (s.setHook .changeLog).Logged ends ∧ (s.setHook .changeLog).InTime := by
  obtain ⟨start, -, -⟩ := outside_of_build built
  have desk := desk_build built
  have kernel' : s.kernel = kernel := congrArg Desk.kernel desk
  have atStart := made.sound.atStart
  constructor
  · constructor
    · rfl
    · have spares := spares_of_build built
      exact spares
    · have known : (s.setHook .changeLog).OutputsKnown := fun id output => known_build built id output
      exact known
    · have commits : s.stats.commits = 0 := congrArg RunStats.commits (adds_build built).stats
      have log : s.world.2.reverse = [] := by
        rw [start]
        rfl
      simp only [setHook, kernel', commits, log]
      exact .start atStart ends
  · exact (inTime_of_build made built).of_same rfl rfl

/-- Traces are faithful. Where a change log is installed before the first call of a session, and
whatever comes of the calls, the changes in the log are in the order of time. Those of a traced signal
lead from its initial value to its committed one, each from what the one before left to something
else, and if names are unique they tell its value at the end of each tick that has passed. If all
signals are traced, there are as many as were committed. -/
theorem the_trace_is_a_faithful_history {kernel : Kernel} {instances : List (Instance σ ω)}
    {world : ω} {fuel : Nat} {moves : List (Move (ω × List Change))}
    {results : List (Except SimError Outcome)} (made : kernel.Made)
    (built : build (B.beside _) kernel (Instance.besideAll _ instances) (world, []) = .ok s)
    (kept : ∀ hook, .setHook hook ∉ moves)
    (played : (s.setHook .changeLog).play (B.beside _) fuel moves = .ok (s', results)) :
    (s'.world.2.reverse.Pairwise fun c later => c.time ≤ later.time) ∧
      (∀ id signal, kernel.signal? id = some signal → signal.traced = true →
        ∃ val, s'.kernel.val? id = some val ∧
          Change.Chain signal.init (s'.world.2.reverse.filter fun c => c.signal == id) val ∧
          (kernel.NamesUnique → ∀ t < s'.kernel.now,
            ((s.setHook .changeLog).playEnds (B.beside _) fuel moves (fun _ => kernel) t).val? id =
              some (Change.valueAt s'.world.2.reverse signal.name signal.init t))) ∧
      ((∀ id signal, kernel.signal? id = some signal → signal.traced = true) →
        s'.world.2.reverse.length = s'.stats.commits) := by
  obtain ⟨logged, inTime⟩ := logged_of_build made built fun _ => kernel
  have adjusts : s.Adjusts (s.setHook .changeLog) := ⟨_, _, _, _, _, _, rfl⟩
  have reached : Reached (B.beside _) s := .built made built
  obtain ⟨leads, log⟩ := logged.play (.adjusted reached adjusts) inTime kept played
  have start : s.kernel = kernel := congrArg Desk.kernel (desk_build built)
  have same : s'.kernel.blueprint = kernel.blueprint := by
    rw [leads.blueprint (.adjusted reached adjusts), ← start]
    rfl
  have history := log.chronicled
  refine ⟨history.ordered, ?_, ?_⟩
  · intro id signal found traced
    obtain ⟨signal', found', reset⟩ := Kernel.exists_of_blueprint same found
    obtain ⟨-, init, sameTraced⟩ := Signal.declared_of_reset reset
    have traced' := sameTraced.trans traced
    refine ⟨signal'.val, ?_, ?_, ?_⟩
    · rw [Kernel.val?, found']
      rfl
    · rw [← init]
      exact history.chain id signal' found' traced'
    · intro unique t before
      have value := history.past t before id signal' found' traced'
      rw [init, ← unique.filter_name same history found t] at value
      exact value
  · intro all
    refine history.counted ?_
    intro id signal' found'
    obtain ⟨signal, found, reset⟩ := Kernel.exists_of_blueprint same.symm found'
    obtain ⟨-, -, sameTraced⟩ := Signal.declared_of_reset reset
    exact sameTraced.symm.trans (all id signal found)

/-- A process that counts its delays in the total. -/
def metronome : Behaviours Int Unit where
  name _ := "metronome"
  resume beats := (Activity.setNext ⟨0⟩ (.int beats)).bind fun _ =>
    .done (.wait (beats + 1) (.delay 3))
  react beats := .done beats

/-- A simulation of a metronome. -/
def musicRoom : Simulation Int (Unit × List Change) :=
  ({ kernel := ledger, world := ((), []) } : Simulation Int (Unit × List Change)).addWaiter
    "metronome" (.process 1) none

/-- Whether a run for four ticks leaves these changes and as many commits. -/
def ticksInTrace (changes : List Change) (s : Simulation Int (Unit × List Change)) : Bool :=
  match s.play (metronome.beside _) 9 [.call (.run (some 4))] with
  | .ok (s, _) =>
      decide (s.world.2.reverse = changes ∧ s.kernel.now = 4 ∧ s.stats.commits = changes.length)
  | .error _ => false

/-- The metronome beats at the start and at the third tick, and its trace tells so. -/
theorem a_metronome_is_traced :
    ∃ s results, (musicRoom.setHook .changeLog).play (metronome.beside _) 9
        [.call (.run (some 4))] = .ok (s, results) ∧
      s.world.2.reverse =
        [⟨0, ⟨0⟩, "total", .int 0, .int 1⟩, ⟨3, ⟨0⟩, "total", .int 1, .int 2⟩] ∧
      Change.Chain (.int 0) (s.world.2.reverse.filter fun c => c.signal == ⟨0⟩) (.int 2) ∧
      s.stats.commits = 2 ∧
      ∀ t < 4, ((musicRoom.setHook .changeLog).playEnds (metronome.beside _) 9
          [.call (.run (some 4))] (fun _ => ledger) t).val? ⟨0⟩ =
        some (if t < 3 then .int 1 else .int 2) := by
  have made : ledger.Made := .signal .empty "total" (.int 0) none
  have built : build (metronome.beside _) ledger (Instance.besideAll _ [.process 1]) ((), []) =
    .ok musicRoom := rfl
  have kept : ∀ hook : Hook (Unit × List Change),
      .setHook hook ∉ ([.call (.run (some 4))] : List (Move (Unit × List Change))) := by
    intro hook listed
    cases List.mem_singleton.mp listed
  have only (id : SignalId) (signal : Signal) (found : ledger.signal? id = some signal) :
      id = ⟨0⟩ := by
    obtain ⟨_ | index⟩ := id
    · rfl
    · cases found
  have unique : ledger.NamesUnique := by
    intro id id' signal signal' found found' _
    rw [only id signal found, only id' signal' found']
  have ticks : ticksInTrace
      [⟨0, ⟨0⟩, "total", .int 0, .int 1⟩, ⟨3, ⟨0⟩, "total", .int 1, .int 2⟩]
      (musicRoom.setHook .changeLog) = true := by
    decide +kernel
  unfold ticksInTrace at ticks
  split at ticks
  · next s results played =>
      obtain ⟨changes, now, commits⟩ := of_decide_eq_true ticks
      obtain ⟨-, signals, -⟩ := the_trace_is_a_faithful_history made built kept played
      obtain ⟨val, committed, chain, ends⟩ :=
        signals ⟨0⟩ (.ofInit "total" (.int 0) none) rfl rfl
      have last : val = .int 2 := by
        have told := chain.leave_eq
        rw [changes] at told
        exact told.symm
      subst last
      refine ⟨s, results, played, changes, chain, commits, ?_⟩
      intro t before
      rw [ends unique t (now ▸ before), changes]
      interval_cases t <;> rfl
  · cases ticks

end Simulation

end DeltaCycle
