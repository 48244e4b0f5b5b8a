import DeltaCycle.Proofs.Annals

/-!
# The audience

What a hook is told of. Every call that is made on it can be written down, as on a tapped bridge. A
hook that is there from the start is told of the traced signals, then of each change that is
committed of one of them, and last of the end.
-/

set_option autoImplicit false

namespace DeltaCycle

variable {σ ω : Type}

/-- A call that is made on a hook. -/
inductive HookCall where
  | start (traced : List Traced)
  | change (c : Change)
  | finish
deriving Repr, DecidableEq

/-- The hook, with a record of the calls made on it in a second part of the world. -/
def Hook.tapped (h : Hook ω) : Hook (ω × List HookCall) where
  start := fun traced (w, log) => Bridge.onFirst (h.start traced) (w, log ++ [.start traced])
  change := fun c (w, log) => Bridge.onFirst (h.change c) (w, log ++ [.change c])
  finish := fun (w, log) => Bridge.onFirst h.finish (w, log ++ [.finish])

/-! ## Traced signals -/

namespace Kernel

/-- Whether there is a traced signal behind a handle. -/
def traces (k : Kernel) (id : SignalId) : Bool := (k.signal? id).any (·.traced)

/-- What a hook is told of changes, if it is told of those of traced signals alone. -/
def told (k : Kernel) (changes : List Change) : List HookCall :=
  (changes.filter fun c => k.traces c.signal).map .change

theorem append_told_nil (k : Kernel) (calls : List HookCall) : calls ++ k.told [] = calls :=
  List.append_nil calls

theorem told_singleton (k : Kernel) (c : Change) :
    k.told [c] = if k.traces c.signal then [.change c] else [] := by
  rw [told, List.filter_singleton]
  cases k.traces c.signal <;> rfl

theorem told_append (k : Kernel) (changes later : List Change) :
    k.told (changes ++ later) = k.told changes ++ k.told later := by
  simp only [told, List.filter_append, List.map_append]

variable {k k' : Kernel}

/-- A transition that keeps the design of a signal keeps that of all of them. -/
theorem resets_modify {id : SignalId} {s s' : Signal} (found : k.signal? id = some s)
    (kept : s'.reset = s.reset) :
    (k.modify id fun _ => s').signals.map Signal.reset = k.signals.map Signal.reset := by
  refine Array.ext_getElem? fun index => ?_
  simp only [modify, Array.getElem?_map, Array.getElem?_modify]
  split
  · next same =>
      have here : k.signals[index]? = some s := by
        rw [← same]
        exact found
      rw [here]
      exact congrArg some kept
  · rfl

theorem resets_of_committed (same : k'.committed = k.committed) :
    k'.signals.map Signal.reset = k.signals.map Signal.reset := by
  have signals := congrArg (fun k : Kernel => k.signals.map Signal.reset) same
  simp only [committed_signals, Array.map_map] at signals
  exact signals

theorem traces_of_resets (same : k'.signals.map Signal.reset = k.signals.map Signal.reset)
    (id : SignalId) : k'.traces id = k.traces id := by
  have here := congrArg (fun signals : Array Signal => signals[id.index]?.any (·.traced)) same
  simp only [Array.getElem?_map, Option.any_map] at here
  exact here

theorem signal_tracedSignals (k : Kernel) :
    (Simulation.tracedSignals k).map Traced.signal = k.ids.filter k.traces := by
  unfold Simulation.tracedSignals
  generalize k.ids = ids
  induction ids with
  | nil => rfl
  | cons id rest ih =>
      cases found : k.signal? id with
      | none =>
          have untraced : ¬k.traces id = true := by
            simp only [traces, found, Option.any_none, Bool.false_eq_true, not_false_eq_true]
          rw [List.filter_cons_of_neg untraced, List.filterMap_cons_none (by simp only [found])]
          exact ih
      | some s =>
          have same : k.traces id = s.traced := by
            rw [traces, found]
            rfl
          cases traced : s.traced with
          | false =>
              have untraced : ¬k.traces id = true := by
                simp only [same, traced, Bool.false_eq_true, not_false_eq_true]
              rw [List.filter_cons_of_neg untraced,
                List.filterMap_cons_none (by simp only [found, traced]; rfl)]
              exact ih
          | true =>
              rw [List.filter_cons_of_pos (by simp only [same, traced]),
                List.filterMap_cons_some (by simp only [found, traced, if_true]; rfl)]
              exact congrArg (id :: ·) ih

end Kernel

/-- Whether a signal of a kernel is traced under settings: the settings decide by its name if they
enable the trace, and else its own mark does. -/
def Config.traces (config : Config) (k : Kernel) (id : SignalId) : Bool :=
  (k.signal? id).any fun s =>
    if config.trace.enabled then config.trace.includes s.name else s.traced

namespace Simulation

/-- A hook keeps a record of the calls made on it, in which nobody else writes, and these are the
calls so far. The design has the same traced signals as it was built with. -/
structure Listening (k : Kernel) (h : Hook ω) (calls : List HookCall)
    (s : Simulation σ (ω × List HookCall)) : Prop where
  hook : s.hook = some h.tapped
  bridge : ∀ l, s.link = some l → l.bridge.Spares Prod.snd
  known : s.OutputsKnown
  resets : s.kernel.signals.map Signal.reset = k.signals.map Signal.reset
  calls : s.world.2 = calls

namespace Listening

variable {B : Behaviours σ ω} {k : Kernel} {h : Hook ω} {calls : List HookCall}
  {s s' : Simulation σ (ω × List HookCall)}

theorem of_quiet (listening : s.Listening k h calls) (quiet : Quiet s s') :
    s'.Listening k h calls := by
  constructor
  · exact quiet.hook.trans listening.hook
  · exact quiet.keeps_spares listening.bridge
  · exact quiet.keeps_known listening.known
  · exact (Kernel.resets_of_committed quiet.committed).trans listening.resets
  · exact quiet.noted.trans listening.calls

/-! ## Commits -/

theorem step (listening : s.Listening k h calls) (id : SignalId) {f : Signal → Signal × Commit}
    (honest : Signal.Honest f) :
    (s.step id f).1.Listening k h (calls ++ k.told (s.changeOf? id f).toList) := by
  unfold Simulation.step changeOf?
  cases found : s.kernel.signal? id with
  | none =>
      rw [Option.toList_none, Kernel.append_told_nil]
      exact listening
  | some signal =>
      have design := honest.design signal
      dsimp only
      generalize f signal = turned at design ⊢
      obtain ⟨signal', commit⟩ := turned
      dsimp only at design ⊢
      have resets := (Kernel.resets_modify found design).trans listening.resets
      have known : ({ s with kernel := s.kernel.modify id fun _ => signal' } :
          Simulation σ (ω × List HookCall)).OutputsKnown := by
        refine listening.known.of_frame ?_
        simp only [frame, Kernel.modify, Array.size_modify]
      have turned : Listening k h calls
          { s with kernel := s.kernel.modify id fun _ => signal' } :=
        ⟨listening.hook, listening.bridge, known, resets, listening.calls⟩
      cases commit with
      | unchanged =>
          rw [Option.toList_none, Kernel.append_told_nil]
          exact turned
      | deferred delay value stamp =>
          rw [Option.toList_none, Kernel.append_told_nil]
          simp only [Simulation.absorb]
          split
          · exact turned
          · exact turned.of_quiet ⟨rfl, rfl, rfl, rfl, rfl⟩
      | changed old woken =>
          have here : (s.kernel.modify id fun _ => signal').signal? id = some signal' := by
            rw [Kernel.signal?_modify, if_pos rfl, found]
            rfl
          -- No transition touches the mark, so that the signal has the mark of the design.
          have traces : k.traces id = signal'.traced := by
            rw [← Kernel.traces_of_resets resets, Kernel.traces, here]
            rfl
          rw [Option.toList_some, Kernel.told_singleton]
          dsimp only
          rw [traces]
          unfold Simulation.absorb report
          simp only [listening.hook, here]
          by_cases traced : signal'.traced = true
          · rw [if_pos traced, if_pos traced]
            exact ⟨rfl, listening.bridge, known, resets, congrArg (· ++ [_]) listening.calls⟩
          · rw [if_neg traced, if_neg traced, List.append_nil]
            exact ⟨rfl, listening.bridge, known, resets, listening.calls⟩

theorem updateAll (listening : s.Listening k h calls) (failure : Except SimError Unit)
    (ids : List SignalId) :
    (s.updateAll failure ids).1.Listening k h (calls ++ k.told (s.updates ids)) := by
  induction ids generalizing s calls failure with
  | nil =>
      rw [updates, Kernel.append_told_nil]
      exact listening
  | cons id rest ih =>
      rw [updates, Kernel.told_append, ← List.append_assoc]
      exact ih (listening.step id Signal.honest_update) _

theorem commitPending (listening : s.Listening k h calls) :
    s.commitPending.1.Listening k h (calls ++ k.told s.commits) := by
  have unmarked : Listening k h calls { s with kernel := { s.kernel with pending := [] } } :=
    listening.of_quiet ⟨rfl, rfl, rfl, rfl, rfl⟩
  exact unmarked.updateAll _ _

theorem fire (listening : s.Listening k h calls) (payload : Payload) :
    (s.fire payload).1.Listening k h (calls ++ k.told (s.changeOfPayload? payload).toList) := by
  cases payload with
  | wake a =>
      rw [changeOfPayload?, Option.toList_none, Kernel.append_told_nil]
      exact listening.of_quiet ⟨rfl, rfl, rfl, rfl, rfl⟩
  | apply id value stamp => exact listening.step id (Signal.honest_applyDeferred value stamp)

theorem drainUpTo (listening : s.Listening k h calls) (count time : Nat) :
    (drainUpTo count s time).1.Listening k h (calls ++ k.told (s.drained count time)) := by
  induction count generalizing s calls with
  | zero =>
      rw [drained, Kernel.append_told_nil]
      exact listening
  | succ count ih =>
      rw [Simulation.drainUpTo, drained]
      cases s.queue.popDue time with
      | none =>
          rw [Kernel.append_told_nil]
          exact listening
      | some due =>
          obtain ⟨payload, queue⟩ := due
          have popped : Listening k h calls { s with queue } :=
            listening.of_quiet ⟨rfl, rfl, rfl, rfl, rfl⟩
          have fired := popped.fire payload
          dsimp only
          rw [Kernel.told_append, ← List.append_assoc]
          generalize Simulation.fire { s with queue } payload = result at fired ⊢
          obtain ⟨s₁, e | _⟩ := result
          · rw [Kernel.append_told_nil]
            exact fired
          · exact ih fired

/-! ## Ticks and cycles -/

theorem moveClock (listening : s.Listening k h calls) (time : Nat) :
    (s.moveClock time).1.Listening k h calls := by
  obtain ⟨now, delta, deltas, timeSteps, moved⟩ := s.moveClock_spec time
  rw [moved]
  exact ⟨listening.hook, listening.bridge, listening.known, listening.resets, listening.calls⟩

theorem advanceTo (listening : s.Listening k h calls) (time : Nat) :
    (s.advanceTo time).1.Listening k h (calls ++ k.told (s.arrived time)) := by
  have moved := listening.moveClock time
  unfold Simulation.advanceTo arrived
  generalize s.moveClock time = result at moved ⊢
  obtain ⟨s₁, e | _⟩ := result
  · rw [Kernel.append_told_nil]
    exact moved
  · have drained := moved.drainUpTo s₁.queue.size time
    dsimp only [drain]
    generalize Simulation.drainUpTo s₁.queue.size s₁ time = result at drained ⊢
    obtain ⟨s₂, e | _⟩ := result
    · exact drained
    · dsimp only at drained ⊢
      cases linked : s₂.openLink? with
      | none => exact drained
      | some l =>
          exact drained.of_quiet
            (quiet_sendOutputs (drained.bridge l (link_of_openLink? linked)))

theorem leaveTick (listening : s.Listening k h calls) (cap : Option Nat) :
    (s.leaveTick cap).1.Listening k h (calls ++ k.told (s.departures cap)) := by
  rw [departures_eq]
  refine leaveTick_induction
    (P := fun onward t => t.Listening k h (calls ++ k.told (onward.elim [] s.arrived))) ?_
    (fun _ _ _ _ _ => ?_) fun time _ _ => listening.advanceTo time
  · rw [Option.elim_none, Kernel.append_told_nil]
    exact listening
  · rw [Option.elim_none, Kernel.append_told_nil]
    exact ⟨listening.hook, listening.bridge, listening.known, listening.resets, listening.calls⟩

theorem rounded (listening : s.Listening k h calls) {fuel : Nat} {failure : Except SimError Unit}
    (rounded : s.rounded? (B.beside _) fuel = some (s', failure)) :
    s'.Listening k h (calls ++ k.told s.commits) := by
  obtain ⟨m, committed, ran⟩ := rounded?_eq_some_iff.mp rounded
  have begun := listening.commitPending
  rw [committed] at begun
  exact begun.of_quiet (quiet_runReady begun.known ran)

theorem settled (listening : s.Listening k h calls) {q : Simulation σ (ω × List HookCall)}
    (settles : s.settled? = some q) : q.Listening k h calls := by
  have exchanges := listening.of_quiet (quiet_exchange listening.bridge)
  have way := way_of_proceed s
  rw [settles] at way
  cases way with
  | settled exchanged pending proceeds =>
      rw [exchanged] at exchanges
      exact exchanges.of_quiet quiet_purge

theorem unsettled (listening : s.Listening k h calls) (unsettled : s.settled? = none)
    (cap : Option Nat) : (s.proceed cap).1.Listening k h calls := by
  have exchanges := listening.of_quiet (quiet_exchange listening.bridge)
  have way := way_of_proceed s
  rw [unsettled] at way
  cases way with
  | failed exchanged proceeds =>
      rw [exchanged] at exchanges
      rw [proceeds]
      exact exchanges
  | entered exchanged proceeds =>
      rw [exchanged] at exchanges
      rw [proceeds, fst_goOn]
      exact (exchanges.of_quiet quiet_purge).of_quiet quiet_nextDelta

theorem wrapUp (listening : s.Listening k h calls) (failure : Except SimError Unit) :
    (s.wrapUp failure).1.Listening k h (calls ++ k.told s.commits) := by
  have purged := listening.commitPending.of_quiet quiet_purge
  obtain ⟨stopRequest, same⟩ := s.wrapUp_eq failure
  rw [same]
  exact ⟨purged.hook, purged.bridge, purged.known, purged.resets, purged.calls⟩

theorem cycle (listening : s.Listening k h calls) {fuel : Nat} {cap : Option Nat}
    {verdict : Verdict} (turned : s.cycle (B.beside _) fuel cap = .ok (s', verdict)) :
    s'.Listening k h (calls ++ k.told (s.cycleCommits (B.beside _) fuel cap)) := by
  have way := commitWay_of_cycle turned
  generalize s.cycleCommits (B.beside _) fuel cap = commits at way
  cases way with
  | refused committed =>
      have told := listening.commitPending
      rwa [committed] at told
  | @wrapped s₁ failure rounded ends =>
      have told := (listening.rounded rounded).wrapUp failure
      rwa [ends, List.append_assoc, ← Kernel.told_append] at told
  | stayed rounded unsettled went =>
      have told := (listening.rounded rounded).unsettled unsettled cap
      rwa [went] at told
  | left rounded settles left =>
      have told := ((listening.rounded rounded).settled settles).leaveTick cap
      rwa [left, List.append_assoc, ← Kernel.told_append] at told

theorem loop (listening : s.Listening k h calls) {fuel : Nat} {cap : Option Nat}
    {result : Except SimError Outcome}
    (looped : loop (B.beside _) fuel s cap = .ok (s', result)) :
    s'.Listening k h (calls ++ k.told (loopCommits (B.beside _) fuel s cap)) := by
  replace looped := way_of_loop looped
  induction looped generalizing calls with
  | ended turned =>
      rw [loopCommits, turned, List.append_nil]
      exact listening.cycle turned
  | again turned further ih =>
      rw [loopCommits, turned, Kernel.told_append, ← List.append_assoc]
      exact ih (listening.cycle turned)

/-- The start is told to the hook with all traced signals. -/
theorem startHook (listening : s.Listening k h calls) (untold : s.hookStarted = false) :
    ∃ listed, listed.map Traced.signal = k.ids.filter k.traces ∧
      s.startHook.1.Listening k h (calls ++ [.start listed]) := by
  refine ⟨tracedSignals s.kernel, ?_, ?_⟩
  · have size := congrArg Array.size listening.resets
    simp only [Array.size_map] at size
    have ids : s.kernel.ids = k.ids := congrArg (fun n => (List.range n).map SignalId.mk) size
    rw [Kernel.signal_tracedSignals, ids]
    exact List.filter_congr fun id _ => Kernel.traces_of_resets listening.resets id
  · unfold Simulation.startHook
    rw [untold]
    simp only [Bool.false_eq_true, if_false, listening.hook]
    refine ⟨rfl, listening.bridge, listening.known, listening.resets, ?_⟩
    exact congrArg (· ++ [_]) listening.calls

/-- At most the end is told once a run is over. -/
theorem shutdown (listening : s.Listening k h calls) :
    ∃ ending, (ending = [] ∨ ending = [.finish]) ∧
      s.shutdown.1.Listening k h (calls ++ ending) := by
  have closed := listening.of_quiet (quiet_closeLink listening.bridge)
  unfold Simulation.shutdown
  generalize s.closeLink = result at closed ⊢
  obtain ⟨s₁, e | _⟩ := result
  · refine ⟨[], .inl rfl, ?_⟩
    rw [List.append_nil]
    exact closed
  · refine ⟨[.finish], .inr rfl, ?_⟩
    dsimp only at closed ⊢
    rw [closed.hook]
    refine ⟨rfl, closed.bridge, closed.known, closed.resets, ?_⟩
    exact congrArg (· ++ [_]) closed.calls

/-- The end is told only if the simulation has ended. -/
theorem conclude (listening : s.Listening k h calls) (result : Except SimError Outcome) :
    ∃ ending, (ending = [] ∨ ending = [.finish] ∧ (s.conclude result).1.hasEnded = true) ∧
      (s.conclude result).1.Listening k h (calls ++ ending) := by
  have shuts (state : RunState) : ∃ ending, (ending = [] ∨ ending = [.finish]) ∧
      ({ s with state } : Simulation σ (ω × List HookCall)).shutdown.1.Listening k h
        (calls ++ ending) := by
    have stated : ({ s with state } : Simulation σ (ω × List HookCall)).Listening k h calls :=
      listening.of_quiet ⟨rfl, rfl, rfl, rfl, rfl⟩
    exact stated.shutdown
  by_cases goesOn : result = .ok .suspended
  · subst goesOn
    refine ⟨[], .inl rfl, ?_⟩
    rw [List.append_nil]
    exact listening.of_quiet ⟨rfl, rfl, rfl, rfl, rfl⟩
  · have ended := s.ended_conclude goesOn
    suffices told : ∃ ending, (ending = [] ∨ ending = [.finish]) ∧
        (s.conclude result).1.Listening k h (calls ++ ending) by
      obtain ⟨ending, few, listens⟩ := told
      exact ⟨ending, few.imp_right fun finish => ⟨finish, ended⟩, listens⟩
    unfold Simulation.conclude
    split
    · exact absurd rfl goesOn
    · have shut := shuts .finished
      generalize Simulation.shutdown { s with state := .finished } = down at shut ⊢
      obtain ⟨s₁, _ | _⟩ := down <;> exact shut
    · exact shuts .failed

end Listening

/-! ## Sessions -/

section Sessions

variable {B : Behaviours σ ω} {k : Kernel} {h : Hook ω} {committed : List Change}
  {s s' : Simulation σ (ω × List HookCall)}

/-- A hook was told of the traced signals, then of the committed changes of these, and maybe of the
end. -/
inductive Heard (k : Kernel) (h : Hook ω) (committed : List Change)
    (s : Simulation σ (ω × List HookCall)) : Prop where
  | begun {listed : List Traced} (names : listed.map Traced.signal = k.ids.filter k.traces)
      (started : s.hookStarted = true)
      (listening : s.Listening k h ([.start listed] ++ k.told committed))
  | finished {listed : List Traced} (names : listed.map Traced.signal = k.ids.filter k.traces)
      (ended : s.hasEnded = true)
      (listening : s.Listening k h ([.start listed] ++ k.told committed ++ [.finish]))

theorem hookStarted_of_loop {fuel : Nat} {s s' : Simulation σ ω} {cap : Option Nat}
    {B : Behaviours σ ω} {result : Except SimError Outcome}
    (looped : loop B fuel s cap = .ok (s', result)) : s'.hookStarted = s.hookStarted :=
  congrArg Header.hookStarted (header_of_loop looped)

theorem Listening.heard_of_loop (committed : List Change) {listed : List Traced}
    (names : listed.map Traced.signal = k.ids.filter k.traces)
    (listening : s.Listening k h ([.start listed] ++ k.told committed))
    (started : s.hookStarted = true) {fuel : Nat} {cap : Option Nat}
    {final : Except SimError Outcome}
    (looped : Simulation.loop (B.beside _) fuel s cap = .ok (s', final)) :
    (s'.conclude final).1.Heard k h (committed ++ loopCommits (B.beside _) fuel s cap) := by
  have listens := listening.loop looped
  rw [List.append_assoc, ← Kernel.told_append] at listens
  obtain ⟨ending, few, told⟩ := listens.conclude final
  rcases few with rfl | ⟨rfl, ended⟩
  · rw [List.append_nil] at told
    refine .begun names ?_ told
    obtain ⟨state, link, world, same⟩ := s'.conclude_eq final
    rw [same]
    exact (hookStarted_of_loop looped).trans started
  · exact .finished names ended told

/-- The first run tells the hook of the start. -/
theorem Listening.heard_of_run (listening : s.Listening k h []) (untold : s.hookStarted = false)
    (running : s.hasEnded = false) {fuel : Nat} {duration : Option Nat}
    {result : Except SimError Outcome}
    (ran : run (B.beside _) fuel s duration = .ok (s', result)) :
    s'.Heard k h (runCommits (B.beside _) fuel s duration) := by
  obtain ⟨listed, names, listens⟩ := listening.startHook untold
  unfold runCommits
  rw [running]
  cases way_of_run ran with
  | terminated ended => cases running.symm.trans ended
  | untold _ started =>
      rw [started] at listens ⊢
      exact .begun names (startHook_eq started).2 listens
  | played _ started looped concluded =>
      rw [started] at listens ⊢
      have heard := Listening.heard_of_loop [] names listens
        (startHook_eq started).2 looped
      rw [concluded] at heard
      exact heard

theorem Heard.run (heard : s.Heard k h committed) {fuel : Nat} {duration : Option Nat}
    {result : Except SimError Outcome}
    (ran : Simulation.run (B.beside _) fuel s duration = .ok (s', result)) :
    s'.Heard k h (committed ++ runCommits (B.beside _) fuel s duration) := by
  unfold runCommits
  cases way_of_run ran with
  | terminated ended =>
      rw [if_pos ended, List.append_nil]
      exact heard
  | untold running started =>
      cases heard with
      | begun names already listening =>
          simp only [Simulation.startHook, already, if_true] at started
          cases started
      | finished names ended listening => cases running.symm.trans ended
  | played running started looped concluded =>
      cases heard with
      | begun names already listening =>
          rw [running, started]
          simp only [Simulation.startHook, already, if_true] at started
          cases started
          have heard := listening.heard_of_loop _ names already looped
          rw [concluded] at heard
          exact heard
      | finished names ended listening => cases running.symm.trans ended

theorem Heard.of_same (heard : s.Heard k h committed) {maxDeltas : Nat}
    {defaultDuration : Option Nat} :
    ({ s with maxDeltas, defaultDuration } : Simulation σ (ω × List HookCall)).Heard k h
      committed := by
  cases heard with
  | begun names started listening =>
      exact .begun names started (listening.of_quiet ⟨rfl, rfl, rfl, rfl, rfl⟩)
  | finished names ended listening =>
      exact .finished names ended (listening.of_quiet ⟨rfl, rfl, rfl, rfl, rfl⟩)

theorem Heard.play (heard : s.Heard k h committed) {fuel : Nat}
    {moves : List (Move (ω × List HookCall))} {results : List (Except SimError Outcome)}
    (kept : ∀ hook, .setHook hook ∉ moves)
    (played : s.play (B.beside _) fuel moves = .ok (s', results)) :
    s'.Heard k h (committed ++ s.playCommits (B.beside _) fuel moves) := by
  induction moves generalizing s committed results with
  | nil =>
      cases played
      rw [playCommits, List.append_nil]
      exact heard
  | cons move moves ih =>
      have later : ∀ hook, .setHook hook ∉ moves := fun hook listed =>
        kept hook (List.mem_cons_of_mem _ listed)
      cases move with
      | setHook hook => exact absurd List.mem_cons_self (kept hook)
      | setMaxDeltas maxDeltas => exact ih heard.of_same later played
      | setDefaultDuration defaultDuration => exact ih heard.of_same later played
      | call call =>
          obtain ⟨s₁, result, results', answered, others, -⟩ := play_call played
          have heard₁ : s₁.Heard k h (committed ++ s.answerCommits (B.beside _) fuel call) := by
            cases call with
            | run duration => exact heard.run answered
            | runToCompletion => exact heard.of_same.run answered
          rw [playCommits, answered, ← List.append_assoc]
          exact ih heard₁ later others

/-- Until the first call, nothing is told; from then on, the hook is heard. -/
theorem Listening.play (listening : s.Listening k h []) (untold : s.hookStarted = false)
    (running : s.hasEnded = false) {fuel : Nat} {moves : List (Move (ω × List HookCall))}
    {results : List (Except SimError Outcome)} (kept : ∀ hook, .setHook hook ∉ moves)
    (played : s.play (B.beside _) fuel moves = .ok (s', results)) :
    ((∀ call, .call call ∉ moves) ∧ s'.world.2 = []) ∨
      s'.Heard k h (s.playCommits (B.beside _) fuel moves) := by
  induction moves generalizing s results with
  | nil =>
      cases played
      exact .inl ⟨fun _ => List.not_mem_nil, listening.calls⟩
  | cons move moves ih =>
      have later : ∀ hook, .setHook hook ∉ moves := fun hook listed =>
        kept hook (List.mem_cons_of_mem _ listed)
      have further {move : Move (ω × List HookCall)} {heard : Prop}
          (other : ∀ call, move ≠ .call call)
          (after : ((∀ call, .call call ∉ moves) ∧ s'.world.2 = []) ∨ heard) :
          ((∀ call, .call call ∉ move :: moves) ∧ s'.world.2 = []) ∨ heard := by
        refine after.imp_left fun ⟨uncalled, silent⟩ => ⟨?_, silent⟩
        intro call listed
        rcases List.mem_cons.mp listed with same | rest
        · exact other call same.symm
        · exact uncalled call rest
      cases move with
      | setHook hook => exact absurd List.mem_cons_self (kept hook)
      | setMaxDeltas maxDeltas =>
          exact further (fun _ => nofun)
            (ih (listening.of_quiet ⟨rfl, rfl, rfl, rfl, rfl⟩) untold running later played)
      | setDefaultDuration defaultDuration =>
          exact further (fun _ => nofun)
            (ih (listening.of_quiet ⟨rfl, rfl, rfl, rfl, rfl⟩) untold running later played)
      | call call =>
          obtain ⟨s₁, result, results', answered, others, -⟩ := play_call played
          have heard : s₁.Heard k h (s.answerCommits (B.beside _) fuel call) := by
            cases call with
            | run duration => exact listening.heard_of_run untold running answered
            | runToCompletion =>
                have uncapped : ({ s with defaultDuration := none } :
                    Simulation σ (ω × List HookCall)).Listening k h [] :=
                  listening.of_quiet ⟨rfl, rfl, rfl, rfl, rfl⟩
                exact uncapped.heard_of_run untold running answered
          rw [playCommits, answered]
          exact .inr (heard.play later others)

end Sessions

/-! ## Settings -/

theorem ids_configure (k : Kernel) (config : Config) : (configure k config).ids = k.ids := by
  unfold configure Kernel.ids Kernel.size
  dsimp only
  split
  · exact congrArg (fun n => (List.range n).map SignalId.mk) Array.size_map
  · rfl

theorem traces_configure (k : Kernel) (config : Config) (id : SignalId) :
    (configure k config).traces id = config.traces k id := by
  unfold configure Kernel.traces Config.traces
  dsimp only
  split
  · simp only [Kernel.signal?, Array.getElem?_map, Option.any_map]
  · rfl

variable {B : Behaviours σ ω} {s s' : Simulation σ (ω × List HookCall)}

/-- A simulation that was built with settings has the kernel that they configure, and nobody was
told of anything. -/
theorem listening_of_buildWith {config : Config} {kernel : Kernel}
    {instances : List (Instance σ ω)} {world : ω} (hook : Hook ω)
    (built : buildWith (B.beside _) config kernel (Instance.besideAll _ instances) (world, []) =
      .ok s) :
    (s.setHook hook.tapped).Listening (configure kernel config) hook [] ∧ s.hasEnded = false := by
  unfold buildWith at built
  split at built
  · cases built
  · next s₁ plain =>
      cases built
      have ready : s₁.state = .ready := (adds_build plain).state
      have kernel : s₁.kernel = configure kernel config := congrArg Desk.kernel (desk_build plain)
      have start : s₁.world = (world, []) := (outside_of_build plain).1
      constructor
      · constructor
        · rfl
        · have spares := spares_of_build plain
          exact spares
        · exact fun id output => known_build plain id output
        · exact congrArg (fun k : Kernel => k.signals.map Signal.reset) kernel
        · exact congrArg Prod.snd start
      · simp only [hasEnded, ready]

/-- The settings decide what is traced, and where they do not enable the trace, the marks of the
signals do. A hook that is installed before the first call of a session is told of nothing until
then. It is then told of the signals that are traced, once, and then of exactly the committed changes
of these, in order, and of nothing but the end after them. -/
theorem the_hook_is_told_of_what_is_traced {config : Config} {kernel : Kernel}
    {instances : List (Instance σ ω)} {world : ω} {fuel : Nat} {hook : Hook ω}
    {moves : List (Move (ω × List HookCall))} {results : List (Except SimError Outcome)}
    (built : buildWith (B.beside _) config kernel (Instance.besideAll _ instances) (world, []) =
      .ok s)
    (kept : ∀ hook, .setHook hook ∉ moves)
    (played : (s.setHook hook.tapped).play (B.beside _) fuel moves = .ok (s', results)) :
    ((∀ call, .call call ∉ moves) ∧ s'.world.2 = []) ∨
      ∃ listed ending, s'.world.2 = .start listed ::
          (((s.setHook hook.tapped).playCommits (B.beside _) fuel moves).filter fun c =>
            config.traces kernel c.signal).map .change ++ ending ∧
        listed.map Traced.signal = kernel.ids.filter (config.traces kernel) ∧
        (ending = [] ∨ ending = [.finish]) := by
  obtain ⟨listening, running⟩ := listening_of_buildWith hook built
  have traces : (configure kernel config).traces = config.traces kernel :=
    funext (traces_configure kernel config)
  refine (listening.play rfl running kept played).imp_right fun heard => ?_
  cases heard with
  | @begun listed names started listening =>
      rw [traces, ids_configure] at names
      refine ⟨listed, [], ?_, names, .inl rfl⟩
      rw [listening.calls, Kernel.told, traces, List.append_nil]
      rfl
  | @finished listed names ended listening =>
      rw [traces, ids_configure] at names
      refine ⟨listed, [.finish], ?_, names, .inr rfl⟩
      rw [listening.calls, Kernel.told, traces]
      rfl

/-- A ledger with a second column. -/
def columns : Kernel := (ledger.declare "count" (.int 0) none).2

/-- A process that fills both columns. -/
def tally : Behaviours Unit Unit where
  name _ := "tally"
  resume _ := (Activity.setNext ⟨0⟩ (.int 7)).bind fun _ =>
    (Activity.setNext ⟨1⟩ (.int 2)).bind fun _ => .done .done
  react body := .done body

/-- A hook that ignores what it is told. -/
def idleHook : Hook Unit := .recording fun _ w => w

/-- What the hook is told of the tally under settings. -/
def heardUnder (config : Config) : Option (List HookCall) :=
  match buildWith (tally.beside _) config columns (Instance.besideAll _ [.process ()]) ((), []) with
  | .error _ => none
  | .ok s =>
      match (s.setHook idleHook.tapped).play (tally.beside _) 9 [.call (.run (some 1))] with
      | .error _ => none
      | .ok (s, _) => some s.world.2

theorem exists_of_heardUnder {config : Config} {calls : List HookCall}
    (heard : heardUnder config = some calls) :
    ∃ s s' results,
      buildWith (tally.beside _) config columns (Instance.besideAll _ [.process ()]) ((), []) =
        .ok s ∧
      (s.setHook idleHook.tapped).play (tally.beside _) 9 [.call (.run (some 1))] =
        .ok (s', results) ∧
      s'.world.2 = calls := by
  unfold heardUnder at heard
  split at heard
  · cases heard
  · next s built =>
      split at heard
      · cases heard
      · next s' results played => exact ⟨s, s', results, built, played, Option.some.inj heard⟩

/-- Settings that trace the second column. -/
def countsOnly : Config := { trace := { enabled := true, signals := ["count"] } }

/-- Of the two columns, the settings trace the second one: what is committed of it is told, and the
other is not listed. -/
theorem the_second_column_is_traced :
    ∃ s s' results,
      buildWith (tally.beside _) countsOnly columns (Instance.besideAll _ [.process ()])
        ((), []) = .ok s ∧
      (s.setHook idleHook.tapped).play (tally.beside _) 9 [.call (.run (some 1))] =
        .ok (s', results) ∧
      s'.world.2 = [.start [⟨⟨1⟩, "count", .int 0⟩], .change ⟨0, ⟨1⟩, "count", .int 0, .int 2⟩,
        .finish] ∧
      (((s.setHook idleHook.tapped).playCommits (tally.beside _) 9
        [.call (.run (some 1))]).filter fun c => countsOnly.traces columns c.signal) =
        [⟨0, ⟨1⟩, "count", .int 0, .int 2⟩] := by
  have hears : heardUnder countsOnly = some [.start [⟨⟨1⟩, "count", .int 0⟩],
      .change ⟨0, ⟨1⟩, "count", .int 0, .int 2⟩, .finish] := by
    decide +kernel
  have kept : ∀ hook : Hook (Unit × List HookCall),
      .setHook hook ∉ ([.call (.run (some 1))] : List (Move (Unit × List HookCall))) := by
    intro hook listed
    cases List.mem_singleton.mp listed
  obtain ⟨s, s', results, built, played, heard⟩ := exists_of_heardUnder hears
  refine ⟨s, s', results, built, played, heard, ?_⟩
  rcases the_hook_is_told_of_what_is_traced built kept played with ⟨uncalled, -⟩ | told
  · exact absurd List.mem_cons_self (uncalled (.run (some 1)))
  · obtain ⟨listed, ending, record, -, few⟩ := told
    generalize List.filter _ _ = changes at record ⊢
    have rest : changes.map HookCall.change ++ ending =
        [.change ⟨0, ⟨1⟩, "count", .int 0, .int 2⟩, .finish] :=
      (List.cons.inj (record.symm.trans heard)).2
    rcases few with rfl | rfl
    · have last : HookCall.finish ∈ changes.map HookCall.change ++ [] := by
        rw [rest]
        exact .tail _ (.head _)
      rw [List.append_nil, List.mem_map] at last
      obtain ⟨c, -, same⟩ := last
      cases same
    · have told : changes.map HookCall.change ++ [.finish] =
          [.change ⟨0, ⟨1⟩, "count", .int 0, .int 2⟩] ++ [.finish] := rest
      have one : changes.map HookCall.change =
          [(⟨0, ⟨1⟩, "count", .int 0, .int 2⟩ : Change)].map .change :=
        List.append_cancel_right told
      exact List.map_injective_iff.mpr (fun _ _ => HookCall.change.inj) one

/-- Under the default settings, which are valid and trace no signal whatever its name, the hook is
told of the changes of all of them. -/
theorem both_columns_are_told_of_without_a_trace :
    ({} : Config).fault? = none ∧ (∀ name, ({} : Config).trace.includes name = false) ∧
    ∃ s s' results,
      buildWith (tally.beside _) {} columns (Instance.besideAll _ [.process ()]) ((), []) =
        .ok s ∧
      (s.setHook idleHook.tapped).play (tally.beside _) 9 [.call (.run (some 1))] =
        .ok (s', results) ∧
      s'.world.2 = [.start [⟨⟨0⟩, "total", .int 0⟩, ⟨⟨1⟩, "count", .int 0⟩],
        .change ⟨0, ⟨0⟩, "total", .int 0, .int 7⟩, .change ⟨0, ⟨1⟩, "count", .int 0, .int 2⟩,
        .finish] := by
  have hears : heardUnder {} = some [.start [⟨⟨0⟩, "total", .int 0⟩, ⟨⟨1⟩, "count", .int 0⟩],
      .change ⟨0, ⟨0⟩, "total", .int 0, .int 7⟩, .change ⟨0, ⟨1⟩, "count", .int 0, .int 2⟩,
      .finish] := by
    decide +kernel
  exact ⟨rfl, fun _ => rfl, exists_of_heardUnder hears⟩

end Simulation

end DeltaCycle
