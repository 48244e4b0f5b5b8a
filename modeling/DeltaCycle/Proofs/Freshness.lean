import DeltaCycle.Proofs.BridgeProtocol
import DeltaCycle.Proofs.Postings

/-!
# An engine that is up to date

Before the clock moves, and before a run stops with nothing left to do, the engine has the values of
all outputs, and what it replied was committed unless something else was written since.
-/

set_option autoImplicit false

namespace DeltaCycle

variable {σ ω : Type}

/-- The values that were sent last. -/
def lastSent (calls : List BridgeCall) : Option (List (SignalId × Value)) :=
  (calls.filterMap fun
    | .send _ values => some values
    | _ => none).getLast?

theorem lastSent_close (calls : List BridgeCall) :
    lastSent (calls ++ [.close]) = lastSent calls := by
  rw [lastSent, List.filterMap_append]
  exact congrArg List.getLast? (List.append_nil _)

theorem lastSent_exchange (calls : List BridgeCall) (time time' : Nat)
    (values : List (SignalId × Value)) :
    lastSent (calls ++ [.send time values, .receive time']) = some values := by
  rw [lastSent, List.filterMap_append]
  exact List.getLast?_concat ..

namespace Simulation

variable {B : Behaviours σ ω}

/-- The engine is up to date, and so are the signals that it drives: the values that were sent last
are those that the outputs have, and every value that was received is the one that its signal has,
as that represents it, unless a later one was written or the signal has a delay. -/
structure Fresh (s : Simulation σ (ω × List BridgeCall)) (log : List Posting) : Prop where
  sent : ∀ l, s.link = some l →
    lastSent s.world.2 = some (snapshot s.kernel l.bridge.outputs)
  honored : ∀ before id value after, log = before ++ .received id value :: after →
    ∀ signal, s.kernel.signal? id = some signal → signal.inertia = none →
      (∃ later ∈ after, later.signal = id) ∨
        ∃ v, signal.kind.coerce value = .ok v ∧ signal.val.same v = true

/-- Simulations of tapped instances that have not ended, between the calls of a session and between
the cycles of a call, with all that was posted so far. -/
inductive Underway (B : Behaviours σ ω) :
    Simulation σ (ω × List BridgeCall) → List Posting → Prop where
  | built {kernel : Kernel} {instances : List (Instance σ ω)} {world : ω}
      {s : Simulation σ (ω × List BridgeCall)} (made : kernel.Made)
      (built : build (B.beside _) kernel (Instance.tappedAll instances) (world, []) = .ok s) :
      Underway B s []
  | hooked {s : Simulation σ (ω × List BridgeCall)} {log : List Posting}
      (underway : Underway B s log) (hook : Hook ω) : Underway B (s.setHook (hook.beside _)) log
  | tuned {s : Simulation σ (ω × List BridgeCall)} {log : List Posting} (underway : Underway B s log)
      (maxDeltas : Nat) (defaultDuration : Option Nat) :
      Underway B { s with maxDeltas, defaultDuration } log
  | begun {s : Simulation σ (ω × List BridgeCall)} {log : List Posting}
      (underway : Underway B s log) : Underway B s.startHook.1 log
  | cycled {s s' : Simulation σ (ω × List BridgeCall)} {log : List Posting} {fuel : Nat}
      {cap : Option Nat} (underway : Underway B s log)
      (turned : s.cycle (B.beside _) fuel cap = .ok (s', .again)) :
      Underway B s' (log ++ s.cyclePostings (B.beside _) fuel)
  | suspended {s s' : Simulation σ (ω × List BridgeCall)} {log : List Posting} {fuel : Nat}
      {cap : Option Nat} (underway : Underway B s log)
      (turned : s.cycle (B.beside _) fuel cap = .ok (s', .ended (.ok .suspended))) :
      Underway B { s' with state := .suspended } (log ++ s.cyclePostings (B.beside _) fuel)

/-! ## The bridge stays open -/

/-- There is no bridge, or it is open and listened to. -/
def Bound (s : Simulation σ (ω × List BridgeCall)) : Prop :=
  (s.link = none ∧ s.Mute Prod.snd) ∨ ∃ ledger r, Attuned Prod.snd ledger s r

theorem Bound.proper {s : Simulation σ (ω × List BridgeCall)} (bound : s.Bound) :
    s.Proper Prod.snd :=
  bound.imp_left And.right

theorem Bound.of_wiring {s s' : Simulation σ (ω × List BridgeCall)} (bound : s.Bound)
    (same : s'.wiring Prod.snd = s.wiring Prod.snd) (waiters : s'.waiters = s.waiters)
    (ready : s'.ready = s.ready) (queue : s'.queue = s.queue) (kernel : s'.kernel = s.kernel) :
    s'.Bound := by
  have links : s'.link = s.link := congrArg (fun wires => wires.2.1) same
  rcases bound with ⟨unlinked, mute⟩ | ⟨ledger, r, attuned⟩
  · left
    refine ⟨links.trans unlinked, mute.of_wiring ?_ same⟩
    rw [OutputsKnown, kernel, outputs, links]
    exact mute.known
  · exact .inr ⟨ledger, r, attuned.of_wiring same waiters ready queue kernel⟩

/-- Where there is no bridge, there never is one. -/
theorem unlinked_cycle {B : Behaviours σ ω} {s s' : Simulation σ ω} {fuel : Nat} {cap : Option Nat}
    {verdict : Verdict} (unlinked : s.link = none)
    (turned : s.cycle B fuel cap = .ok (s', verdict)) : s'.link = none := by
  have none_of_frame {s s' : Simulation σ ω} (unlinked : s.link = none)
      (same : s'.frame = s.frame) : s'.link = none := by
    have bridges := congrArg Prod.fst same
    change s'.link.map _ = s.link.map _ at bridges
    rw [unlinked] at bridges
    exact Option.map_eq_none_iff.mp bridges
  have commits {s : Simulation σ ω} (unlinked : s.link = none) : s.commitPending.1.link = none :=
    none_of_frame unlinked (frame_updateAll _ _ _)
  have rounds {m s₁ : Simulation σ ω} {failure : Except SimError Unit} (unlinked : m.link = none)
      (ran : runReady B fuel m (.ok ()) = .ok (s₁, failure)) : s₁.link = none := by
    obtain ⟨resumes, same⟩ := surroundings_runReady ran
    have links := congrArg Surroundings.link same
    change s₁.link.map _ = m.link.map _ at links
    rw [unlinked] at links
    exact Option.map_eq_none_iff.mp links
  have begun := commits unlinked
  cases way_of_cycle turned with
  | refused committed =>
      rw [committed] at begun
      exact begun
  | @proceeded m s₁ _ committed ran running went =>
      rw [committed] at begun
      have proceeds := none_of_frame (rounds begun ran) (frame_proceed s₁ cap)
      rw [went] at proceeds
      exact proceeds
  | @wrapped m s₁ failure _ committed ran stops ends =>
      rw [committed] at begun
      have after := none_of_frame (commits (rounds begun ran)) (frame_purge _)
      obtain ⟨stopRequest, same⟩ := s₁.wrapUp_eq failure
      rw [ends] at same
      rw [show s' = _ from same]
      exact after

theorem Bound.cycle {s s' : Simulation σ (ω × List BridgeCall)} (bound : s.Bound) {fuel : Nat}
    {cap : Option Nat} {verdict : Verdict}
    (turned : s.cycle (B.beside _) fuel cap = .ok (s', verdict))
    (goes : verdict = .again ∨ verdict = .ended (.ok .suspended)) : s'.Bound := by
  rcases bound with ⟨unlinked, mute⟩ | ⟨ledger, r, attuned⟩
  · exact .inl ⟨unlinked_cycle unlinked turned, mute.cycle B.spares_beside turned⟩
  · exact .inr ((attuned.cycle B.spares_beside turned).2 goes)

theorem bound_of_build {kernel : Kernel} {instances : List (Instance σ ω)} {world : ω}
    {s : Simulation σ (ω × List BridgeCall)} (made : kernel.Made)
    (built : build (B.beside _) kernel (Instance.tappedAll instances) (world, []) = .ok s) :
    s.Bound := by
  obtain ⟨-, -, link⟩ := outside_of_build built
  rcases proper_of_build made built with mute | attuned
  · rcases link with unlinked | ⟨bridge, -, linked⟩
    · exact .inl ⟨unlinked, mute⟩
    · have unlinked := mute.unlinked
      rw [openLink?, linked] at unlinked
      cases unlinked
  · exact .inr attuned

namespace Underway

variable {s : Simulation σ (ω × List BridgeCall)} {log : List Posting}

theorem reached (underway : Underway B s log) : Reached (B.beside _) s := by
  induction underway with
  | built made built => exact .built made built
  | hooked _ hook ih => exact .adjusted ih ⟨_, _, _, _, _, _, rfl⟩
  | tuned _ maxDeltas defaultDuration ih => exact .adjusted ih ⟨_, _, _, _, _, _, rfl⟩
  | begun _ ih => exact .adjusted ih (adjusts_startHook _)
  | cycled _ turned ih => exact .cycled ih turned
  | suspended _ turned ih => exact .adjusted (.cycled ih turned) ⟨_, _, _, _, _, _, rfl⟩

theorem heeds (underway : Underway B s log) : s.kernel.Heeds log := by
  induction underway with
  | built made built => exact .nothing _
  | hooked _ hook ih => exact ih
  | tuned _ maxDeltas defaultDuration ih => exact ih
  | @begun s log underway ih =>
      rw [kernel_of_office s.office_startHook]
      exact ih
  | cycled underway turned ih => exact heeds_cycle underway.reached.staffed ih turned (.inl rfl)
  | suspended underway turned ih =>
      have heeds := heeds_cycle underway.reached.staffed ih turned (.inr (.inl rfl))
      exact heeds

theorem bound (underway : Underway B s log) : s.Bound := by
  induction underway with
  | built made built => exact bound_of_build made built
  | @hooked s log _ hook ih =>
      have discreet : (s.setHook (hook.beside _)).Discreet Prod.snd := by
        intro h hooked
        cases hooked
        exact hook.spares_beside
      rcases ih with ⟨unlinked, mute⟩ | ⟨ledger, r, attuned⟩
      · exact .inl ⟨unlinked, ⟨discreet, mute.known, mute.speaks, mute.spoke⟩, mute.unlinked⟩
      · obtain ⟨marks, tracks⟩ := attuned.tracks
        exact .inr ⟨ledger, r, ⟨marks, tracks.of_books rfl rfl rfl rfl⟩, attuned.rested,
          attuned.known, discreet, attuned.hears⟩
  | tuned _ maxDeltas defaultDuration ih => exact ih.of_wiring rfl rfl rfl rfl rfl
  | @begun s log _ ih =>
      obtain ⟨hook, hookStarted, state, maxDeltas, defaultDuration, world, adjusted⟩ :=
        s.adjusts_startHook
      exact ih.of_wiring (wiring_startHook ih.proper.civil.discreet.overlooked) (by rw [adjusted])
        (by rw [adjusted]) (by rw [adjusted]) (by rw [adjusted])
  | cycled _ turned ih => exact ih.cycle turned (.inl rfl)
  | suspended _ turned ih => exact (ih.cycle turned (.inr rfl)).of_wiring rfl rfl rfl rfl rfl

/-! ## At rest -/

/-- Where a cycle comes to rest, everything is up to date. -/
theorem fresh (underway : Underway B s log) {fuel : Nat} {q : Simulation σ (ω × List BridgeCall)}
    (rested : s.rested? (B.beside _) fuel = some q) :
    q.Bound ∧ q.Fresh (log ++ s.cyclePostings (B.beside _) fuel) := by
  have reached := underway.reached
  obtain ⟨rest, -, leaves⟩ := cycle_of_rested rested
  -- The same cycle under a cap at this tick stops where it rests, so what holds after every cycle
  -- holds there, whatever the cap of the run is.
  have stopped : q.leaveTick (some q.kernel.now) = (q, .ended (.ok .suspended)) :=
    leaveTick_of_way (.held rfl)
  have turned := (leaves (some q.kernel.now)).trans (congrArg Except.ok stopped)
  have bound := underway.bound.cycle turned (.inr rfl)
  have heeds := heeds_cycle reached.staffed underway.heeds turned (.inr (.inl rfl))
  have upToDate := (reached.cycled turned).settled.upToDate rest.pending
  have delivered := underway.bound.proper.delivered B.spares_beside rested
  refine ⟨bound, ?_, ?_⟩
  · intro l linked
    rcases bound with ⟨unlinked, -⟩ | ⟨ledger, r, attuned⟩
    · rw [unlinked] at linked
      cases linked
    · obtain ⟨l', -, linked', -⟩ := attuned.hears
      cases linked.symm.trans (link_of_openLink? linked')
      obtain ⟨before, time, calls⟩ := delivered l linked'
      rw [calls]
      exact lastSent_exchange ..
  · intro before id value after same signal found prompt
    rcases Posting.later_or_last before after (.received id value) with later | last
    · exact .inl later
    · right
      rw [← same] at last
      have means := heeds id signal found _ last
      exact ⟨signal.next, means, upToDate.same id signal found prompt⟩

end Underway

/-! ## Runs -/

section Stops

variable {s s' q : Simulation σ (ω × List BridgeCall)} {log : List Posting}

theorem Fresh.of_same (fresh : s.Fresh log) (signals : s'.kernel.signals = s.kernel.signals)
    (links : s'.link.map Link.bridge = s.link.map Link.bridge)
    (calls : lastSent s'.world.2 = lastSent s.world.2) : s'.Fresh log := by
  constructor
  · intro l' linked'
    rw [linked', Option.map_some] at links
    obtain ⟨l, linked, bridge⟩ := Option.map_eq_some_iff.mp links.symm
    have same : snapshot s'.kernel l'.bridge.outputs = snapshot s.kernel l.bridge.outputs := by
      rw [bridge]
      refine snapshot_of_same ?_
      intro id _
      simp only [Kernel.val?, Kernel.signal?, signals]
    rw [calls, same]
    exact fresh.sent l linked
  · intro before id value after same signal found
    have found' : s.kernel.signal? id = some signal := by
      rw [Kernel.signal?, ← signals]
      exact found
    exact fresh.honored before id value after same signal found'

/-- A loop that stops where it came to rest leaves what was up to date there. -/
theorem Fresh.leaveTick (fresh : q.Fresh log) {cap : Option Nat} {outcome : Outcome}
    (left : q.leaveTick cap = (s', .ended (.ok outcome))) : s'.Fresh log := by
  obtain ⟨-, now, delta, rfl⟩ := stops_of_leaveTick left
  exact fresh.of_same rfl rfl rfl

/-- Closing the bridge sends nothing. -/
theorem Fresh.closeLink (fresh : s.Fresh log) (bound : s.Bound) : s.closeLink.1.Fresh log := by
  unfold Simulation.closeLink
  split
  · exact fresh
  · next l linked =>
      have noted : l.bridge.Noted Prod.snd := by
        rcases bound with ⟨unlinked, -⟩ | ⟨ledger, r, attuned⟩
        · rw [unlinked] at linked
          cases linked
        · obtain ⟨l', -, linked', noted, -⟩ := attuned.hears
          cases linked.symm.trans (link_of_openLink? linked')
          exact noted
      have told := congrArg lastSent (noted.close s.world)
      rw [lastSent_close] at told
      simp only [Link.close]
      split
      · refine fresh.of_same rfl ?_ rfl
        rw [linked]
      · refine fresh.of_same rfl ?_ told
        rw [linked]
        rfl

theorem Fresh.shutdown (fresh : s.Fresh log) (bound : s.Bound) : s.shutdown.1.Fresh log := by
  have closed := fresh.closeLink bound
  have discreet := bound.proper.civil.discreet
  have hook : s.closeLink.1.hook = s.hook := by
    unfold Simulation.closeLink
    split <;> rfl
  unfold Simulation.shutdown
  generalize s.closeLink = result at closed hook ⊢
  obtain ⟨s₁, e | _⟩ := result
  · exact closed
  · dsimp only at closed hook ⊢
    cases hooked : s₁.hook with
    | none => exact closed
    | some h =>
        have spared := (discreet h (hook.symm.trans hooked)).finish s₁.world
        exact closed.of_same rfl rfl (congrArg lastSent spared)

/-- A loop that finishes for want of events leaves what rested. -/
theorem eq_of_finished {reason : StopReason} {cap : Option Nat}
    (left : q.leaveTick cap = (s', .ended (.ok (.finished reason)))) : s' = q := by
  have way := way_of_leaveTick left
  generalize q.onward? cap = onward at way
  cases way with
  | exhausted elsewhere last => rfl

end Stops

namespace Underway

variable {s s' : Simulation σ (ω × List BridgeCall)} {log : List Posting}

theorem loop (underway : Underway B s log) {fuel : Nat} {cap : Option Nat} {outcome : Outcome}
    (looped : loop (B.beside _) fuel s cap = .ok (s', .ok outcome))
    (stops : outcome = .suspended ∨ outcome = .finished .noMoreEvents) :
    s'.Fresh (log ++ loopPostings (B.beside _) fuel s cap) ∧
      (outcome = .finished .noMoreEvents → s'.Bound) ∧
      (outcome = .suspended →
        Underway B { s' with state := .suspended } (log ++ loopPostings (B.beside _) fuel s cap)) := by
  replace looped := way_of_loop looped
  induction looped generalizing log with
  | @ended fuel s turned =>
      rw [loopPostings, turned]
      dsimp only
      rw [List.append_nil]
      cases rested : s.rested? (B.beside _) (fuel + 1) with
      | none =>
          obtain ⟨-, running, going⟩ := stays_of_unrested rested turned
          rcases stops with rfl | rfl
          · exact absurd rfl running
          · exact absurd rfl going
      | some q =>
          obtain ⟨bound, fresh⟩ := underway.fresh rested
          have left := Except.ok.inj (((cycle_of_rested rested).2.2 cap).symm.trans turned)
          refine ⟨fresh.leaveTick left, ?_, ?_⟩
          · rintro rfl
            rw [eq_of_finished left]
            exact bound
          · rintro rfl
            exact underway.suspended turned
  | again turned further ih =>
      rw [loopPostings, turned]
      dsimp only
      rw [← List.append_assoc]
      exact ih (underway.cycled turned)

theorem run (underway : Underway B s log) {fuel : Nat} {duration : Option Nat} {outcome : Outcome}
    (ran : run (B.beside _) fuel s duration = .ok (s', .ok outcome))
    (stops : outcome = .suspended ∨ outcome = .finished .noMoreEvents) :
    s'.Fresh (log ++ s.runPostings (B.beside _) fuel duration) ∧
      (outcome = .suspended →
        Underway B s' (log ++ s.runPostings (B.beside _) fuel duration)) := by
  have begun := underway.begun
  unfold runPostings
  cases way_of_run ran with
  | @played s₁ s₂ _ final _ running started looped concluded =>
      rw [started] at begun
      rw [if_neg (Bool.eq_false_iff.mp running), started]
      cases outcome_of_conclude concluded
      rcases stops with rfl | rfl
      · cases concluded
        obtain ⟨fresh, -, goesOn⟩ := begun.loop looped (.inl rfl)
        exact ⟨fresh.of_same rfl rfl rfl, fun _ => goesOn rfl⟩
      · obtain ⟨fresh, bound, -⟩ := begun.loop looped (.inr rfl)
        have bound' : ({ s₂ with state := .finished } :
            Simulation σ (ω × List BridgeCall)).Bound :=
          (bound rfl).of_wiring rfl rfl rfl rfl rfl
        have stopped : ({ s₂ with state := .finished } :
            Simulation σ (ω × List BridgeCall)).Fresh _ := fresh.of_same rfl rfl rfl
        have shut := stopped.shutdown bound'
        refine ⟨?_, nofun⟩
        unfold conclude at concluded
        dsimp only at concluded
        generalize Simulation.shutdown { s₂ with state := .finished } = down at concluded shut
        obtain ⟨s₃, _ | _⟩ := down <;> cases concluded
        exact shut

theorem answer (underway : Underway B s log) {fuel : Nat} {call : Call} {outcome : Outcome}
    (answered : s.answer (B.beside _) fuel call = .ok (s', .ok outcome))
    (stops : outcome = .suspended ∨ outcome = .finished .noMoreEvents) :
    s'.Fresh (log ++ s.answerPostings (B.beside _) fuel call) ∧
      (outcome = .suspended →
        Underway B s' (log ++ s.answerPostings (B.beside _) fuel call)) := by
  cases call with
  | run duration => exact underway.run answered stops
  | runToCompletion => exact (underway.tuned s.maxDeltas none).run answered stops

end Underway

/-- The engine is up to date before time moves. In a session, with any processes and any replies of
the engine: whenever a cycle moves the clock, is suspended or finds no more events, and whenever a
call returns because of that, the values that were sent last are those of all outputs, and every value
that was received since the start is the one that is committed, unless a later one was written or the
signal has a delay. -/
theorem the_engine_is_up_to_date_before_time_moves {s : Simulation σ (ω × List BridgeCall)}
    {log : List Posting} (underway : Underway B s log) :
    (∀ fuel cap s' verdict, s.cycle (B.beside _) fuel cap = .ok (s', verdict) →
      (s'.kernel.now ≠ s.kernel.now ∨ verdict = .ended (.ok .suspended) ∨
        verdict = .ended (.ok (.finished .noMoreEvents))) →
      ∃ q, s.rested? (B.beside _) fuel = some q ∧ q.leaveTick cap = (s', verdict) ∧
        q.Fresh (log ++ s.cyclePostings (B.beside _) fuel)) ∧
    ∀ fuel call s' outcome, s.answer (B.beside _) fuel call = .ok (s', .ok outcome) →
      (outcome = .suspended ∨ outcome = .finished .noMoreEvents) →
      s'.Fresh (log ++ s.answerPostings (B.beside _) fuel call) ∧
        (outcome = .suspended →
          Underway B s' (log ++ s.answerPostings (B.beside _) fuel call)) := by
  constructor
  · intro fuel cap s' verdict turned leaves
    obtain ⟨q, rested, left⟩ := rested_of_leaves turned leaves
    exact ⟨q, rested, left, (underway.fresh rested).2⟩
  · intro fuel call s' outcome answered stops
    exact underway.answer answered stops

/-- A total and the altitude that an engine tells. -/
def cockpit : Kernel := (ledger.declare "altitude" (.int 0) none).2

/-- An engine that always tells the same altitude. -/
def altimeter : Bridge Unit where
  outputs := [⟨0⟩]
  receive _ w := (w, .ok [(⟨1⟩, .int 7)])
  send _ _ w := (w, .ok ())
  close w := (w, .ok ())

/-- A simulation of a sleeper and an altimeter. -/
def nightFlight : Simulation Unit (Unit × List BridgeCall) :=
  { (({ kernel := cockpit, world := ((), []) } :
      Simulation Unit (Unit × List BridgeCall)).addWaiter "sleepy" (.process ()) none).addWaiter
        "cosim" .outputs none with
    link := some { bridge := altimeter.tapped } }

/-- Whether a run for four ticks is suspended with this altitude after these postings. -/
def flies (altitude : Value) (postings : List Posting)
    (s : Simulation Unit (Unit × List BridgeCall)) : Bool :=
  match s.answer (sleepy.beside _) 9 (.run (some 4)) with
  | .ok (t, .ok .suspended) =>
      decide (t.kernel.val? ⟨1⟩ = some altitude ∧
        s.answerPostings (sleepy.beside _) 9 (.run (some 4)) = postings)
  | _ => false

/-- The altitude is told three times, twice at the start and once at the third tick. -/
theorem the_altimeter_is_heard :
    ∃ s, nightFlight.answer (sleepy.beside _) 9 (.run (some 4)) = .ok (s, .ok .suspended) ∧
      s.kernel.val? ⟨1⟩ = some (.int 7) ∧
      s.Fresh [.received ⟨1⟩ (.int 7), .received ⟨1⟩ (.int 7), .received ⟨1⟩ (.int 7)] := by
  have made : cockpit.Made :=
    .signal (.signal .empty "total" (.int 0) none) "altitude" (.int 0) none
  have built : build (sleepy.beside _) cockpit
      (Instance.tappedAll [.process (), .bridge altimeter]) ((), []) = .ok nightFlight := rfl
  have heard : flies (.int 7)
      [.received ⟨1⟩ (.int 7), .received ⟨1⟩ (.int 7), .received ⟨1⟩ (.int 7)] nightFlight = true := by
    decide +kernel
  unfold flies at heard
  split at heard
  · next s answered =>
      obtain ⟨altitude, postings⟩ := of_decide_eq_true heard
      obtain ⟨-, calls⟩ := the_engine_is_up_to_date_before_time_moves (.built made built)
      obtain ⟨fresh, -⟩ := calls 9 (.run (some 4)) s .suspended answered (.inl rfl)
      rw [List.nil_append, postings] at fresh
      exact ⟨s, answered, altitude, fresh⟩
  · cases heard

end Simulation

end DeltaCycle
