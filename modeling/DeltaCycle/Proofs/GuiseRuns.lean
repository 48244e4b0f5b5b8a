import DeltaCycle.Proofs.Annals
import DeltaCycle.Proofs.Guises

/-!
# Runs in a guise

A simulation in a guise that suits it runs as it does otherwise, and commits the same changes, unless
the limit of delta cycles is another one in the guise and a run is ended by the limit.
-/

set_option autoImplicit false

namespace DeltaCycle

variable {σ ω ω' α : Type}

namespace Simulation

/-! ## Committed changes -/

section Changes

variable {g : Guise ω ω'} {s : Simulation σ ω}

theorem changeOf?_inGuise (s : Simulation σ ω) (g : Guise ω ω') (id : SignalId)
    {f : Signal → Signal × Commit} (impartial : Signal.Impartial f) :
    (s.inGuise g).changeOf? id f = s.changeOf? id f := by
  unfold changeOf?
  simp only [inGuise, Kernel.signal?_retraced]
  cases s.kernel.signal? id with
  | none => rfl
  | some signal =>
      dsimp only [Option.map_some]
      rw [impartial g.mark signal]
      rcases f signal with ⟨signal', _ | _ | _⟩ <;> rfl

theorem updates_inGuise (fits : s.Fits g) (ids : List SignalId) :
    (s.inGuise g).updates ids = s.updates ids := by
  induction ids generalizing s with
  | nil => rfl
  | cons id rest ih =>
      rw [updates, updates, step_inGuise fits id Signal.impartial_update,
        changeOf?_inGuise s g id Signal.impartial_update]
      exact congrArg (_ ++ ·) (ih (fits.of_equipment (s.equipment_step id _)))

theorem commits_inGuise (fits : s.Fits g) : (s.inGuise g).commits = s.commits :=
  updates_inGuise (s := { s with kernel := { s.kernel with pending := [] } }) fits _

theorem drained_inGuise (fits : s.Fits g) (count time : Nat) :
    (s.inGuise g).drained count time = s.drained count time := by
  induction count generalizing s with
  | zero => rfl
  | succ count ih =>
      have queue : (s.inGuise g).queue = s.queue := rfl
      simp only [drained, queue]
      cases s.queue.popDue time with
      | none => rfl
      | some due =>
          obtain ⟨payload, rest⟩ := due
          have fits' : ({ s with queue := rest } : Simulation σ ω).Fits g := fits
          have fires : fire { s.inGuise g with queue := rest } payload =
              g.on (fire { s with queue := rest } payload) := fire_inGuise fits' payload
          have same : changeOfPayload? { s.inGuise g with queue := rest } payload =
              changeOfPayload? { s with queue := rest } payload := by
            cases payload with
            | wake a => rfl
            | apply id value stamp =>
                exact changeOf?_inGuise { s with queue := rest } g id
                  (Signal.impartial_applyDeferred value stamp)
          have kept := equipment_fire { s with queue := rest } payload
          dsimp only
          rw [fires, same]
          generalize fire { s with queue := rest } payload = result at kept ⊢
          obtain ⟨s₁, _ | _⟩ := result
          · rfl
          · exact congrArg (_ ++ ·) (ih (fits'.of_equipment kept))

end Changes

/-! ## The limit -/

/-- The error that tells of the limit of delta cycles. -/
def limitError (s : Simulation σ ω) : SimError := .deltaCycleLimit s.kernel.now s.maxDeltas

/-- More delta cycles were entered in a tick than the limit allows, and in the guise another limit
holds. -/
structure Overruns (g : Guise ω ω') (s : Simulation σ ω) : Prop where
  past : s.maxDeltas < s.delta
  differs : g.limit s.maxDeltas ≠ s.maxDeltas

/-- Changes are committed alike in a guise, and what they lead to is the same but for the guise; or
the limit, which is another one in the guise, cuts them short with a failure. -/
inductive Carried (g : Guise ω ω') (fail : SimError → α) :
    List Change × Except Stuck (Simulation σ ω × α) →
      List Change × Except Stuck (Simulation σ ω' × α) → Prop where
  | same (changes : List Change) (out : Except Stuck (Simulation σ ω × α)) :
      Carried g fail (changes, out) (changes, out.map g.on)
  | cut {s : Simulation σ ω} {changes changes' : List Change}
      (out' : Except Stuck (Simulation σ ω' × α)) (overruns : s.Overruns g)
      (initial : changes <+: changes') :
      Carried g fail (changes, .ok (s, fail s.limitError)) (changes', out')

namespace Carried

variable {g : Guise ω ω'} {fail : SimError → α} {changes changes' : List Change}
  {out : Except Stuck (Simulation σ ω × α)} {out' : Except Stuck (Simulation σ ω' × α)}

theorem pair (changes : List Change) (p : Simulation σ ω × α) :
    Carried g fail (changes, .ok p) (changes, .ok (g.on p)) := .same changes (.ok p)

theorem append (carried : Carried g fail (changes, out) (changes', out')) (earlier : List Change) :
    Carried g fail (earlier ++ changes, out) (earlier ++ changes', out') := by
  cases carried with
  | same => exact .same _ _
  | cut _ overruns initial =>
      exact .cut _ overruns ((List.prefix_append_right_inj earlier).mpr initial)

/-- Where the limit is the same in the guise, nothing is cut short. -/
theorem out_eq (carried : Carried g fail (changes, out) (changes', out'))
    (same : ∀ n, g.limit n = n) : out' = out.map g.on := by
  cases carried with
  | same => rfl
  | cut _ overruns _ => exact absurd (same _) overruns.differs

end Carried

variable {g : Guise ω ω'} {B : Behaviours σ ω} {B' : Behaviours σ ω'} {s : Simulation σ ω}

/-! ## Ticks -/

theorem nextDelta_inGuise (fits : s.Fits g) :
    Carried g .error ([], .ok s.nextDelta) ([], .ok (s.inGuise g).nextDelta) := by
  have wider : s.maxDeltas ≤ g.limit s.maxDeltas := fits.limit
  let entered : Simulation σ ω :=
    { s with delta := s.delta + 1, stats := { s.stats with deltas := s.stats.deltas + 1 } }
  have enters : s.nextDelta =
      if s.maxDeltas < s.delta + 1 then (entered, .error entered.limitError)
      else (entered, .ok ()) := rfl
  have enters' : (s.inGuise g).nextDelta =
      if g.limit s.maxDeltas < s.delta + 1 then
        (entered.inGuise g, .error (.deltaCycleLimit s.kernel.now (g.limit s.maxDeltas)))
      else (entered.inGuise g, .ok ()) := rfl
  rw [enters, enters']
  -- Past the limit the run fails. In the guise it does so as well, or another limit holds there.
  by_cases past : s.maxDeltas < s.delta + 1
  · rw [if_pos past]
    by_cases differs : g.limit s.maxDeltas = s.maxDeltas
    · rw [differs, if_pos past]
      exact .pair [] (entered, Except.error entered.limitError)
    · exact .cut _ ⟨past, differs⟩ List.prefix_rfl
  · have under : ¬g.limit s.maxDeltas < s.delta + 1 := by omega
    rw [if_neg past, if_neg under]
    exact .pair [] (entered, Except.ok ())

theorem moveClock_inGuise (fits : s.Fits g) (time : Nat) :
    Carried g .error ([], .ok (s.moveClock time)) ([], .ok ((s.inGuise g).moveClock time)) := by
  have now : (s.inGuise g).kernel.now = s.kernel.now := rfl
  unfold moveClock
  rw [now]
  split
  · exact .pair [] _
  · have entered := nextDelta_inGuise fits
    generalize s.nextDelta = p, (s.inGuise g).nextDelta = p' at entered ⊢
    cases entered with
    | same =>
        obtain ⟨s₁, _ | _⟩ := p
        · exact .pair [] _
        · exact .pair [] _
    | cut _ overruns _ => exact .cut _ overruns List.prefix_rfl

theorem advanceTo_inGuise (fits : s.Fits g) (time : Nat) :
    Carried g .error (s.arrived time, .ok (s.advanceTo time))
      ((s.inGuise g).arrived time, .ok ((s.inGuise g).advanceTo time)) := by
  have moves := moveClock_inGuise fits time
  have kept := s.equipment_moveClock time
  unfold arrived advanceTo
  generalize s.moveClock time = p, (s.inGuise g).moveClock time = p' at moves kept ⊢
  cases moves with
  | cut _ overruns _ => exact .cut _ overruns (List.nil_prefix)
  | same =>
      obtain ⟨s₁, _ | _⟩ := p
      · exact .pair [] _
      · have fits₁ : s₁.Fits g := fits.of_equipment kept
        have queue : (s₁.inGuise g).queue = s₁.queue := rfl
        have fits₂ := fits₁.of_equipment (s₁.equipment_drainUpTo s₁.queue.size time)
        dsimp only [Guise.on, drain]
        rw [queue, drained_inGuise fits₁, drainUpTo_inGuise fits₁]
        generalize drainUpTo s₁.queue.size s₁ time = result at fits₂ ⊢
        obtain ⟨s₂, _ | _⟩ := result
        · exact .pair _ _
        · dsimp only [Guise.on]
          rw [openLink?_inGuise]
          cases linked : s₂.openLink? with
          | none => exact .pair _ _
          | some l =>
              have sent : (s₂.inGuise g).sendOutputs (g.link l).bridge =
                  g.on (s₂.sendOutputs l.bridge) := sendOutputs_inGuise (fits₂.serves linked)
              dsimp only [Option.map_some]
              rw [sent]
              exact .pair _ _

/-- What a failure means for a run. -/
def Verdict.failed (e : SimError) : Verdict := .ended (.error e)

theorem Carried.goOn {changes changes' : List Change} {p : Simulation σ ω × Except SimError Unit}
    {p' : Simulation σ ω' × Except SimError Unit}
    (carried : Carried g .error (changes, .ok p) (changes', .ok p')) :
    Carried g Verdict.failed (changes, .ok (goOn p)) (changes', .ok (Simulation.goOn p')) := by
  cases carried with
  | same =>
      obtain ⟨s₁, _ | _⟩ := p
      · exact .pair _ _
      · exact .pair _ _
  | cut _ overruns initial => exact .cut _ overruns initial

theorem leaveTick_inGuise (fits : s.Fits g) (cap : Option Nat) :
    Carried g Verdict.failed (s.departures cap, .ok (s.leaveTick cap))
      ((s.inGuise g).departures cap, .ok ((s.inGuise g).leaveTick cap)) := by
  have now : (s.inGuise g).kernel.now = s.kernel.now := rfl
  have queue : (s.inGuise g).queue = s.queue := rfl
  unfold departures leaveTick
  rw [now, queue]
  split
  · exact .pair [] _
  · cases s.queue.nextTime? with
    | none => exact .pair [] _
    | some time =>
        dsimp only
        cases cap.filter (· < time) with
        | some limit =>
            exact .pair [] ({ s with kernel := { s.kernel with now := limit }, delta := 0 }, _)
        | none => exact (advanceTo_inGuise fits time).goOn

/-! ## Cycles -/

theorem wrapUp_inGuise (fits : s.Fits g) (failure : Except SimError Unit) :
    (s.inGuise g).wrapUp failure = g.on (s.wrapUp failure) := by
  unfold wrapUp
  rw [commitPending_inGuise fits]
  rcases s.commitPending with ⟨s₁, committed⟩
  dsimp only [Guise.on]
  rw [purge_inGuise]
  cases firstError failure committed <;> rfl

theorem rounded?_inGuise (renders : g.Renders B B') (fits : s.Fits g) (fuel : Nat) :
    (s.inGuise g).rounded? B' fuel = (s.rounded? B fuel).map g.on := by
  have kept := s.equipment_commitPending
  unfold rounded?
  rw [commitPending_inGuise fits]
  generalize s.commitPending = result at kept ⊢
  obtain ⟨s₁, _ | _⟩ := result
  · rfl
  · dsimp only [Guise.on]
    rw [runReady_inGuise renders (fits.of_equipment kept)]
    cases runReady B fuel s₁ (.ok ()) <;> rfl

theorem settled?_inGuise (fits : s.Fits g) :
    (s.inGuise g).settled? = s.settled?.map fun q => q.inGuise g := by
  unfold settled?
  rw [exchange_inGuise fits]
  rcases s.exchange with ⟨s₁, _ | sent⟩
  · rfl
  · dsimp only [Guise.on]
    rw [purge_inGuise]
    have pending : (s₁.purge.inGuise g).kernel.pending = s₁.purge.kernel.pending := rfl
    rw [pending]
    split <;> rfl

theorem Fits.rounded (fits : s.Fits g) {fuel : Nat} {s₁ : Simulation σ ω}
    {failure : Except SimError Unit} (rounded : s.rounded? B fuel = some (s₁, failure)) :
    s₁.Fits g := by
  obtain ⟨m, committed, ran⟩ := rounded?_eq_some_iff.mp rounded
  have kept := s.equipment_commitPending
  rw [committed] at kept
  exact (fits.of_equipment kept).of_equipment (equipment_runReady ran)

theorem Fits.settled (fits : s.Fits g) {q : Simulation σ ω} (settles : s.settled? = some q) :
    q.Fits g := by
  have kept := s.equipment_exchange
  have way := way_of_proceed s
  rw [settles] at way
  cases way with
  | settled exchanged pending proceeds =>
      rw [exchanged] at kept
      exact (fits.of_equipment kept).of_equipment (equipment_purge _)

theorem rested?_inGuise (renders : g.Renders B B') (fits : s.Fits g) (fuel : Nat) :
    (s.inGuise g).rested? B' fuel = (s.rested? B fuel).map fun q => q.inGuise g := by
  unfold rested?
  rw [rounded?_inGuise renders fits]
  cases rounded : s.rounded? B fuel with
  | none => rfl
  | some played =>
      obtain ⟨s₁, _ | _⟩ := played
      · rfl
      · have stop : (s₁.inGuise g).kernel.stopRequest = s₁.kernel.stopRequest := rfl
        dsimp only [Option.map_some, Guise.on]
        rw [stop]
        split
        · exact settled?_inGuise (fits.rounded rounded)
        · rfl

theorem roundCommits_inGuise (renders : g.Renders B B') (fits : s.Fits g) (fuel : Nat) :
    (s.inGuise g).roundCommits B' fuel = s.roundCommits B fuel := by
  unfold roundCommits
  rw [rounded?_inGuise renders fits, commits_inGuise fits]
  cases rounded : s.rounded? B fuel with
  | none => rfl
  | some played =>
      obtain ⟨s₁, failure⟩ := played
      have stop : (s₁.inGuise g).kernel.stopRequest = s₁.kernel.stopRequest := rfl
      dsimp only [Option.map_some, Guise.on]
      rw [stop, commits_inGuise (fits.rounded rounded)]

/-- The end of a cycle that does not settle commits nothing. -/
theorem unsettled_inGuise (fits : s.Fits g) (unsettled : s.settled? = none) (cap : Option Nat) :
    Carried g Verdict.failed ([], .ok (s.proceed cap)) ([], .ok ((s.inGuise g).proceed cap)) := by
  have exchanges := exchange_inGuise fits
  have kept := s.equipment_exchange
  rw [proceed_eq, proceed_eq, exchanges]
  unfold settled? at unsettled
  generalize s.exchange = result at unsettled kept ⊢
  obtain ⟨s₁, _ | sent⟩ := result
  · exact .pair [] _
  · have pending : (s₁.purge.inGuise g).kernel.pending = s₁.purge.kernel.pending := rfl
    have fits₁ := (fits.of_equipment kept).of_equipment s₁.equipment_purge
    dsimp only [Guise.on] at unsettled ⊢
    rw [purge_inGuise, pending]
    split
    · exact (nextDelta_inGuise fits₁).goOn
    · next idle =>
        rw [if_neg idle] at unsettled
        cases unsettled

theorem unrested_inGuise (renders : g.Renders B B') (fits : s.Fits g) {fuel : Nat}
    (unrested : s.rested? B fuel = none) (cap : Option Nat) :
    Carried g Verdict.failed ([], s.cycle B fuel cap) ([], (s.inGuise g).cycle B' fuel cap) := by
  have kept := s.equipment_commitPending
  unfold rested? rounded? at unrested
  unfold cycle
  rw [commitPending_inGuise fits]
  generalize s.commitPending = result at unrested kept ⊢
  obtain ⟨s₁, _ | _⟩ := result
  · exact .pair [] _
  · have fits₁ := fits.of_equipment kept
    dsimp only [Guise.on] at unrested ⊢
    rw [runReady_inGuise renders fits₁]
    cases ran : runReady B fuel s₁ (.ok ()) with
    | error why => exact .same [] _
    | ok played =>
        obtain ⟨s₂, failure⟩ := played
        have fits₂ := fits₁.of_equipment (equipment_runReady ran)
        have stop : (s₂.inGuise g).kernel.stopRequest = s₂.kernel.stopRequest := rfl
        have wraps := wrapUp_inGuise fits₂ failure
        rw [ran] at unrested
        dsimp only [Except.map, Guise.on]
        rw [stop]
        cases failure with
        | error e =>
            dsimp only
            rw [wraps]
            exact .pair [] _
        | ok _ =>
            cases asked : s₂.kernel.stopRequest with
            | some reason =>
                dsimp only
                rw [wraps]
                exact .pair [] _
            | none =>
                simp only [Except.toOption, asked, Option.isNone_none, if_true] at unrested
                exact unsettled_inGuise fits₂ unrested cap

theorem cycle_inGuise (renders : g.Renders B B') (fits : s.Fits g) (fuel : Nat)
    (cap : Option Nat) :
    Carried g Verdict.failed (s.cycleCommits B fuel cap, s.cycle B fuel cap)
      ((s.inGuise g).cycleCommits B' fuel cap, (s.inGuise g).cycle B' fuel cap) := by
  have rests := rested?_inGuise renders fits fuel
  unfold cycleCommits
  rw [roundCommits_inGuise renders fits]
  refine Carried.append ?_ _
  -- Only a cycle that comes to rest leaves its tick and may commit something after the round.
  cases rested : s.rested? B fuel with
  | none =>
      rw [rested] at rests
      rw [rests]
      exact unrested_inGuise renders fits rested cap
  | some q =>
      rw [rested, Option.map_some] at rests
      obtain ⟨-, -, leaves⟩ := cycle_of_rested rested
      obtain ⟨-, -, leaves'⟩ := cycle_of_rested rests
      obtain ⟨m, s₁, committed, ran, -, settles⟩ := round_of_rested rested
      have fits₁ := (fits.rounded (rounded?_of_round committed ran)).settled settles
      rw [rests, leaves, leaves']
      exact leaveTick_inGuise fits₁ cap

theorem loop_inGuise (renders : g.Renders B B') (fits : s.Fits g) (fuel : Nat)
    (cap : Option Nat) :
    Carried g .error (loopCommits B fuel s cap, loop B fuel s cap)
      (loopCommits B' fuel (s.inGuise g) cap, loop B' fuel (s.inGuise g) cap) := by
  induction fuel generalizing s with
  | zero => exact .same [] _
  | succ fuel ih =>
      have turns := cycle_inGuise renders fits (fuel + 1) cap
      unfold loopCommits loop
      generalize s.cycleCommits B (fuel + 1) cap = changes,
        (s.inGuise g).cycleCommits B' (fuel + 1) cap = changes',
        (s.inGuise g).cycle B' (fuel + 1) cap = out' at turns ⊢
      cases turned : s.cycle B (fuel + 1) cap with
      | error why =>
          rw [turned] at turns
          cases turns with
          | same => exact .same _ _
      | ok turn =>
          rw [turned] at turns
          cases turns with
          | cut _ overruns initial =>
              -- The loop ends here, while in the guise it may go on and commit more.
              dsimp only [Verdict.failed]
              rw [List.append_nil]
              exact .cut _ overruns (initial.trans (List.prefix_append ..))
          | same =>
              obtain ⟨s₁, _ | result⟩ := turn
              · have fits₁ := fits.of_equipment (equipment_cycle turned)
                exact (ih fits₁).append _
              · exact .pair _ _

/-! ## Runs -/

theorem startHook_call (s : Simulation σ ω) :
    s.startHook =
      let told := Hook.start? s.hook s.hookStarted (tracedSignals s.kernel) s.world
      ({ s with hookStarted := true, world := told.1 }, told.2) := by
  have each (hook : Option (Hook ω)) (hookStarted : Bool) :
      startHook { s with hook, hookStarted } =
        let told := Hook.start? hook hookStarted (tracedSignals s.kernel) s.world
        ({ s with hook, hookStarted := true, world := told.1 }, told.2) := by
    unfold startHook Hook.start? Hook.call?
    cases hookStarted <;> cases hook <;> rfl
  exact each s.hook s.hookStarted

theorem startHook_inGuise (fits : s.Fits g) : (s.inGuise g).startHook = g.on s.startHook := by
  have told : Hook.start? (g.hook s.hook) (g.started s.hookStarted)
        (tracedSignals (s.kernel.retraced g.mark)) (g.world s.world) =
      (Hook.start? s.hook s.hookStarted (tracedSignals s.kernel) s.world).map g.world id :=
    fits.start s.hookStarted s.kernel s.world
  rw [startHook_call, startHook_call]
  simp only [inGuise, told, Guise.on, fits.began]
  rfl

theorem close_inGuise {l : Link ω} (serves : g.Serves l.bridge) (w : ω) :
    (g.link l).close (g.world w) =
      (g.link (l.close w).1, g.world (l.close w).2.1, (l.close w).2.2) := by
  have closed : (g.link l).closed = l.closed := rfl
  have closes : (g.link l).bridge.close (g.world w) = (l.bridge.close w).map g.world id :=
    serves.close w
  unfold Link.close
  rw [closed, closes]
  split <;> rfl

theorem closeLink_inGuise (fits : s.Fits g) : (s.inGuise g).closeLink = g.on s.closeLink := by
  have linked : (s.inGuise g).link = s.link.map g.link := rfl
  have world : (s.inGuise g).world = g.world s.world := rfl
  unfold closeLink
  rw [linked, world]
  cases present : s.link with
  | none => rfl
  | some l =>
      have serves : g.Serves l.bridge :=
        fits.bridge l.bridge (by simp only [equipment, present, Option.map_some])
      dsimp only [Option.map_some]
      rw [close_inGuise serves]
      rfl

theorem shutdown_of_failed {s' : Simulation σ ω} {e : SimError}
    (closed : s.closeLink = (s', .error e)) :
    s.shutdown = (s', .error e) := by
  unfold shutdown
  rw [closed]

/-- Once the bridge is closed, the hook is told of the end. -/
theorem shutdown_of_closed {s' : Simulation σ ω} (closed : s.closeLink = (s', .ok ())) :
    s.shutdown =
      ({ s' with world := (Hook.call? s'.hook Hook.finish s'.world).1 },
        (Hook.call? s'.hook Hook.finish s'.world).2) := by
  unfold shutdown
  rw [closed]
  obtain ⟨_, _, _, _, _, hook⟩ := s'
  cases hook <;> rfl

theorem shutdown_inGuise (fits : s.Fits g) : (s.inGuise g).shutdown = g.on s.shutdown := by
  have kept := s.equipment_closeLink
  have closes := closeLink_inGuise fits
  cases closed : s.closeLink with
  | mk s₁ result =>
      rw [closed] at closes kept
      cases result with
      | error e =>
          rw [shutdown_of_failed closed, shutdown_of_failed closes]
          rfl
      | ok =>
          have told : Hook.call? (g.hook s₁.hook) Hook.finish (g.world s₁.world) =
              (Hook.call? s₁.hook Hook.finish s₁.world).map g.world id :=
            (fits.of_equipment kept).finish s₁.world
          rw [shutdown_of_closed closed, shutdown_of_closed closes]
          simp only [Guise.on, inGuise, told]
          rfl

theorem conclude_inGuise (fits : s.Fits g) (result : Except SimError Outcome) :
    (s.inGuise g).conclude result = g.on (s.conclude result) := by
  have shuts (state : RunState) :
      shutdown { s.inGuise g with state } = g.on (shutdown { s with state }) :=
    shutdown_inGuise (s := { s with state }) fits
  unfold conclude
  split
  · rfl
  · rw [shuts]
    rcases shutdown { s with state := .finished } with ⟨s₁, _ | _⟩ <;> rfl
  · rw [shuts]
    rfl

/-- A run that is cut short has failed. -/
theorem Overruns.conclude {e : SimError} (overruns : s.Overruns g) :
    (s.conclude (.error e)).1.Overruns g ∧ (s.conclude (.error e)).1.limitError = s.limitError := by
  obtain ⟨state, link, world, same⟩ := s.conclude_eq (.error e)
  rw [same]
  exact ⟨⟨overruns.past, overruns.differs⟩, rfl⟩

theorem run_inGuise (renders : g.Renders B B') (fits : s.Fits g) (fuel : Nat)
    (duration : Option Nat) :
    Carried g .error (runCommits B fuel s duration, run B fuel s duration)
      (runCommits B' fuel (s.inGuise g) duration, run B' fuel (s.inGuise g) duration) := by
  have ended : (s.inGuise g).hasEnded = s.hasEnded := rfl
  have kept := s.equipment_startHook
  unfold runCommits run
  rw [ended, startHook_inGuise fits]
  split
  · exact .pair [] _
  · generalize s.startHook = result at kept ⊢
    obtain ⟨s₁, _ | _⟩ := result
    · exact .pair [] _
    · have fits₁ := fits.of_equipment kept
      have cap : (s₁.inGuise g).capOf duration = s₁.capOf duration := rfl
      have loops := loop_inGuise renders fits₁ fuel (s₁.capOf duration)
      dsimp only [Guise.on]
      rw [cap]
      generalize loopCommits B fuel s₁ (s₁.capOf duration) = changes,
        loopCommits B' fuel (s₁.inGuise g) (s₁.capOf duration) = changes',
        loop B' fuel (s₁.inGuise g) (s₁.capOf duration) = out' at loops ⊢
      cases looped : loop B fuel s₁ (s₁.capOf duration) with
      | error why =>
          rw [looped] at loops
          cases loops with
          | same => exact .same _ _
      | ok played =>
          rw [looped] at loops
          cases loops with
          | @cut s₂ _ _ _ overruns initial =>
              -- To shut down leaves the count alone, so that the run is cut short where its loop is.
              obtain ⟨overruns', told⟩ := overruns.conclude (e := s₂.limitError)
              generalize ended : s₂.conclude (.error s₂.limitError) = final at overruns' told
              have failed : final = (final.1, .error final.1.limitError) := by
                rw [told, ← ended]
                rfl
              dsimp only
              rw [ended, failed]
              exact .cut _ overruns' initial
          | same =>
              obtain ⟨s₂, final⟩ := played
              have fits₂ := fits₁.of_equipment (equipment_loop looped)
              dsimp only [Except.map, Guise.on]
              rw [conclude_inGuise fits₂]
              exact .pair _ _

/-- A call changes the equipment by no more than the duration of runs that are given none. -/
theorem equipment_answer {fuel : Nat} {call : Call} {s' : Simulation σ ω}
    {result : Except SimError Outcome} (answered : s.answer B fuel call = .ok (s', result)) :
    ∃ defaultDuration, s'.equipment = { s.equipment with defaultDuration } := by
  cases call with
  | run duration => exact ⟨s.defaultDuration, equipment_run answered⟩
  | runToCompletion => exact ⟨none, equipment_run answered⟩

theorem answer_inGuise (renders : g.Renders B B') (fits : s.Fits g) (fuel : Nat) (call : Call) :
    Carried g .error (s.answerCommits B fuel call, s.answer B fuel call)
      ((s.inGuise g).answerCommits B' fuel call, (s.inGuise g).answer B' fuel call) := by
  cases call with
  | run duration => exact run_inGuise renders fits fuel duration
  | runToCompletion =>
      have uncapped : ({ s with defaultDuration := none } : Simulation σ ω).Fits g := by
        exact ⟨fits.began, fits.start, fits.change, fits.finish, fits.bridge, fits.limit⟩
      exact run_inGuise renders uncapped fuel none

end Simulation

end DeltaCycle
