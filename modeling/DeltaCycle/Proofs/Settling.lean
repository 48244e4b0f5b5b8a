import DeltaCycle.Proofs.Limits
import DeltaCycle.Proofs.Networks

/-!
# Settling

In a network whose inertial signals take their time, no tick takes more delta cycles after its first
than there are tiers. So a limit of delta cycles that allows as many is never exceeded, whatever the
scripts write and whatever the shadows make of it.
-/

set_option autoImplicit false

namespace DeltaCycle

variable {ω : Type}

namespace Simulation

/-- A cycle did not take its tick too far, and if the run goes on now or later, then with all tiers
that are still to be cleared. -/
structure Lasts (k : Kernel) (turn : Simulation Script ω × Verdict) : Prop where
  shallow : turn.1.delta ≤ k.shadows.length + 1
  sinking : turn.2 = .again ∨ turn.2 = .ended (.ok .suspended) → turn.1.Sinking k 1

variable {k : Kernel} {allowed : Nat} {s s' : Simulation Script ω}

/-! ## Leaving a tick -/

theorem Network.openLink? (network : s.Network k) : s.openLink? = none := by
  rw [Simulation.openLink?, network.unlinked, Option.filter_none]

theorem Network.exchange_eq (network : s.Network k) : s.exchange = (s, .ok false) := by
  rw [exchange, network.openLink?]

/-- In the first delta cycle of a tick, no tier has been cleared. -/
theorem Network.sinking (network : s.Network k) (first : s.delta = 0)
    (later : ∀ e ∈ s.queue.toList, s.kernel.now < e.time) : s.Sinking k allowed := by
  refine ⟨network, later, fun a _ past => ?_, fun id _ => ?_, ?_⟩
  · exact absurd past (Nat.not_lt.mpr (Nat.le_of_eq first))
  · rw [first]
    exact Nat.zero_le _
  · rw [first]
    exact Nat.zero_le _

theorem Network.fire (network : s.Network k) (payload : Payload) : (s.fire payload).1.Network k := by
  cases payload with
  | wake a => exact ⟨network.unlinked, network.staff, network.watched, network.patient⟩
  | apply id value stamp =>
      exact network.step (fun signal => signal.moves_applyDeferred s.kernel.now id value stamp)
        fun signal => (@Signal.Turns.arrived id signal value stamp).design

theorem Network.drainUpTo (network : s.Network k) (count time : Nat) :
    (drainUpTo count s time).1.Network k := by
  refine drainUpTo_induction (P := fun t => t.Network k) network
    (fun s₁ payload queue _ network => ?_) count
  have taken : ({ s₁ with queue } : Simulation Script ω).Network k :=
    ⟨network.unlinked, network.staff, network.watched, network.patient⟩
  exact taken.fire payload

/-- When a tick is drained, what is left is for later ones. -/
theorem later_of_drainUpTo {σ : Type} {z d : Simulation σ ω} {count time : Nat}
    (enough : z.queue.size ≤ count) (ahead : ∀ e ∈ z.queue.toList, time ≤ e.time)
    (drained : drainUpTo count z time = (d, .ok ())) : ∀ e ∈ d.queue.toList, time < e.time := by
  induction count generalizing z with
  | zero =>
      cases drained
      have undue := EventQueue.popDue_of_empty (Nat.le_zero.mp enough) time
      exact fun e listed => EventQueue.lt_of_popDue undue ahead listed
  | succ count ih =>
      rw [drainUpTo] at drained
      cases popped : z.queue.popDue time with
      | none =>
          rw [popped] at drained
          cases drained
          exact fun e listed => EventQueue.lt_of_popDue popped ahead listed
      | some due =>
          obtain ⟨payload, queue⟩ := due
          simp only [popped] at drained
          obtain ⟨enough', ahead'⟩ := left_of_fire popped enough ahead
          generalize fire { z with queue } payload = result at drained enough' ahead'
          obtain ⟨z₁, e | _⟩ := result
          · cases drained
          · exact ih enough' ahead' drained

namespace Sinking

theorem purge (sinking : s.Sinking k allowed) : s.purge.Sinking k allowed := by
  have patient := sinking.patient.of_extended (does_purge s).goes.extended
  obtain ⟨signals, kernel⟩ := kernel_purge s
  have now := now_purge s
  have same := purge_eq s
  refine ⟨⟨?_, ?_, fun t a listed => ?_, patient⟩, ?_, ?_, fun id marked => ?_, ?_⟩
  · rw [same]
    exact sinking.unlinked
  · rw [same]
    exact sinking.staff
  · rw [watchers_purge] at listed
    split at listed
    · exact sinking.watched t a (List.mem_filter.mp listed).1
    · exact sinking.watched t a listed
  · rw [now, same]
    exact sinking.later
  · rw [same]
    exact sinking.roused
  · rw [kernel] at marked
    rw [same]
    exact sinking.low id marked
  · rw [same]
    exact sinking.shallow

/-- A network goes on to a tick that is later. -/
theorem advanceTo (sinking : s.Sinking k 0) {time : Nat} (next : s.queue.nextTime? = some time) :
    (s.advanceTo time).1.delta = 0 ∧
      ((s.advanceTo time).2 = .ok () → (s.advanceTo time).1.Sinking k 1) := by
  obtain ⟨e, listed, here⟩ := EventQueue.exists_of_nextTime? next
  have later : s.kernel.now < time := here ▸ sinking.later e listed
  have moved : s.moveClock time =
      ({ s with
          delta := 0
          stats := { s.stats with timeSteps := s.stats.timeSteps + 1 }
          kernel := { s.kernel with now := time } }, .ok ()) := if_pos later
  generalize entered : ({ s with
    delta := 0
    stats := { s.stats with timeSteps := s.stats.timeSteps + 1 }
    kernel := { s.kernel with now := time } } : Simulation Script ω) = m at moved
  have network : m.Network k := by
    rw [← entered]
    exact ⟨sinking.unlinked, sinking.staff, sinking.watched, sinking.patient⟩
  have queue : m.queue = s.queue := by rw [← entered]
  have first : m.pace.delta = 0 := by rw [← entered, pace]
  have now : m.pace.now = time := by rw [← entered, pace]
  have ahead : ∀ e ∈ m.queue.toList, time ≤ e.time := by
    rw [queue]
    exact fun e listed => EventQueue.le_of_nextTime? next listed
  have drains := network.drainUpTo m.queue.size time
  have paced := pace_drainUpTo m m.queue.size time
  rw [← paced] at first now
  unfold Simulation.advanceTo
  rw [moved]
  dsimp only [drain]
  cases drained : Simulation.drainUpTo m.queue.size m time with
  | mk d result =>
      rw [drained] at drains first now
      cases result with
      | error e => exact ⟨first, fun failed => by cases failed⟩
      | ok _ =>
          have left := later_of_drainUpTo (Nat.le_refl _) ahead drained
          simp only [drains.openLink?]
          refine ⟨first, fun _ => drains.sinking first ?_⟩
          rw [show d.kernel.now = time from now]
          exact left

theorem relax (sinking : s.Sinking k 0) : s.Sinking k 1 :=
  { sinking with low := fun id marked => Nat.le_add_right_of_le (sinking.low id marked) }

theorem leaveTick (sinking : s.Sinking k 0) (cap : Option Nat) : Lasts k (s.leaveTick cap) := by
  cases left : s.leaveTick cap with
  | mk s' verdict =>
      have way := way_of_leaveTick left
      generalize s.onward? cap = onward at way
      cases way with
      | held here => exact ⟨sinking.shallow, fun _ => sinking.relax⟩
      | exhausted elsewhere last =>
          refine ⟨sinking.shallow, fun further => ?_⟩
          rcases further with same | same <;> cases same
      | @stopped limit time elsewhere next present before =>
          have network : ({ s with kernel := { s.kernel with now := limit }, delta := 0 } :
              Simulation Script ω).Network k :=
            ⟨sinking.unlinked, sinking.staff, sinking.watched, sinking.patient⟩
          refine ⟨Nat.zero_le _, fun _ => network.sinking rfl fun e listed => ?_⟩
          exact Nat.lt_of_lt_of_le before (EventQueue.le_of_nextTime? next listed)
      | failed elsewhere next inTime advanced =>
          obtain ⟨first, -⟩ := sinking.advanceTo next
          rw [advanced] at first
          refine ⟨first.trans_le (Nat.zero_le _), fun further => ?_⟩
          rcases further with same | same <;> cases same
      | advanced elsewhere next inTime advanced =>
          obtain ⟨first, further⟩ := sinking.advanceTo next
          rw [advanced] at first further
          exact ⟨first.trans_le (Nat.zero_le _), fun _ => further rfl⟩

/-- Another delta cycle is entered where a tier is still to be cleared. -/
theorem nextDelta (sinking : s.Sinking k 0) (idle : s.ready.toList = [])
    (marked : s.kernel.pending ≠ []) : Lasts k (goOn s.nextDelta) := by
  obtain ⟨id, rest, pending⟩ := List.exists_cons_of_ne_nil marked
  have low := sinking.low id (by rw [pending]; exact .head _)
  have tier := k.tier_le id
  have entered : s.nextDelta.1.Sinking k 1 := by
    obtain ⟨delta, deltas, same⟩ := s.nextDelta_spec
    have count : delta = s.delta + 1 := by
      have paced := congrArg Pace.delta (nextDelta_eq s).1
      rw [same] at paced
      exact paced
    rw [same]
    refine ⟨⟨sinking.unlinked, sinking.staff, sinking.watched, sinking.patient⟩, sinking.later,
      fun a listed => ?_, fun id' marked' => ?_, ?_⟩
    · dsimp only at listed
      rw [idle] at listed
      cases listed
    · have low' := sinking.low id' marked'
      dsimp only
      omega
    · dsimp only
      omega
  constructor
  · rw [fst_goOn]
    exact entered.shallow
  · rw [fst_goOn]
    exact fun _ => entered

theorem proceed (sinking : s.Sinking k 0) (idle : s.ready.pop? = none) (cap : Option Nat) :
    Lasts k (s.proceed cap) := by
  have purged := sinking.purge
  have ready : s.purge.ready.toList = [] := by
    rw [purge_eq]
    exact Fifo.pop?_eq_none_iff.mp idle
  rw [proceed_eq, sinking.exchange_eq]
  dsimp only
  cases pending : s.purge.kernel.pending with
  | nil => exact purged.leaveTick cap
  | cons id rest => exact purged.nextDelta ready (by rw [pending]; exact List.cons_ne_nil _ _)

/-! ## Cycles and runs -/

theorem cycle (sinking : s.Sinking k 1) (made : k.Made) {fuel : Nat} {cap : Option Nat}
    {verdict : Verdict} (turned : s.cycle Script.behaviours fuel cap = .ok (s', verdict)) :
    Lasts k (s', verdict) := by
  have commits := sinking.commitPending made
  cases way_of_cycle turned with
  | refused committed =>
      rw [committed] at commits
      refine ⟨commits.shallow, fun goes => ?_⟩
      rcases goes with same | same <;> cases same
  | proceeded committed ran running went =>
      rw [committed] at commits
      have lasts := (commits.runReady made ran).proceed (ready_of_runReady ran) cap
      rw [went] at lasts
      exact lasts
  | @wrapped m s₁ failure _ committed ran stops ends =>
      rw [committed] at commits
      have round := commits.runReady made ran
      have delta : (s₁.wrapUp failure).1.delta = s₁.delta := by
        obtain ⟨stopRequest, same⟩ := s₁.wrapUp_eq failure
        have paced := (pace_purge s₁.commitPending.1).trans (pace_commitPending s₁)
        rw [same]
        exact congrArg Pace.delta paced
      obtain ⟨result, ended, running⟩ := ended_of_wrapUp s₁ failure
      rw [ends] at delta ended
      dsimp only at delta ended
      subst ended
      refine ⟨delta.trans_le round.shallow, fun goes => ?_⟩
      rcases goes with same | same
      · cases same
      · exact absurd (Verdict.ended.inj same) running

theorem loop (sinking : s.Sinking k 1) (made : k.Made) (tactful : s.Tactful)
    (enough : k.shadows.length + 1 ≤ s.maxDeltas) {fuel : Nat} {cap : Option Nat}
    {result : Except SimError Outcome}
    (looped : Simulation.loop Script.behaviours fuel s cap = .ok (s', result)) :
    (result = .ok .suspended → s'.Sinking k 1) ∧ ∀ e, result = .error e → e.isLimit = false := by
  replace looped := way_of_loop looped
  induction looped with
  | ended turned =>
      have lasts := sinking.cycle made turned
      refine ⟨fun suspended => lasts.sinking (.inr (congrArg Verdict.ended suspended)), ?_⟩
      rintro e rfl
      cases told : e.isLimit with
      | false => rfl
      | true =>
          -- The limit would have to be below the count of delta cycles, which all tiers bound.
          obtain ⟨entered, past, -⟩ :=
            exceeds_of_cycle told Script.candid_behaviours tactful turned
          have delta := congrArg Pace.delta entered
          have shallow := lasts.shallow
          dsimp only [pace, Pace.entered] at delta past shallow
          omega
  | again turned further ih =>
      have kept := equipment_cycle turned
      have limit := congrArg Equipment.maxDeltas kept
      exact ih ((sinking.cycle made turned).sinking (.inl rfl)) (tactful.of_equipment kept)
        (enough.trans_eq (Eq.symm limit))

theorem startHook (sinking : s.Sinking k allowed) : s.startHook.1.Sinking k allowed := by
  have same : ∃ hookStarted world, s.startHook.1 = { s with hookStarted, world } := by
    unfold Simulation.startHook
    split
    · exact ⟨s.hookStarted, s.world, rfl⟩
    · cases hooked : s.hook with
      | none => exact ⟨true, s.world, rfl⟩
      | some hook => exact ⟨true, _, rfl⟩
  obtain ⟨hookStarted, world, same⟩ := same
  rw [same]
  exact sinking.elsewhere

theorem run (sinking : s.Sinking k 1) (made : k.Made) (tactful : s.Tactful)
    (enough : k.shadows.length + 1 ≤ s.maxDeltas) {fuel : Nat} {duration : Option Nat}
    {result : Except SimError Outcome}
    (ran : Simulation.run Script.behaviours fuel s duration = .ok (s', result)) :
    (s'.hasEnded = true ∨ s'.Sinking k 1) ∧ ∀ e, result = .error e → e.isLimit = false := by
  have started := sinking.startHook
  have kept := s.equipment_startHook
  have candid := candid_startHook tactful
  cases way_of_run ran with
  | terminated ended =>
      refine ⟨.inl ended, ?_⟩
      rintro e ⟨⟩
      rfl
  | untold running refused =>
      rw [refused] at started candid
      refine ⟨.inr started, ?_⟩
      rintro e ⟨⟩
      exact candid
  | @played s₁ s₂ _ final _ running begun looped concluded =>
      rw [begun] at started kept
      have tactful₁ : s₁.Tactful := tactful.of_equipment kept
      have limit := congrArg Equipment.maxDeltas kept
      obtain ⟨goes, loops⟩ := started.loop made tactful₁ (enough.trans_eq (Eq.symm limit)) looped
      constructor
      · by_cases suspended : final = .ok .suspended
        · have settled := goes suspended
          subst suspended
          cases concluded
          exact .inr settled.elsewhere
        · have ended := s₂.ended_conclude suspended
          rw [concluded] at ended
          exact .inl ended
      · rintro e rfl
        cases told : e.isLimit with
        | false => rfl
        | true =>
            have tactful₂ := tactful₁.of_equipment (equipment_loop looped)
            have failed := loop_told_of_conclude told tactful₂ concluded
            exact told.symm.trans (loops e failed)

end Sinking

/-- A network whose limit leaves it enough delta cycles. -/
structure Calm (k : Kernel) (s : Simulation Script ω) : Prop extends Sinking k 1 s where
  tactful : s.Tactful
  enough : k.shadows.length + 1 ≤ s.maxDeltas

/-! ## Sessions -/

theorem Calm.answer (calm : s.Calm k) (made : k.Made) {fuel : Nat} {call : Call}
    {result : Except SimError Outcome}
    (answered : s.answer Script.behaviours fuel call = .ok (s', result)) :
    (s'.hasEnded = true ∨ s'.Calm k) ∧ ∀ e, result = .error e → e.isLimit = false := by
  obtain ⟨defaultDuration, duration, ran⟩ : ∃ defaultDuration duration,
      Simulation.run Script.behaviours fuel { s with defaultDuration } duration = .ok (s', result) := by
    cases call with
    | run duration => exact ⟨s.defaultDuration, duration, answered⟩
    | runToCompletion => exact ⟨none, none, answered⟩
  have kept := equipment_run ran
  have tactful : ({ s with defaultDuration } : Simulation Script ω).Tactful := calm.tactful
  have limit := congrArg Equipment.maxDeltas kept
  obtain ⟨goes, candid⟩ :=
    Sinking.run (s := { s with defaultDuration }) calm.toSinking.elsewhere made tactful calm.enough ran
  refine ⟨goes.imp_right fun sinking => ⟨sinking, tactful.of_equipment kept, ?_⟩, candid⟩
  exact calm.enough.trans_eq (Eq.symm limit)

/-- No call of a session returns the error that tells of the limit. -/
theorem Calm.play (calm : s.hasEnded = true ∨ s.Calm k) (made : k.Made) {fuel : Nat}
    {moves : List (Move ω)} (limits : ∀ n, .setMaxDeltas n ∈ moves → k.shadows.length + 1 ≤ n)
    (hooks : ∀ h, .setHook h ∈ moves → h.Candid) {results : List (Except SimError Outcome)}
    (played : s.play Script.behaviours fuel moves = .ok (s', results)) :
    ∀ e, .error e ∈ results → e.isLimit = false := by
  induction moves generalizing s results with
  | nil =>
      cases played
      exact fun e listed => by cases listed
  | cons move moves ih =>
      have limits' : ∀ n, .setMaxDeltas n ∈ moves → k.shadows.length + 1 ≤ n :=
        fun n later => limits n (.tail _ later)
      have hooks' : ∀ h, .setHook h ∈ moves → h.Candid := fun h later => hooks h (.tail _ later)
      cases move with
      | setHook hook =>
          refine ih (s := s.setHook hook) (calm.imp_right fun calm => ?_) limits' hooks' played
          refine ⟨calm.toSinking.elsewhere, fun h hooked => ?_, calm.enough⟩
          cases hooked
          exact hooks hook (.head _)
      | setMaxDeltas n =>
          refine ih (s := s.setMaxDeltas n) (calm.imp_right fun calm => ?_) limits' hooks' played
          exact ⟨calm.toSinking.elsewhere, calm.tactful, limits n (.head _)⟩
      | setDefaultDuration defaultDuration =>
          refine ih (s := { s with defaultDuration }) (calm.imp_right fun calm => ?_) limits' hooks'
            played
          exact ⟨calm.toSinking.elsewhere, calm.tactful, calm.enough⟩
      | call call =>
          obtain ⟨s₁, result, results', answered, further, rfl⟩ := play_call played
          have step : (s₁.hasEnded = true ∨ s₁.Calm k) ∧
              ∀ e, result = .error e → e.isLimit = false := by
            rcases calm with ended | calm
            · obtain ⟨defaultDuration, refused⟩ :=
                answer_of_ended (B := Script.behaviours) ended fuel call
              cases refused.symm.trans answered
              refine ⟨.inl ended, ?_⟩
              rintro e ⟨⟩
              rfl
            · exact calm.answer made answered
          intro e listed
          rcases List.mem_cons.mp listed with same | later
          · exact step.2 e same.symm
          · exact ih step.1 limits' hooks' further e later

/-! ## Beginnings -/

/-- The first slots are taken by waiters of a network, and nothing has happened yet. -/
structure Seating (k : Kernel) (count : Nat) (s : Simulation Script ω) : Prop where
  kernel : s.kernel = k
  wellFormed : s.waiters.WellFormed
  filled : s.waiters.slots.size = count
  free : s.waiters.free = []
  staff : ∀ slot waiter, s.waiters.waiter? slot = some waiter →
    waiter.parent = none ∧ ∀ body, waiter.body = some body → k.Assigns slot body
  unlinked : s.link = none
  unhooked : s.hook = none
  queue : s.queue = {}
  first : s.delta = 0

namespace Seating

variable {count : Nat}

theorem empty (k : Kernel) (world : ω) :
    ({ kernel := k, world } : Simulation Script ω).Seating k 0 :=
  ⟨rfl, WaiterTable.wellFormed_empty, rfl, rfl, fun _ _ found => (by cases found), rfl, rfl, rfl, rfl⟩

theorem addWaiter (seating : s.Seating k count) (title : String) {body : Body Script}
    (assigned : k.Assigns count body) : (s.addWaiter title body none).Seating k (count + 1) := by
  have upcoming : s.waiters.upcoming.slot = count := by
    rw [WaiterTable.upcoming, seating.free]
    exact seating.filled
  have inserted : (s.waiters.insert title body none).2.slots.size = count + 1 ∧
      (s.waiters.insert title body none).2.free = [] := by
    unfold WaiterTable.insert
    rw [seating.free]
    exact ⟨(Array.size_push ..).trans (congrArg (· + 1) seating.filled), rfl⟩
  refine ⟨seating.kernel, seating.wellFormed.insert title body none, inserted.1, inserted.2, ?_,
    seating.unlinked, seating.unhooked, seating.queue, seating.first⟩
  intro slot waiter found
  change (s.waiters.insert title body none).2.waiter? slot = some waiter at found
  rw [seating.wellFormed.waiter?_insert, upcoming] at found
  split at found
  · next here =>
      cases found
      refine ⟨rfl, fun body' present => ?_⟩
      cases present
      exact here ▸ assigned
  · exact seating.staff slot waiter found

theorem addShadows (seating : s.Seating k 0) : s.addShadows.Seating k k.shadows.length := by
  have each (done rest : List Shadow) (all : k.shadows = done ++ rest) {s : Simulation Script ω}
      (seating : s.Seating k done.length) :
      (rest.foldl (fun s shadow => s.addWaiter (shadow.processName s.kernel) (.shadow shadow) none)
        s).Seating k k.shadows.length := by
    induction rest generalizing done s with
    | nil =>
        rw [List.append_nil] at all
        rw [all]
        exact seating
    | cons shadow rest ih =>
        have assigned : k.Assigns done.length (.shadow shadow) := by
          rw [Kernel.Assigns, all, List.getElem?_append_right (Nat.le_refl _), Nat.sub_self]
          rfl
        refine ih (done ++ [shadow]) (by rw [all, List.append_assoc]; rfl) ?_
        rw [List.length_append]
        exact seating.addWaiter _ assigned
  unfold Simulation.addShadows
  rw [seating.kernel]
  exact each [] k.shadows rfl seating

theorem addScripts (seating : s.Seating k count) (beyond : k.shadows.length ≤ count)
    (scripts : List Script) :
    ∃ s' count', s.addInstances Script.behaviours (scripts.map .process) = .ok s' ∧
      s'.Seating k count' := by
  induction scripts generalizing s count with
  | nil => exact ⟨s, count, rfl, seating⟩
  | cons script rest ih =>
      exact ih (@addWaiter ω k _ count seating _ (.process script) beyond) (Nat.le_succ_of_le beyond)

end Seating

theorem flattenAll_processes (scripts : List Script) :
    Instance.flattenAll (scripts.map (.process (ω := ω))) = scripts.map .process := by
  induction scripts with
  | nil => rfl
  | cons script rest ih => exact congrArg (.process script :: ·) ih

theorem calm_of_build (made : k.Made) (patient : k.Patient) (scripts : List Script) (world : ω) :
    ∃ s, build Script.behaviours k (scripts.map .process) world = .ok s ∧ s.Sinking k 1 ∧ s.Tactful := by
  obtain ⟨s, count, added, seating⟩ :=
    (Seating.empty k world).addShadows.addScripts (Nat.le_refl _) scripts
  refine ⟨s, ?_, Network.sinking ⟨seating.unlinked, seating.staff, fun t a listed => ?_, ?_⟩
    seating.first fun e listed => ?_, fun h hooked => ?_⟩
  · rw [build, flattenAll_processes]
    exact added
  · rw [seating.kernel, made.sound.atStart.idle.watchers] at listed
    cases listed
  · rw [seating.kernel]
    exact patient
  · rw [seating.queue] at listed
    cases listed
  · cases seating.unhooked.symm.trans hooked

/-- Where all inertial delays are positive, a network has a simulation, and no call on it returns the
error that tells of the limit as long as that limit is more than the number of shadows. -/
theorem shadow_networks_settle (made : k.Made) (patient : k.Patient) (scripts : List Script)
    (world : ω) :
    ∃ s, build Script.behaviours k (scripts.map .process) world = .ok s ∧
      ∀ limit, k.shadows.length + 1 ≤ limit → ∀ (fuel : Nat) (moves : List (Move ω)),
        (∀ n, .setMaxDeltas n ∈ moves → k.shadows.length + 1 ≤ n) →
        (∀ h, .setHook h ∈ moves → h.Candid) →
        ∀ t results, (s.setMaxDeltas limit).play Script.behaviours fuel moves = .ok (t, results) →
          ∀ time n, .error (.deltaCycleLimit time n) ∉ results := by
  obtain ⟨s, built, sinking, tactful⟩ := calm_of_build made patient scripts world
  refine ⟨s, built, fun limit enough fuel moves limits hooks t results played time n listed => ?_⟩
  have calm : (s.setMaxDeltas limit).Calm k := ⟨sinking.elsewhere, tactful, enough⟩
  have candid := Calm.play (.inr calm) made limits hooks played _ listed
  cases candid

/-- A word, the lower half of it, the lowest bit of that, and a lamp that takes a tick. -/
def display : Kernel :=
  (((((Kernel.declare {} "word" (.bits ⟨5, some 0, some 16, 4⟩) none).2.declareSlice "half" ⟨0⟩ 2
    0).toOption.map Prod.snd).bind fun k =>
      (k.declareBit "low" ⟨1⟩ 0).toOption.map Prod.snd).getD {}).declare "lamp" (.bool false) (some 1)
    |>.2

theorem made_display : display.Made := by
  have five : Bits.unsigned 5 4 = .ok ⟨5, some 0, some 16, 4⟩ := rfl
  have word := Kernel.Made.empty.signal "word" (.bits (.unsigned five)) none
  have half := @Kernel.Made.slice _ _ word "half" ⟨0⟩ 2 0 _ rfl
  have low := @Kernel.Made.bit _ _ half "low" ⟨1⟩ 0 _ rfl
  exact low.signal "lamp" (.bool false) (some 1)

theorem patient_display : display.Patient := by
  have each : ∀ s ∈ display.signals.toList, ∀ i ∈ s.inertia, 0 < i.delay := by decide
  intro id s i found inertia
  exact each s (Array.mem_toList_iff.mpr (Array.mem_of_getElem? found)) i inertia

/-- A script that lights the lamp at the start and sets the word at the third tick. -/
def keystroke : Script := ((⟨"keystroke", []⟩ : Script).write 0 ⟨3⟩ (.bool true)).write 3 ⟨0⟩ (.int 2)

/-- A simulation of the display and the keystroke. -/
def typing : Simulation Script Unit :=
  ({ kernel := display, world := () } : Simulation Script Unit).addShadows.addWaiter "keystroke"
    (.process keystroke) none

/-- Whether a session has these results. -/
def answersWith (results : List (Except SimError Outcome)) :
    Except Stuck (Simulation Script Unit × List (Except SimError Outcome)) → Bool
  | .ok (_, results') => decide (results' = results)
  | .error _ => false

/-- The two shadows of the display take a limit of three delta cycles, and settle under it. -/
theorem the_display_settles_under_a_limit_of_three :
    display.shadows.length = 2 ∧
      answersWith [.ok .suspended]
        ((typing.setMaxDeltas 3).play Script.behaviours 20 [.call (.run (some 2))]) = true ∧
      ∀ fuel t results, (typing.setMaxDeltas 3).play Script.behaviours fuel
        [.call (.run (some 2)), .call (.run none)] = .ok (t, results) →
          ∀ time n, .error (.deltaCycleLimit time n) ∉ results := by
  obtain ⟨s, built, settles⟩ :=
    shadow_networks_settle made_display patient_display [keystroke] ()
  obtain rfl : typing = s :=
    Except.ok.inj ((show build Script.behaviours display [.process keystroke] () = .ok typing
      from rfl).symm.trans built)
  refine ⟨by decide, by decide +kernel, fun fuel t results played => ?_⟩
  refine settles 3 (by decide) fuel _ (fun n listed => ?_) (fun h listed => ?_) t results played
  · simp at listed
  · simp at listed

end Simulation

end DeltaCycle
