import DeltaCycle.Proofs.Fuel
import DeltaCycle.Proofs.Surroundings
import DeltaCycle.Proofs.Ways

/-!
# Simulations at rest

A round that leaves nothing pending and nothing to exchange leaves the simulation at rest:
another round would do nothing. What the loop does next is then decided by the cap and by
the event queue alone.
-/

set_option autoImplicit false

namespace DeltaCycle

namespace Simulation

variable {σ ω : Type} {B : Behaviours σ ω}

/-- Nothing is left to do at this tick but what the event queue holds. -/
structure AtRest (s : Simulation σ ω) : Prop where
  pending : s.kernel.pending = []
  ready : s.ready.pop? = none
  stopRequest : s.kernel.stopRequest = none
  stale : s.stale = {}
  link : ∀ l, s.openLink? = some l → l.awaitingReply = false ∧ l.changed = false

/-- What the loop does with a simulation at rest: it stops at the cap, or moves the clock to
the next event, or stops for lack of events. -/
def leaveTick (s : Simulation σ ω) (cap : Option Nat) : Simulation σ ω × Verdict :=
  if cap = some s.kernel.now then
    (s, .ended (.ok .suspended))
  else
    match s.queue.nextTime? with
    | none => (s, .ended (.ok (.finished .noMoreEvents)))
    | some time =>
        match cap.filter (· < time) with
        | some cap =>
            ({ s with kernel := { s.kernel with now := cap }, delta := 0 },
              .ended (.ok .suspended))
        | none => goOn (s.advanceTo time)

theorem proceed_eq (s : Simulation σ ω) (cap : Option Nat) :
    s.proceed cap =
      match s.exchange with
      | (s, .error e) => (s, .ended (.error e))
      | (s, .ok exchanged) =>
          if !s.purge.kernel.pending.isEmpty || exchanged then goOn s.purge.nextDelta
          else s.purge.leaveTick cap := rfl

/-! ## Leaving a tick -/

/-- The tick of the next event, if that is where the clock goes on to under the cap. -/
def onward? (s : Simulation σ ω) (cap : Option Nat) : Option Nat :=
  if cap = some s.kernel.now then none
  else s.queue.nextTime?.filter fun time => cap.all (time ≤ ·)

theorem onward?_of_le {s : Simulation σ ω} {cap : Option Nat} {time : Nat}
    (elsewhere : cap ≠ some s.kernel.now) (next : s.queue.nextTime? = some time)
    (inTime : ∀ limit ∈ cap, time ≤ limit) : s.onward? cap = some time := by
  have allowed : cap.all (time ≤ ·) = true :=
    (Option.all_eq_true _ cap).mpr fun limit present => decide_eq_true (inTime limit present)
  rw [onward?, if_neg elsewhere, next, Option.filter_some, if_pos allowed]

theorem onward?_of_lt {s : Simulation σ ω} {cap : Option Nat} {limit time : Nat}
    (next : s.queue.nextTime? = some time) (present : limit ∈ cap) (before : limit < time) :
    s.onward? cap = none := by
  cases present
  rw [onward?, next, Option.filter_some, Option.all_some, decide_eq_false (Nat.not_le.mpr before),
    if_neg Bool.false_ne_true, ite_self]

/-- What depends on the tick that the clock goes on to is decided in the way that the loop does. -/
theorem elim_onward? {α : Type} (s : Simulation σ ω) (cap : Option Nat) (stays : α)
    (goes : Nat → α) :
    (s.onward? cap).elim stays goes =
      if cap = some s.kernel.now then stays
      else
        match s.queue.nextTime? with
        | none => stays
        | some time =>
            match cap.filter (· < time) with
            | some _ => stays
            | none => goes time := by
  unfold onward?
  split
  · rfl
  · cases s.queue.nextTime? with
    | none => rfl
    | some time =>
        rw [Option.filter_some]
        cases cap with
        | none => rfl
        | some limit =>
            simp only [Option.all_some, Option.filter_some, decide_eq_true_eq]
            by_cases before : limit < time
            · rw [if_neg (Nat.not_le.mpr before), if_pos before, Option.elim_none]
            · rw [if_pos (Nat.not_lt.mp before), if_neg before, Option.elim_some]

/-- The ways of leaving a tick, each with the tick that the clock goes on to: the clock is held at
the cap, or no event is left, or it stops at a cap before the next event, or it goes on to that
event, which may fail. -/
inductive LeaveWay (s : Simulation σ ω) (cap : Option Nat) :
    Option Nat → Simulation σ ω → Verdict → Prop where
  | held (here : cap = some s.kernel.now) : LeaveWay s cap none s (.ended (.ok .suspended))
  | exhausted (elsewhere : cap ≠ some s.kernel.now) (last : s.queue.nextTime? = none) :
      LeaveWay s cap none s (.ended (.ok (.finished .noMoreEvents)))
  | stopped {limit time : Nat} (elsewhere : cap ≠ some s.kernel.now)
      (next : s.queue.nextTime? = some time) (present : limit ∈ cap) (before : limit < time) :
      LeaveWay s cap none { s with kernel := { s.kernel with now := limit }, delta := 0 }
        (.ended (.ok .suspended))
  | failed {s' : Simulation σ ω} {time : Nat} {e : SimError} (elsewhere : cap ≠ some s.kernel.now)
      (next : s.queue.nextTime? = some time) (inTime : ∀ limit ∈ cap, time ≤ limit)
      (advanced : s.advanceTo time = (s', .error e)) :
      LeaveWay s cap (some time) s' (.ended (.error e))
  | advanced {s' : Simulation σ ω} {time : Nat} (elsewhere : cap ≠ some s.kernel.now)
      (next : s.queue.nextTime? = some time) (inTime : ∀ limit ∈ cap, time ≤ limit)
      (advanced : s.advanceTo time = (s', .ok ())) : LeaveWay s cap (some time) s' .again

theorem way_of_leaveTick {s s' : Simulation σ ω} {cap : Option Nat} {verdict : Verdict}
    (left : s.leaveTick cap = (s', verdict)) : s.LeaveWay cap (s.onward? cap) s' verdict := by
  unfold leaveTick at left
  split at left
  · next here =>
      cases left
      rw [onward?, if_pos here]
      exact .held here
  · next elsewhere =>
      cases next : s.queue.nextTime? with
      | none =>
          simp only [next] at left
          cases left
          rw [onward?, if_neg elsewhere, next]
          exact .exhausted elsewhere next
      | some time =>
          simp only [next] at left
          cases capped : cap.filter (· < time) with
          | some limit =>
              simp only [capped] at left
              cases left
              obtain ⟨present, early⟩ := Option.filter_eq_some_iff.mp capped
              have before := of_decide_eq_true early
              rw [onward?_of_lt next present before]
              exact .stopped elsewhere next present before
          | none =>
              have inTime : ∀ limit ∈ cap, time ≤ limit := fun limit present => by
                simpa using Option.filter_eq_none_iff.mp capped limit present
              simp only [capped] at left
              rw [onward?_of_le elsewhere next inTime]
              cases advanced : s.advanceTo time with
              | mk s₁ result =>
                  rw [advanced] at left
                  obtain e | ⟨⟩ := result
                  · cases left
                    exact .failed elsewhere next inTime advanced
                  · cases left
                    exact .advanced elsewhere next inTime advanced

/-- What is known of the cap, the clock and the queue decides how a tick is left. -/
theorem leaveTick_of_way {s s' : Simulation σ ω} {cap onward : Option Nat} {verdict : Verdict}
    (way : s.LeaveWay cap onward s' verdict) : s.leaveTick cap = (s', verdict) := by
  have uncapped {time : Nat} (inTime : ∀ limit ∈ cap, time ≤ limit) :
      cap.filter (· < time) = none :=
    Option.filter_eq_none_iff.mpr fun limit present => by simpa using inTime limit present
  cases way with
  | held here => exact if_pos here
  | exhausted elsewhere last => rw [leaveTick, if_neg elsewhere, last]
  | @stopped limit time elsewhere next present before =>
      have capped : cap.filter (· < time) = some limit :=
        Option.filter_eq_some_iff.mpr ⟨present, decide_eq_true before⟩
      rw [leaveTick, if_neg elsewhere, next]
      dsimp only
      rw [capped]
  | failed elsewhere next inTime advanced | advanced elsewhere next inTime advanced =>
      rw [leaveTick, if_neg elsewhere, next]
      dsimp only
      rw [uncapped inTime, advanced]
      rfl

theorem onward?_of_way {s s' : Simulation σ ω} {cap onward : Option Nat} {verdict : Verdict}
    (way : s.LeaveWay cap onward s' verdict) : s.onward? cap = onward := by
  cases way with
  | held here => exact if_pos here
  | exhausted elsewhere last => rw [onward?, if_neg elsewhere, last, Option.filter_none]
  | stopped elsewhere next present before => exact onward?_of_lt next present before
  | failed elsewhere next inTime advanced | advanced elsewhere next inTime advanced =>
      exact onward?_of_le elsewhere next inTime

/-- What is kept where the clock stops, and where it goes on to the next event, is kept by leaving
the tick. -/
theorem leaveTick_induction {P : Option Nat → Simulation σ ω → Prop} {s : Simulation σ ω}
    {cap : Option Nat} (kept : P none s)
    (stops : ∀ limit time, s.queue.nextTime? = some time → limit ∈ cap → limit < time →
      P none { s with kernel := { s.kernel with now := limit }, delta := 0 })
    (advances : ∀ time, s.queue.nextTime? = some time → (∀ limit ∈ cap, time ≤ limit) →
      P (some time) (s.advanceTo time).1) :
    P (s.onward? cap) (s.leaveTick cap).1 := by
  cases left : s.leaveTick cap with
  | mk s' verdict =>
      have way := way_of_leaveTick left
      generalize s.onward? cap = onward at way
      cases way with
      | held here => exact kept
      | exhausted elsewhere last => exact kept
      | stopped elsewhere next present before => exact stops _ _ next present before
      | failed elsewhere next inTime advanced | advanced elsewhere next inTime advanced =>
          have advances := advances _ next inTime
          rwa [advanced] at advances

/-- A loop that ends in good order where it leaves a tick changes the clock at most. -/
theorem stops_of_leaveTick {s s' : Simulation σ ω} {cap : Option Nat} {outcome : Outcome}
    (left : s.leaveTick cap = (s', .ended (.ok outcome))) :
    s.onward? cap = none ∧
      ∃ now delta, s' = { s with kernel := { s.kernel with now }, delta } := by
  have way := way_of_leaveTick left
  generalize s.onward? cap = onward at way
  cases way with
  | held here => exact ⟨rfl, _, _, rfl⟩
  | exhausted elsewhere last => exact ⟨rfl, _, _, rfl⟩
  | stopped elsewhere next present before => exact ⟨rfl, _, _, rfl⟩

/-! ## The end of a cycle -/

/-- What is left of a simulation at the end of a cycle after the exchange with the bridge, if the
tick has nothing more to do. -/
def settled? (s : Simulation σ ω) : Option (Simulation σ ω) :=
  match s.exchange with
  | (_, .error _) => none
  | (s, .ok sent) => if !s.purge.kernel.pending.isEmpty || sent then none else some s.purge

/-- The ways of the end of a cycle in which nobody failed or asked for the end: the exchange fails,
or the next delta cycle is entered, or the tick has nothing more to do and is left. -/
inductive ProceedWay (s : Simulation σ ω) : Option (Simulation σ ω) → Prop where
  | failed {m : Simulation σ ω} {e : SimError} (exchanged : s.exchange = (m, .error e))
      (proceeds : ∀ cap, s.proceed cap = (m, .ended (.error e))) : ProceedWay s none
  | entered {m : Simulation σ ω} {sent : Bool} (exchanged : s.exchange = (m, .ok sent))
      (proceeds : ∀ cap, s.proceed cap = goOn m.purge.nextDelta) : ProceedWay s none
  | settled {m : Simulation σ ω} (exchanged : s.exchange = (m, .ok false))
      (pending : m.purge.kernel.pending = [])
      (proceeds : ∀ cap, s.proceed cap = m.purge.leaveTick cap) : ProceedWay s (some m.purge)

theorem way_of_proceed (s : Simulation σ ω) : s.ProceedWay s.settled? := by
  unfold settled?
  cases exchanged : s.exchange with
  | mk m result =>
      cases result with
      | error e =>
          refine .failed exchanged fun cap => ?_
          rw [proceed_eq, exchanged]
      | ok sent =>
          dsimp only
          split
          · next busy =>
              refine .entered exchanged fun cap => ?_
              rw [proceed_eq, exchanged]
              exact if_pos busy
          · next idle =>
              have quiet := idle
              simp only [Bool.not_eq_true, Bool.or_eq_false_iff, Bool.not_eq_false',
                List.isEmpty_iff] at quiet
              obtain ⟨pending, rfl⟩ := quiet
              refine .settled exchanged pending fun cap => ?_
              rw [proceed_eq, exchanged]
              exact if_neg idle

/-- A run that ends in good order after a round in which nobody asked for it has settled. -/
theorem settled_of_proceed_ended {s s' : Simulation σ ω} {cap : Option Nat} {outcome : Outcome}
    (ended : s.proceed cap = (s', .ended (.ok outcome))) :
    ∃ m, s.exchange = (m, .ok false) ∧ m.purge.kernel.pending = [] ∧
      s.settled? = some m.purge ∧ m.purge.leaveTick cap = (s', .ended (.ok outcome)) := by
  have way := way_of_proceed s
  generalize s.settled? = settled at way ⊢
  cases way with
  | failed exchanged proceeds => cases (proceeds cap).symm.trans ended
  | entered exchanged proceeds => exact absurd ((proceeds cap).symm.trans ended) goOn_ne_ended
  | @settled m exchanged pending proceeds =>
      exact ⟨m, exchanged, pending, rfl, (proceeds cap).symm.trans ended⟩

/-- What the parts of it keep is kept by going on after a round, whatever the cap. -/
theorem proceed_induction {P : Simulation σ ω → Prop} {s : Simulation σ ω}
    (exchanges : P s.exchange.1) (purges : ∀ s, P s → P s.purge)
    (enters : ∀ s, P s → P s.nextDelta.1)
    (stops : ∀ s now, P s → P { s with kernel := { s.kernel with now }, delta := 0 })
    (advances : ∀ s time, P s → P (s.advanceTo time).1) (cap : Option Nat) :
    P (s.proceed cap).1 := by
  have way := way_of_proceed s
  generalize s.settled? = settled at way
  cases way with
  | failed exchanged proceeds =>
      rw [exchanged] at exchanges
      rw [proceeds]
      exact exchanges
  | entered exchanged proceeds =>
      rw [exchanged] at exchanges
      rw [proceeds, fst_goOn]
      exact enters _ (purges _ exchanges)
  | settled exchanged pending proceeds =>
      rw [exchanged] at exchanges
      have purged := purges _ exchanges
      rw [proceeds]
      exact leaveTick_induction (P := fun _ t => P t) purged
        (fun limit _ _ _ _ => stops _ limit purged) fun time _ _ => advances _ time purged

/-! ## Ticks -/

theorem now_report (s : Simulation σ ω) (id : SignalId) (old : Value) :
    (s.report id old).1.kernel.now = s.kernel.now := by
  obtain ⟨world, told⟩ := s.report_spec id old
  rw [told]

theorem now_step (s : Simulation σ ω) (id : SignalId) (f : Signal → Signal × Commit) :
    (s.step id f).1.kernel.now = s.kernel.now :=
  (moved_step s id f).now

theorem now_commitPending (s : Simulation σ ω) :
    s.commitPending.1.kernel.now = s.kernel.now :=
  (moved_updateAll { s with kernel := { s.kernel with pending := [] } } _ _).now

theorem now_of_surroundings {s s' : Simulation σ ω} {stats : RunStats}
    (same : s'.surroundings = { s.surroundings with stats }) : s'.kernel.now = s.kernel.now :=
  Kernel.now_of_committed (committed_of_surroundings same)

theorem now_drainUpTo (s : Simulation σ ω) (count time : Nat) :
    (drainUpTo count s time).1.kernel.now = s.kernel.now :=
  (moved_drainUpTo s count time).now

theorem now_takeIn (s : Simulation σ ω) (changed : Bool) (values : List (SignalId × Value)) :
    (s.takeIn changed values).1.kernel.now = s.kernel.now := by
  induction values generalizing s changed with
  | nil => rfl
  | cons value rest ih =>
      have written := Kernel.now_of_committed
        (Kernel.edits_write s.kernel value.1 value.2 false).committed
      rw [takeIn]
      generalize s.kernel.write value.1 value.2 false = result at written ⊢
      obtain ⟨kernel, _ | _⟩ := result
      · rfl
      · exact (ih { s with kernel } _).trans written

theorem now_readReply (s : Simulation σ ω) (l : Link ω) :
    (s.readReply l).1.kernel.now = s.kernel.now := by
  unfold readReply
  split
  · dsimp only
    generalize l.bridge.receive _ _ = result
    obtain ⟨world, _ | values⟩ := result
    · rfl
    · exact now_takeIn _ false values
  · rfl

theorem now_sendOutputs (s : Simulation σ ω) (bridge : Bridge ω) :
    (s.sendOutputs bridge).1.kernel.now = s.kernel.now := by
  unfold sendOutputs
  generalize bridge.send _ _ _ = result
  obtain ⟨world, _ | _⟩ := result <;> rfl

theorem now_exchange (s : Simulation σ ω) : s.exchange.1.kernel.now = s.kernel.now := by
  unfold exchange
  cases s.openLink? with
  | none => rfl
  | some l =>
      dsimp only
      have read := now_readReply s l
      generalize s.readReply l = result at read ⊢
      obtain ⟨s', _ | inbound⟩ := result
      · exact read
      · dsimp only
        have sent := (now_sendOutputs s' l.bridge).trans read
        split
        · generalize s'.sendOutputs l.bridge = result at sent ⊢
          obtain ⟨s'', _ | _⟩ := result <;> exact sent
        · exact read

theorem kernel_nextDelta (s : Simulation σ ω) : s.nextDelta.1.kernel = s.kernel := by
  unfold nextDelta
  dsimp only
  split <;> rfl

theorem now_moveClock {s s' : Simulation σ ω} {time : Nat}
    (moved : s.moveClock time = (s', .ok ())) : s'.kernel.now = time := by
  unfold moveClock at moved
  split at moved
  · cases moved
    rfl
  · generalize s.nextDelta = entered at moved
    obtain ⟨s₁, _ | _⟩ := entered
    · cases moved
    · cases moved
      rfl

/-- Moving the clock to a later tick forgets at which tick and in which delta cycle of it the
simulation was. -/
theorem advanceTo_of_lt {s : Simulation σ ω} {now delta time : Nat}
    (later : s.kernel.now < time) (later' : now < time) :
    ({ s with kernel := { s.kernel with now }, delta } : Simulation σ ω).advanceTo time =
      s.advanceTo time := by
  have moved : ({ s with kernel := { s.kernel with now }, delta } : Simulation σ ω).moveClock
      time = s.moveClock time := by
    rw [show s.moveClock time = _ from if_pos later]
    exact if_pos later'
  unfold advanceTo
  rw [moved]

theorem now_of_advanceTo {s s' : Simulation σ ω} {time : Nat}
    (advanced : s.advanceTo time = (s', .ok ())) : s'.kernel.now = time := by
  obtain ⟨m, d, moved, drained, world, link, rfl⟩ := parts_of_advanceTo advanced
  have now := now_drainUpTo m m.queue.size time
  rw [show drainUpTo m.queue.size m time = (d, .ok ()) from drained] at now
  exact now.trans (now_moveClock moved)

/-! ## Coming to rest -/

/-- A commit phase does nothing where nothing is marked. -/
theorem commitPending_of_unmarked {s : Simulation σ ω} (unmarked : s.kernel.pending = []) :
    s.commitPending = (s, .ok ()) := by
  have same : ({ s with kernel := { s.kernel with pending := [] } } : Simulation σ ω) = s :=
    congrArg (fun pending => { s with kernel := { s.kernel with pending } }) unmarked.symm
  simp only [commitPending, unmarked, List.reverse_nil, updateAll, same]

/-- A round in which nobody is ready does nothing. -/
theorem runReady_of_idle {s : Simulation σ ω} (idle : s.ready.pop? = none) (fuel : Nat)
    (failure : Except SimError Unit) : runReady B fuel s failure = .ok (s, failure) := by
  cases fuel with
  | zero =>
      have empty := Fifo.isEmpty_iff.mpr (Fifo.pop?_eq_none_iff.mp idle)
      simp only [runReady, empty, if_true]
  | succ fuel => simp only [runReady, idle]

/-- A round has run all that were ready. -/
theorem ready_of_runReady {fuel : Nat} {s s' : Simulation σ ω}
    {failure failure' : Except SimError Unit}
    (ran : runReady B fuel s failure = .ok (s', failure')) : s'.ready.pop? = none := by
  replace ran := way_of_runReady ran
  induction ran with
  | idle idle => exact idle
  | resumed popped resumed further ih => exact ih

theorem stopRequest_write (k : Kernel) (id : SignalId) (value : Value) (fromRule : Bool) :
    (k.write id value fromRule).1.stopRequest = k.stopRequest := by
  unfold Kernel.write
  cases k.proposal id value fromRule <;> rfl

/-- Values that are taken in change the kernel alone, and do not ask for the end. -/
theorem takeIn_eq (s : Simulation σ ω) (changed : Bool) (values : List (SignalId × Value)) :
    ∃ kernel, (s.takeIn changed values).1 = { s with kernel } ∧
      kernel.stopRequest = s.kernel.stopRequest := by
  induction values generalizing s changed with
  | nil => exact ⟨s.kernel, rfl, rfl⟩
  | cons value rest ih =>
      have written := stopRequest_write s.kernel value.1 value.2 false
      rw [takeIn]
      generalize s.kernel.write value.1 value.2 false = result at written ⊢
      obtain ⟨kernel, _ | _⟩ := result
      · exact ⟨s.kernel, rfl, rfl⟩
      · obtain ⟨kernel', same, kept⟩ := ih { s with kernel }
          (changed || proposalDiffers s.kernel kernel value.1)
        exact ⟨kernel', same, kept.trans written⟩

/-- After a reply was read none is awaited; nothing else about the link changes. -/
theorem readReply_eq {s s' : Simulation σ ω} {l : Link ω} {inbound : Bool}
    (linked : s.openLink? = some l) (read : s.readReply l = (s', .ok inbound)) :
    s'.ready = s.ready ∧ s'.kernel.stopRequest = s.kernel.stopRequest ∧
      s'.openLink? = some { l with awaitingReply := false } := by
  unfold readReply at read
  split at read
  · dsimp only at read
    generalize l.bridge.receive _ _ = received at read
    obtain ⟨world, _ | values⟩ := received
    · cases read
    · dsimp only at read
      obtain ⟨kernel, same, kept⟩ := takeIn_eq
        { s.changeLink fun l => { l with awaitingReply := false } with world } false values
      rw [read] at same
      dsimp only at same
      subst same
      refine ⟨rfl, kept, ?_⟩
      obtain ⟨present, isOpen⟩ := Option.filter_eq_some_iff.mp linked
      simp only [openLink?, changeLink, present, Option.map_some]
      exact Option.filter_eq_some_iff.mpr ⟨rfl, isOpen⟩
  · next settled =>
      cases read
      refine ⟨rfl, rfl, linked.trans ?_⟩
      cases l
      simp only [Bool.not_eq_true] at settled
      subst settled
      rfl

theorem foldl_modify (f : Signal → Signal) (k : Kernel) (ids : List SignalId) :
    ∃ signals, ids.foldl (fun k id => k.modify id f) k = { k with signals } := by
  induction ids generalizing k with
  | nil => exact ⟨k.signals, rfl⟩
  | cons id rest ih =>
      obtain ⟨signals, same⟩ := ih (k.modify id f)
      exact ⟨signals, same⟩

/-- Purging changes wait lists alone. -/
theorem kernel_purge (s : Simulation σ ω) :
    ∃ signals, s.purge.kernel = { s.kernel with signals } := by
  unfold purge
  dsimp only
  rw [Std.HashSet.fold_eq_foldl_toList]
  exact foldl_modify _ s.kernel s.stale.toList

theorem now_purge (s : Simulation σ ω) : s.purge.kernel.now = s.kernel.now := by
  obtain ⟨signals, purged⟩ := kernel_purge s
  rw [purged]

/-- A simulation is at rest after a round in which nobody failed or asked for the end, if the
exchange sends nothing and nothing is pending. -/
theorem atRest_of_exchange {s s' : Simulation σ ω} (ready : s.ready.pop? = none)
    (running : s.kernel.stopRequest = none) (exchanged : s.exchange = (s', .ok false))
    (settled : s'.purge.kernel.pending = []) : s'.purge.AtRest := by
  obtain ⟨signals, purged⟩ := kernel_purge s'
  unfold exchange at exchanged
  cases linked : s.openLink? with
  | none =>
      simp only [linked] at exchanged
      cases exchanged
      refine ⟨settled, ready, ?_, rfl, fun l found => ?_⟩
      · rw [purged]
        exact running
      · exact absurd (linked.symm.trans found) nofun
  | some l =>
      simp only [linked] at exchanged
      cases read : s.readReply l with
      | mk s₁ result =>
          cases result with
          | error e => simp [read] at exchanged
          | ok inbound =>
              obtain ⟨ready', running', linked'⟩ := readReply_eq linked read
              simp only [read] at exchanged
              split at exchanged
              · generalize s₁.sendOutputs l.bridge = sent at exchanged
                obtain ⟨s₂, _ | _⟩ := sent <;> cases exchanged
              · next quiet =>
                  cases exchanged
                  refine ⟨settled, ?_, ?_, rfl, fun l' found => ?_⟩
                  · exact (congrArg Fifo.pop? ready').trans ready
                  · rw [purged]
                    exact running'.trans running
                  · obtain rfl := Option.some.inj (linked'.symm.trans found)
                    simp only [Bool.or_eq_true, not_or, Bool.not_eq_true] at quiet
                    exact ⟨rfl, quiet.2⟩

theorem purge_of_stale {s : Simulation σ ω} (clean : s.stale = {}) : s.purge = s := by
  unfold purge
  dsimp only
  rw [Std.HashSet.fold_eq_foldl_toList, clean, Std.HashSet.toList_empty]
  exact congrArg (fun stale => { s with stale }) clean.symm

namespace AtRest

variable {s : Simulation σ ω} (rest : s.AtRest)

include rest

theorem commitPending_eq : s.commitPending = (s, .ok ()) := commitPending_of_unmarked rest.pending

theorem runReady_eq (fuel : Nat) (failure : Except SimError Unit) :
    runReady B fuel s failure = .ok (s, failure) := runReady_of_idle rest.ready fuel failure

theorem exchange_eq : s.exchange = (s, .ok false) := by
  unfold exchange
  cases linked : s.openLink? with
  | none => rfl
  | some l =>
      obtain ⟨answered, unchanged⟩ := rest.link l linked
      simp only [readReply, answered, unchanged, Bool.false_eq_true, if_false, Bool.or_self]

/-- A further round does nothing, so a cycle only leaves the tick. -/
theorem cycle_eq (fuel : Nat) (cap : Option Nat) :
    cycle B fuel s cap = .ok (s.leaveTick cap) := by
  unfold cycle
  rw [rest.commitPending_eq]
  dsimp only
  rw [rest.runReady_eq]
  simp only [rest.stopRequest, proceed_eq, rest.exchange_eq, purge_of_stale rest.stale,
    rest.pending, List.isEmpty_nil, Bool.not_true, Bool.or_self, Bool.false_eq_true, if_false]

end AtRest

end Simulation

end DeltaCycle
