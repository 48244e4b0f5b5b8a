import DeltaCycle.Proofs.EffectiveMarks
import DeltaCycle.Proofs.GuiseRuns
import DeltaCycle.Proofs.Kinship
import DeltaCycle.Proofs.Pace

/-!
# Cycles of padded simulations

Where additional marks make no difference to the commit phases, a padded simulation goes through the
same cycles. Only at the end of a tick, where nothing else is marked, they cost a delta cycle in which
nothing happens.
-/

set_option autoImplicit false

namespace DeltaCycle

variable {σ ω : Type}

theorem Kernel.Holds.of_size {known : SignalId → Prop} {k k' : Kernel} (holds : k.Holds known)
    (same : k'.signals.size = k.signals.size) : k'.Holds known := by
  intro id there
  simpa [Kernel.signal?, same] using holds id there

namespace Simulation

variable {s s' : Simulation σ ω} {c : Counters} {marks : List SignalId}

/-! ## Counters -/

/-- The counters keep within `slack` of twice those of a simulation, and so does their limit. -/
structure Follows (c : Counters) (s : Simulation σ ω) (slack : Nat) : Prop where
  kept : s.delta ≤ s.maxDeltas
  wide : 2 * s.maxDeltas < c.limit
  close : c.delta ≤ 2 * s.delta + slack

namespace Follows

variable {slack : Nat}

theorem of_pace (follows : Follows c s slack) (same : s'.pace = s.pace) : Follows c s' slack := by
  obtain ⟨-, rest⟩ := Pace.mk.inj same
  obtain ⟨delta, -, limit⟩ := rest
  constructor
  · rw [delta, limit]
    exact follows.kept
  · rw [limit]
    exact follows.wide
  · rw [delta]
    exact follows.close

theorem mono (follows : Follows c s 0) : Follows c s 1 :=
  ⟨follows.kept, follows.wide, Nat.le_succ_of_le follows.close⟩

/-- Both enter a delta cycle. -/
theorem nextDelta (follows : Follows c s 1) (entered : s.nextDelta = (s', .ok ()))
    (marks : List SignalId) :
    ∃ c', (s.padded c marks).nextDelta = (s'.padded c' marks, .ok ()) ∧ Follows c' s' 0 := by
  obtain ⟨kept, wide, close⟩ := follows
  unfold Simulation.nextDelta at entered ⊢
  dsimp only at entered ⊢
  split at entered
  · cases entered
  · next within =>
      cases entered
      have within' : ¬c.limit < c.delta + 1 := by omega
      refine ⟨⟨c.delta + 1, c.deltas + 1, c.limit⟩, if_neg within', ?_, wide, ?_⟩
      · dsimp only
        omega
      · dsimp only
        omega

/-- The padded simulation alone enters a delta cycle. -/
theorem falter (follows : Follows c s 0) (marks : List SignalId) :
    ∃ c', (s.padded c marks).nextDelta = (s.padded c' marks, .ok ()) ∧ Follows c' s 1 := by
  obtain ⟨kept, wide, close⟩ := follows
  have within : ¬c.limit < c.delta + 1 := by omega
  exact ⟨⟨c.delta + 1, c.deltas + 1, c.limit⟩, if_neg within, kept, wide, Nat.succ_le_succ close⟩

theorem moveClock (follows : Follows c s 1) {time : Nat} (moved : s.moveClock time = (s', .ok ()))
    (marks : List SignalId) :
    ∃ c', (s.padded c marks).moveClock time = (s'.padded c' marks, .ok ()) ∧ Follows c' s' 0 := by
  have now : (s.padded c marks).kernel.now = s.kernel.now := rfl
  unfold Simulation.moveClock at moved ⊢
  rw [now]
  split at moved
  · next later =>
      cases moved
      rw [if_pos later]
      exact ⟨⟨0, c.deltas, c.limit⟩, rfl, Nat.zero_le _, follows.wide, Nat.zero_le _⟩
  · next here =>
      rw [if_neg here]
      cases entered : s.nextDelta with
      | mk m result =>
          obtain e | ⟨⟩ := result
          · simp [entered] at moved
          · obtain ⟨c', entered', follows'⟩ := follows.nextDelta entered marks
            simp only [entered] at moved
            cases moved
            rw [entered']
            exact ⟨c', rfl, follows'.kept, follows'.wide, follows'.close⟩

end Follows

/-! ## Leaving a tick -/

/-- The result is not the error that tells of the limit of delta cycles. -/
def Unlimited {α : Type} (result : Except SimError α) : Prop :=
  ∀ time limit, result ≠ .error (.deltaCycleLimit time limit)

theorem moveClock_of_unlimited {time : Nat} {result : Except SimError Unit}
    (moved : s.moveClock time = (s', result)) (unlimited : Unlimited result) : result = .ok () := by
  unfold moveClock at moved
  split at moved
  · cases moved
    rfl
  · cases entered : s.nextDelta with
    | mk m outcome =>
        obtain e | ⟨⟩ := outcome
        · rw [entered] at moved
          cases moved
          obtain ⟨-, -, told⟩ := exceeds_of_nextDelta entered
          exact absurd (congrArg Except.error told) (unlimited _ _)
        · rw [entered] at moved
          cases moved
          rfl

theorem drained_padded (s : Simulation σ ω) (c : Counters) (marks : List SignalId)
    (count time : Nat) : (s.padded c marks).drained count time = s.drained count time := by
  induction count generalizing s with
  | zero => rfl
  | succ count ih =>
      have queue : (s.padded c marks).queue = s.queue := rfl
      simp only [drained, queue]
      cases s.queue.popDue time with
      | none => rfl
      | some due =>
          obtain ⟨payload, rest⟩ := due
          have fires : fire { s.padded c marks with queue := rest } payload =
              paddedWith c marks (fire { s with queue := rest } payload) :=
            fire_padded { s with queue := rest } c marks payload
          have same : changeOfPayload? { s.padded c marks with queue := rest } payload =
              changeOfPayload? { s with queue := rest } payload := by
            cases payload with
            | wake a => rfl
            | apply id value stamp => exact changeOf?_padded { s with queue := rest } c marks id _
          dsimp only
          rw [fires, same]
          rcases fire { s with queue := rest } payload with ⟨s₁, _ | _⟩
          · rfl
          · exact congrArg (_ ++ ·) (ih s₁)

namespace Follows

theorem advanceTo (follows : Follows c s 1) {time : Nat} {result : Except SimError Unit}
    (advanced : s.advanceTo time = (s', result)) (unlimited : Unlimited result)
    (marks : List SignalId) :
    ∃ c', (s.padded c marks).advanceTo time = (s'.padded c' marks, result) ∧ Follows c' s' 0 ∧
      (s.padded c marks).arrived time = s.arrived time := by
  unfold Simulation.advanceTo at advanced ⊢
  unfold arrived
  cases moved : s.moveClock time with
  | mk m outcome =>
      obtain e | ⟨⟩ := outcome
      · rw [moved] at advanced
        cases advanced
        cases moveClock_of_unlimited moved unlimited
      · obtain ⟨c', moved', follows'⟩ := follows.moveClock moved marks
        have drains : (m.padded c' marks).drain time = paddedWith c' marks (m.drain time) :=
          drainUpTo_padded m c' marks m.queue.size time
        have paced : (m.drain time).1.pace = m.pace := pace_drainUpTo m m.queue.size time
        rw [moved] at advanced
        rw [moved']
        refine ⟨c', ?_⟩
        dsimp only at advanced ⊢
        rw [drains]
        generalize m.drain time = drained at advanced paced ⊢
        obtain ⟨t, e | ⟨⟩⟩ := drained
        · cases advanced
          exact ⟨rfl, follows'.of_pace paced, drained_padded m c' marks _ time⟩
        · have linked : (t.padded c' marks).openLink? = t.openLink? := rfl
          have following := follows'.of_pace paced
          dsimp only [paddedWith] at advanced ⊢
          rw [linked]
          cases opened : t.openLink? with
          | none =>
              rw [opened] at advanced
              cases advanced
              exact ⟨rfl, following, drained_padded m c' marks _ time⟩
          | some l =>
              rw [opened] at advanced
              dsimp only at advanced ⊢
              obtain ⟨world, link, sent, -⟩ := sendOutputs_spec t l.bridge
              rw [sendOutputs_padded, advanced]
              rw [advanced] at sent
              refine ⟨rfl, following.of_pace ?_, drained_padded m c' marks _ time⟩
              rw [show s' = { t with world, link } from sent]
              rfl

/-- A padded simulation leaves a tick in the same way. -/
theorem leaveTick (follows : Follows c s 1) {cap : Option Nat} {verdict : Verdict}
    (left : s.leaveTick cap = (s', verdict))
    (unlimited : ∀ result, verdict = .ended result → Unlimited result) (marks : List SignalId) :
    ∃ c', (s.padded c marks).leaveTick cap = (s'.padded c' marks, verdict) ∧
      (s.padded c marks).departures cap = s.departures cap ∧ Follows c' s' 1 ∧
      (verdict = .again → Follows c' s' 0) := by
  have onward : (s.padded c marks).onward? cap = s.onward? cap := rfl
  have way := way_of_leaveTick left
  rw [departures_eq, departures_eq, onward]
  generalize s.onward? cap = onward at way
  cases way with
  | held here => exact ⟨c, leaveTick_of_way (.held here), rfl, follows, nofun⟩
  | exhausted elsewhere last =>
      exact ⟨c, leaveTick_of_way (.exhausted elsewhere last), rfl, follows, nofun⟩
  | stopped elsewhere next present before =>
      exact ⟨⟨0, c.deltas, c.limit⟩, leaveTick_of_way (.stopped elsewhere next present before), rfl,
        ⟨Nat.zero_le _, follows.wide, Nat.zero_le _⟩, nofun⟩
  | @failed _ _ e elsewhere next inTime advanced =>
      have fine : Unlimited (α := Unit) (.error e) := fun at_ limit failed => by
        cases failed
        exact unlimited _ rfl at_ limit rfl
      obtain ⟨c', advanced', follows', same⟩ := follows.advanceTo advanced fine marks
      exact ⟨c', leaveTick_of_way (.failed elsewhere next inTime advanced'), same, follows'.mono,
        nofun⟩
  | advanced elsewhere next inTime advanced =>
      obtain ⟨c', advanced', follows', same⟩ := follows.advanceTo advanced nofun marks
      exact ⟨c', leaveTick_of_way (.advanced elsewhere next inTime advanced'), same, follows'.mono,
        fun _ => follows'⟩

end Follows

theorem pending_advanceTo (s : Simulation σ ω) (time : Nat) :
    (s.advanceTo time).1.kernel.pending = s.kernel.pending := by
  unfold advanceTo
  obtain ⟨now, delta, deltas, timeSteps, clocked⟩ := moveClock_spec s time
  have moved : (s.moveClock time).1.kernel.pending = s.kernel.pending := by
    rw [clocked]
  generalize s.moveClock time = result at moved
  obtain ⟨m, _ | _⟩ := result
  · exact moved
  · have drained := pending_of_padded (f := (·.drain time))
      fun c marks => drainUpTo_padded m c marks m.queue.size time
    replace drained := drained.trans moved
    dsimp only at drained ⊢
    generalize m.drain time = result at drained ⊢
    obtain ⟨t, _ | _⟩ := result
    · exact drained
    · dsimp only at drained ⊢
      cases t.openLink? with
      | none => exact drained
      | some l =>
          have sent := pending_of_padded (f := (·.sendOutputs l.bridge))
            fun c marks => t.sendOutputs_padded c marks l.bridge
          exact sent.trans drained

theorem pending_leaveTick (s : Simulation σ ω) (cap : Option Nat) :
    (s.leaveTick cap).1.kernel.pending = s.kernel.pending := by
  exact leaveTick_induction (P := fun _ t => t.kernel.pending = s.kernel.pending) rfl
    (fun _ _ _ _ _ => rfl) fun time _ _ => pending_advanceTo s time

theorem ready_of_suspended {cap : Option Nat}
    (left : s.leaveTick cap = (s', .ended (.ok .suspended))) : s'.ready = s.ready := by
  obtain ⟨-, now, delta, rfl⟩ := stops_of_leaveTick left
  rfl

/-! ## Rounds -/

/-- What a round and the exchange after it come to, without the exchange if a waiter failed or a
process asked for the end. -/
def bids? (B : Behaviours σ ω) (fuel : Nat) (s : Simulation σ ω) : Option (Simulation σ ω) :=
  match runReady B fuel s (.ok ()) with
  | .error _ => none
  | .ok (s, failure) =>
      if failure.isOk && s.kernel.stopRequest.isNone then some s.exchange.1 else some s

/-- In a round that begins here, other behaviours leave no other marks that make a difference to the
next commit phase. -/
def tacit (B B' : Behaviours σ ω) (fuel : Nat) (s : Simulation σ ω) : Bool :=
  match s.bids? B fuel, s.bids? B' fuel with
  | some t, some t' =>
      decide (t.kernel.effective t'.kernel.pending = t.kernel.effective t.kernel.pending)
  | _, _ => true

section Rounds

variable {known : SignalId → Prop} {B B' : Behaviours σ ω}

theorem bids?_of_round {fuel : Nat} {failure : Except SimError Unit}
    (ran : runReady B fuel s (.ok ()) = .ok (s', failure)) :
    s.bids? B fuel =
      if failure.isOk && s'.kernel.stopRequest.isNone then some s'.exchange.1 else some s' := by
  rw [bids?, ran]

theorem bids?_mono {fuel more : Nat} (bid : s.bids? B fuel = some s') (le : fuel ≤ more) :
    s.bids? B more = some s' := by
  unfold bids? at bid ⊢
  cases ran : runReady B fuel s (.ok ()) with
  | error stuck => simp [ran] at bid
  | ok played =>
      have longer := Outlasts.mono (fun fuel => runReady_outlasts fuel s (.ok ())) ran nofun le
      rw [ran] at bid
      rw [longer]
      exact bid

theorem bids?_padded (peeks : B.Peeks known B') (holds : s.kernel.Holds known) (c : Counters)
    {fuel : Nat} (bid : s.bids? B fuel = some s') (more : Pads known s.kernel.pending marks) :
    ∃ marks', Pads known s'.kernel.pending marks' ∧
      (s.padded c marks).bids? B' fuel = some (s'.padded c marks') := by
  unfold bids? at bid ⊢
  cases ran : runReady B fuel s (.ok ()) with
  | error stuck => simp [ran] at bid
  | ok played =>
      obtain ⟨m, failure⟩ := played
      obtain ⟨marks₁, more₁, ran'⟩ := runReady_padded peeks holds c ran more
      have running : (m.padded c marks₁).kernel.stopRequest = m.kernel.stopRequest := rfl
      simp only [ran] at bid
      simp only [ran', running]
      split at bid
      · next going =>
          cases bid
          obtain ⟨marks₂, more₂, exchanged⟩ := exchange_padded c more₁
          rw [if_pos going, exchanged]
          exact ⟨marks₂, more₂, rfl⟩
      · next stopped =>
          cases bid
          rw [if_neg stopped]
          exact ⟨marks₁, more₁, rfl⟩

/-- A round is tacit if the reads that are added are of signals without inertia that keep their
values. -/
theorem tacit_of_steady (peeks : B.Peeks known B') (holds : s.kernel.Holds known) {fuel : Nat}
    (steady : ∀ t, s.bids? B fuel = some t → ∀ id, known id → t.kernel.steady id = true) :
    s.tacit B B' fuel = true := by
  unfold tacit
  cases bid : s.bids? B fuel with
  | none => rfl
  | some t =>
      obtain ⟨marks, pads, bid'⟩ := bids?_padded peeks holds s.counters bid (.refl known _)
      have there : s.bids? B' fuel = some (t.padded s.counters marks) := bid'
      rw [there]
      exact decide_eq_true (Kernel.effective_of_pads pads (steady t bid))

/-- With the same behaviours, a padded simulation with the same marks leaves the same marks. -/
theorem bids?_same (c : Counters) {fuel : Nat} (bid : s.bids? B fuel = some s') :
    (s.padded c s.kernel.pending).bids? B fuel = some (s'.padded c s'.kernel.pending) := by
  obtain ⟨marks, more, bid'⟩ :=
    bids?_padded (.refl (fun _ => False) B) (fun _ => False.elim) c bid (.refl _ _)
  rw [← more.eq_of_none]
  exact bid'

theorem exchange_same (c : Counters) :
    (s.padded c s.kernel.pending).exchange = paddedWith c s.exchange.1.kernel.pending s.exchange := by
  obtain ⟨marks, more, exchanged⟩ := exchange_padded (s := s) c (.refl (fun _ => False) _)
  rw [← more.eq_of_none]
  exact exchanged

/-- Where the round of a simulation is tacit, a padded one leaves no other marks that make a
difference. -/
theorem effective_of_tacit (peeks : B.Peeks known B') (holds : s.kernel.Holds known)
    (unmarked : s.kernel.pending = []) {fuel enough : Nat} (tacit : s.tacit B B' enough = true)
    (le : fuel ≤ enough) (bid : s.bids? B fuel = some s')
    (bid' : (s.padded c []).bids? B' fuel = some (s'.padded c marks)) :
    s'.kernel.effective marks = s'.kernel.effective s'.kernel.pending := by
  rw [← unmarked] at bid'
  have longer := bids?_mono bid le
  obtain ⟨marks', -, there⟩ := bids?_padded peeks holds s.counters longer (.refl known _)
  have longer' := bids?_mono bid' le
  have same := bids?_same c there
  cases longer'.symm.trans same
  have there' : s.bids? B' enough = some (s'.padded s.counters marks') := there
  rw [Simulation.tacit, longer, there'] at tacit
  exact of_decide_eq_true tacit

end Rounds

end Simulation

end DeltaCycle
