import Mathlib.Logic.Relation
import DeltaCycle.Proofs.Horizon
import DeltaCycle.Proofs.Standing
import DeltaCycle.Proofs.Agenda

/-!
# Stages

A run goes through stages: one signal is updated, one waiter is resumed, one entry of the queue is
taken, and so on. No stage moves the clock back, and none leaves anything scheduled for a tick that
has passed.
-/

set_option autoImplicit false

namespace DeltaCycle

variable {σ ω : Type}

namespace Simulation

/-- From one stage of a run to the next one. -/
inductive Stage (B : Behaviours σ ω) (cap : Option Nat) :
    Simulation σ ω → Simulation σ ω → Prop where
  | collected (s : Simulation σ ω) : Stage B cap s { s with kernel := { s.kernel with pending := [] } }
  | updated (s : Simulation σ ω) (id : SignalId) : Stage B cap s (s.step id Signal.update).1
  | resumed {s s' : Simulation σ ω} {a : Arming} {ready : Fifo Arming}
      {result : Except SimError Unit} (popped : s.ready.pop? = some (a, ready))
      (ran : runWaiter B { s with ready } a = some (s', result)) : Stage B cap s s'
  | exchanged (s : Simulation σ ω) : Stage B cap s s.exchange.1
  | purged (s : Simulation σ ω) : Stage B cap s s.purge
  | entered (s : Simulation σ ω) : Stage B cap s s.nextDelta.1
  | moved {s s' : Simulation σ ω} {time : Nat} (next : s.queue.nextTime? = some time)
      (moves : s.moveClock time = (s', .ok ())) : Stage B cap s s'
  | taken {s : Simulation σ ω} {payload : Payload} {queue : EventQueue}
      (popped : s.queue.popDue s.kernel.now = some (payload, queue)) :
      Stage B cap s (fire { s with queue } payload).1
  | sent (s : Simulation σ ω) (bridge : Bridge ω) : Stage B cap s (s.sendOutputs bridge).1
  | stopped {s : Simulation σ ω} {time limit : Nat} (next : s.queue.nextTime? = some time)
      (capped : cap = some limit) (ahead : s.kernel.now ≤ limit) (before : limit < time) :
      Stage B cap s { s with kernel := { s.kernel with now := limit }, delta := 0 }
  | granted (s : Simulation σ ω) (stopRequest : Option String) :
      Stage B cap s { s with kernel := { s.kernel with stopRequest } }
  | noted {s s' : Simulation σ ω} (same : s'.office = s.office) : Stage B cap s s'

/-- From one stage of a run to a later one. -/
abbrev Stages (B : Behaviours σ ω) (cap : Option Nat) :
    Simulation σ ω → Simulation σ ω → Prop :=
  Relation.ReflTransGen (Stage B cap)

/-- Nothing is overdue, and what is scheduled has an order. -/
structure Timely (s : Simulation σ ω) : Prop where
  ahead : ∀ e ∈ s.queue.toList, s.kernel.now ≤ e.time
  numbered : s.queue.Numbered

variable {B : Behaviours σ ω} {cap : Option Nat} {s s' : Simulation σ ω}

/-! ## What every stage keeps -/

theorem Timely.of_does {log : List Happening} (does : Does s log s') (timely : s.Timely) :
    s'.Timely := by
  have keeps := does.goes.keeps (P := fun d => d.Ahead ∧ d.queue.Numbered)
    (fun step both => ⟨step.ahead both.1, step.numbered both.2⟩) ⟨timely.ahead, timely.numbered⟩
  exact ⟨keeps.1, keeps.2⟩

/-- Every stage is a course of the desk. -/
theorem Stage.does (stage : Stage B cap s s') (staffed : s.Staffed) : ∃ log, Does s log s' := by
  cases stage with
  | collected => exact ⟨_, .of_goes (Desk.Step.collected s.kernel s.queue).goes rfl⟩
  | updated id => exact ⟨_, s.does_step id⟩
  | @resumed _ a ready result popped ran =>
      have taken : Does s [] { s with ready } := .of_desk rfl rfl
      exact ⟨_, taken.trans (does_runWaiter staffed ran)⟩
  | exchanged =>
      obtain ⟨writes, exchanges, -⟩ := s.does_exchange
      exact ⟨_, exchanges⟩
  | purged => exact ⟨_, s.does_purge⟩
  | entered => exact ⟨_, s.does_nextDelta⟩
  | moved next moves =>
      have clock := s.does_moveClock fun e listed => EventQueue.le_of_nextTime? next listed
      rw [moves] at clock
      exact ⟨_, clock⟩
  | taken popped =>
      obtain ⟨log, -, fires⟩ := does_fire popped
      exact ⟨log, fires⟩
  | sent bridge => exact ⟨_, s.does_sendOutputs bridge⟩
  | @stopped time limit next capped ahead before =>
      refine ⟨_, .of_goes (Desk.Step.ticked s.kernel fun e listed => ?_).goes rfl⟩
      exact Nat.le_trans (Nat.le_of_lt before) (EventQueue.le_of_nextTime? next listed)
  | granted stopRequest =>
      exact ⟨_, .of_goes (Desk.Step.noted s.kernel s.queue stopRequest _).goes rfl⟩
  | noted same => exact ⟨_, .of_office same⟩

/-- No stage moves the clock back. -/
theorem Stage.now_le (stage : Stage B cap s s') (timely : s.Timely) :
    s.kernel.now ≤ s'.kernel.now := by
  cases stage with
  | updated id => exact Nat.le_of_eq (now_step s id _).symm
  | resumed popped ran =>
      exact Nat.le_of_eq (now_of_surroundings (surroundings_runWaiter ran)).symm
  | exchanged => exact Nat.le_of_eq (now_exchange s).symm
  | purged => exact Nat.le_of_eq (now_purge s).symm
  | entered => exact Nat.le_of_eq (congrArg Kernel.now (kernel_nextDelta s)).symm
  | moved next moves =>
      obtain ⟨e, listed, time⟩ := EventQueue.exists_of_nextTime? next
      rw [now_moveClock moves, ← time]
      exact timely.ahead e listed
  | @taken payload queue popped =>
      cases payload with
      | wake a => exact Nat.le_refl _
      | apply id value stamp => exact Nat.le_of_eq (now_step { s with queue } id _).symm
  | sent bridge => exact Nat.le_of_eq (now_sendOutputs s bridge).symm
  | stopped next capped ahead before => exact ahead
  | noted same => exact Nat.le_of_eq (congrArg Kernel.now (kernel_of_office same)).symm
  | _ => exact Nat.le_refl _

/-- What is timely stays so, and the clock never goes back. -/
theorem Stages.keeps (stages : Stages B cap s s') (staffed : s.Staffed) (timely : s.Timely) :
    s'.Staffed ∧ s'.Timely ∧ s.kernel.now ≤ s'.kernel.now := by
  induction stages with
  | refl => exact ⟨staffed, timely, Nat.le_refl _⟩
  | tail _ stage ih =>
      obtain ⟨staffed', timely', later⟩ := ih
      obtain ⟨log, does⟩ := stage.does staffed'
      exact ⟨does.staffed staffed', timely'.of_does does, Nat.le_trans later (stage.now_le timely')⟩

/-! ## Runs go through stages -/

theorem stages_updateAll (s : Simulation σ ω) (failure : Except SimError Unit)
    (ids : List SignalId) : Stages B cap s (s.updateAll failure ids).1 := by
  induction ids generalizing s failure with
  | nil => exact .refl
  | cons id rest ih => exact .head (.updated s id) (ih _ _)

theorem stages_commitPending (s : Simulation σ ω) : Stages B cap s s.commitPending.1 :=
  .head (.collected s) (stages_updateAll _ _ _)

theorem stages_runReady {fuel : Nat} {failure failure' : Except SimError Unit}
    (ran : runReady B fuel s failure = .ok (s', failure')) : Stages B cap s s' := by
  replace ran := way_of_runReady ran
  induction ran with
  | idle idle => exact .refl
  | resumed popped resumed further ih => exact .head (.resumed popped resumed) ih

theorem stages_drainUpTo (s : Simulation σ ω) (count : Nat) :
    Stages B cap s (drainUpTo count s s.kernel.now).1 := by
  induction count generalizing s with
  | zero => exact .refl
  | succ count ih =>
      rw [drainUpTo]
      cases popped : s.queue.popDue s.kernel.now with
      | none => exact .refl
      | some due =>
          obtain ⟨payload, queue⟩ := due
          have taken : Stage B cap s (fire { s with queue } payload).1 := .taken popped
          have now : (fire { s with queue } payload).1.kernel.now = s.kernel.now := by
            cases payload with
            | wake a => rfl
            | apply id value stamp => exact now_step { s with queue } id _
          dsimp only
          generalize fire { s with queue } payload = result at taken now
          obtain ⟨s₁, e | _⟩ := result
          · exact .single taken
          · rw [← show s₁.kernel.now = s.kernel.now from now]
            exact .head taken (ih s₁)

theorem stages_advanceTo {time : Nat} (next : s.queue.nextTime? = some time) :
    Stages B cap s (s.advanceTo time).1 := by
  unfold advanceTo
  cases moves : s.moveClock time with
  | mk m result =>
      cases result with
      | error e =>
          -- The clock does not move, and the next delta cycle is not entered.
          have refused : m = s.nextDelta.1 := by
            unfold moveClock at moves
            split at moves
            · cases moves
            · generalize s.nextDelta = result at moves
              obtain ⟨_, _ | _⟩ := result <;> cases moves
              rfl
          dsimp only
          rw [refused]
          exact .single (.entered s)
      | ok _ =>
          have moved : Stage B cap s m := .moved next moves
          have drains : Stages B cap m (drainUpTo m.queue.size m time).1 := by
            rw [← now_moveClock moves]
            exact stages_drainUpTo m _
          change Stages B cap m (m.drain time).1 at drains
          dsimp only
          generalize m.drain time = result at drains
          obtain ⟨d, e | _⟩ := result
          · exact .head moved drains
          · dsimp only at drains ⊢
            cases d.openLink? with
            | none => exact .head moved drains
            | some l => exact .head moved (drains.tail (.sent d l.bridge))

theorem stages_leaveTick (inTime : ∀ limit ∈ cap, s.kernel.now ≤ limit) :
    Stages B cap s (s.leaveTick cap).1 := by
  exact leaveTick_induction (P := fun _ t => Stages B cap s t) .refl
    (fun limit time next present before =>
      .single (.stopped next present (inTime limit present) before))
    fun time next _ => stages_advanceTo next

theorem stages_proceed (inTime : ∀ limit ∈ cap, s.kernel.now ≤ limit) :
    Stages B cap s (s.proceed cap).1 := by
  have exchanges : Stage B cap s s.exchange.1 := .exchanged s
  have now := s.now_exchange
  have way := s.way_of_proceed
  generalize s.settled? = settled at way
  cases way with
  | failed exchanged proceeds =>
      rw [exchanged] at exchanges
      rw [proceeds]
      exact .single exchanges
  | @entered m sent exchanged proceeds =>
      rw [exchanged] at exchanges
      rw [proceeds, fst_goOn]
      exact ((Relation.ReflTransGen.single exchanges).tail (.purged m)).tail (.entered _)
  | @settled m exchanged pending proceeds =>
      rw [exchanged] at exchanges now
      rw [proceeds]
      refine ((Relation.ReflTransGen.single exchanges).tail (.purged m)).trans
        (stages_leaveTick fun limit present => ?_)
      rw [now_purge, now]
      exact inTime limit present

theorem stages_wrapUp (s : Simulation σ ω) (failure : Except SimError Unit) :
    Stages B cap s (s.wrapUp failure).1 := by
  obtain ⟨stopRequest, same⟩ := s.wrapUp_eq failure
  rw [same]
  exact ((stages_commitPending s).tail (.purged _)).tail (.granted _ stopRequest)

theorem stages_cycle {fuel : Nat} {verdict : Verdict} (inTime : ∀ limit ∈ cap, s.kernel.now ≤ limit)
    (turned : s.cycle B fuel cap = .ok (s', verdict)) : Stages B cap s s' := by
  have commits : Stages B cap s s.commitPending.1 := stages_commitPending s
  cases way_of_cycle turned with
  | refused committed =>
      rw [committed] at commits
      exact commits
  | @proceeded m s₁ _ committed ran running went =>
      rw [committed] at commits
      have now : s₁.kernel.now = s.kernel.now := by
        obtain ⟨resumes, kept⟩ := surroundings_runReady ran
        have commits := s.now_commitPending
        rw [committed] at commits
        exact (now_of_surroundings kept).trans commits
      have proceeds : Stages B cap s₁ (s₁.proceed cap).1 :=
        stages_proceed fun limit present => Nat.le_trans (Nat.le_of_eq now) (inTime limit present)
      rw [went] at proceeds
      exact commits.trans ((stages_runReady ran).trans proceeds)
  | @wrapped m s₁ failure _ committed ran stops ends =>
      rw [committed] at commits
      have wraps : Stages B cap s₁ (s₁.wrapUp failure).1 := stages_wrapUp s₁ failure
      rw [ends] at wraps
      exact commits.trans ((stages_runReady ran).trans wraps)

/-- The clock does not pass the cap from cycle to cycle. -/
theorem inTime_of_cycle {fuel : Nat} (inTime : ∀ limit ∈ cap, s.kernel.now ≤ limit)
    (turned : s.cycle B fuel cap = .ok (s', .again)) : ∀ limit ∈ cap, s'.kernel.now ≤ limit := by
  rintro limit rfl
  exact le_cap_of_cycle (inTime limit rfl) turned

theorem Comes.stages {fuel granted : Nat} {c : Simulation σ ω}
    (comes : Comes B cap fuel s granted c) (inTime : ∀ limit ∈ cap, s.kernel.now ≤ limit) :
    Stages B cap s c ∧ ∀ limit ∈ cap, c.kernel.now ≤ limit := by
  induction comes with
  | here => exact ⟨.refl, inTime⟩
  | again turned comes ih =>
      obtain ⟨stages, inTime'⟩ := ih (inTime_of_cycle inTime turned)
      exact ⟨(stages_cycle inTime turned).trans stages, inTime'⟩

theorem stages_loop {fuel : Nat} {result : Except SimError Outcome}
    (inTime : ∀ limit ∈ cap, s.kernel.now ≤ limit)
    (looped : loop B fuel s cap = .ok (s', result)) : Stages B cap s s' := by
  obtain ⟨granted, c, comes, ends⟩ := comes_of_loop looped
  obtain ⟨stages, inTime'⟩ := comes.stages inTime
  exact stages.trans (stages_cycle inTime' ends)

theorem stages_startHook (s : Simulation σ ω) : Stages B cap s s.startHook.1 :=
  .single (.noted s.office_startHook)

theorem InTime.of_startHook {s₀ : Simulation σ ω} (inTime : s.InTime)
    (started : s.startHook = (s₀, .ok ())) : s₀.InTime := by
  have same := s.office_startHook
  rw [started] at same
  exact inTime.of_office same

/-- A run goes through stages. -/
theorem stages_run {fuel : Nat} {duration : Option Nat} {result : Except SimError Outcome}
    (inTime : s.InTime) (ran : run B fuel s duration = .ok (s', result)) :
    Stages B (s.startHook.1.capOf duration) s s' := by
  have starts : ∀ {cap}, Stages B cap s s.startHook.1 := s.stages_startHook
  cases way_of_run ran with
  | terminated ended => exact .refl
  | untold running started =>
      rw [started] at starts ⊢
      exact starts
  | @played s₁ s₂ _ final _ running started looped concluded =>
      rw [started] at starts ⊢
      have within := (inTime.of_startHook started).le_capOf duration
      have concludes : Stage B (s₁.capOf duration) s₂ (s₂.conclude final).1 :=
        .noted (s₂.office_conclude final)
      rw [concluded] at concludes
      exact starts.trans ((stages_loop within looped).tail concludes)

end Simulation

end DeltaCycle
