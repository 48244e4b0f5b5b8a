import DeltaCycle.Proofs.Pace
import DeltaCycle.Proofs.Equipment
import DeltaCycle.Proofs.RefusedWrites
import DeltaCycle.Proofs.Stages

/-!
# Ticks

When a run goes on to a tick, everything that is scheduled for it, and nothing else, leaves the
queue in the order in which it was scheduled. All of it is done before anybody is resumed there. A
hook that refuses a change on the way is the only thing that cuts this short.
-/

set_option autoImplicit false

namespace DeltaCycle

variable {σ ω : Type}

/-- What an entry that comes due does to the signals. -/
def Kernel.fires (k : Kernel) : Payload → Kernel
  | .wake _ => k
  | .apply id value stamp => k.modify id fun s => (s.applyDeferred value stamp).1

/-- A value that comes due is committed or dropped, and not put off. -/
theorem Signal.commit_applyDeferred (s : Signal) (value : Value) (stamp : Nat) :
    (s.applyDeferred value stamp).2 = .unchanged ∨
      ∃ old woken, (s.applyDeferred value stamp).2 = .changed old woken := by
  cases inertia : s.inertia with
  | none =>
      rw [applyDeferred_of_prompt inertia]
      exact .inl rfl
  | some i =>
      rw [applyDeferred_of_inertial inertia]
      split
      · rcases s.apply_cases value with ⟨-, kept⟩ | ⟨-, waits, woken, changed⟩
        · exact .inl (by rw [kept])
        · exact .inr ⟨s.val, woken, by rw [changed]⟩
      · exact .inl rfl

namespace Simulation

/-- Fires entries in order, up to the first that fails. -/
def fireAll : Simulation σ ω → List Payload → Simulation σ ω × Except SimError Unit
  | s, [] => (s, .ok ())
  | s, payload :: rest =>
      match s.fire payload with
      | (s, .ok _) => fireAll s rest
      | (s, .error e) => (s, .error e)

/-- The tick was drained: everything that was scheduled for it has left the queue and was fired in
the order in which it was scheduled, and nobody was resumed meanwhile. -/
structure Drains (q d : Simulation σ ω) (time : Nat) : Prop where
  left : d.queue.agenda = q.queue.agenda.filter (·.1 ≠ time)
  fired : ∃ m, q.moveClock time = (m, .ok ()) ∧
    fireAll { m with queue := d.queue } (q.queue.dueAt time) = (d, .ok ())
  kernel : d.kernel = (q.queue.dueAt time).foldl Kernel.fires { q.kernel with now := time }
  waiters : d.waiters = q.waiters
  resumes : d.stats.resumes = q.stats.resumes

/-- The hook refused to be told of a change. -/
def Refuses (s : Simulation σ ω) (e : SimError) : Prop :=
  ∃ hook change world, s.hook = some hook ∧ (hook.change change world).2 = .error e

/-- The ways of going on to a tick: the clock stands at it and the limit forbids another delta
cycle, or the hook refuses a change, or the tick is drained and the outputs go to the bridge. -/
inductive AdvanceWay (q : Simulation σ ω) (time : Nat) :
    Simulation σ ω × Except SimError Unit → Prop where
  | exceeded {m : Simulation σ ω} (here : q.kernel.now = time) (kept : m.queue = q.queue) :
      AdvanceWay q time (m, .error (.deltaCycleLimit q.kernel.now q.maxDeltas))
  | refused {d : Simulation σ ω} {e : SimError} (refuses : q.Refuses e) :
      AdvanceWay q time (d, .error e)
  | drained {d : Simulation σ ω} (drains : Drains q d time) (link : Option (Link ω)) (world : ω)
      {result : Except SimError Unit}
      (sent : ∀ e, result = .error e → ∃ cause, e = .cosimulation cause) :
      AdvanceWay q time ({ d with link, world }, result)

variable {B : Behaviours σ ω} {s s' q d m : Simulation σ ω} {time : Nat}

/-! ## Firing -/

theorem report_withQueue (s : Simulation σ ω) (queue : EventQueue) (id : SignalId) (old : Value) :
    ({ s with queue } : Simulation σ ω).report id old =
      ({ (s.report id old).1 with queue }, (s.report id old).2) := by
  unfold report
  dsimp only
  split
  · split <;> rfl
  · rfl

/-- An entry that comes due does not look at the queue. -/
theorem fire_withQueue (s : Simulation σ ω) (queue : EventQueue) (payload : Payload) :
    ({ s with queue } : Simulation σ ω).fire payload =
      ({ (s.fire payload).1 with queue }, (s.fire payload).2) := by
  cases payload with
  | wake a => rfl
  | apply id value stamp =>
      simp only [fire, step]
      cases s.kernel.signal? id with
      | none => rfl
      | some signal =>
          rcases signal.commit_applyDeferred value stamp with same | ⟨old, woken, changes⟩
          · simp only [same, absorb]
          · simp only [changes, absorb]
            exact report_withQueue
              { s with
                kernel := s.kernel.modify id fun _ => (signal.applyDeferred value stamp).1
                stats := { s.stats with commits := s.stats.commits + 1 }
                ready := s.ready.append woken }
              queue id old

theorem kernel_fire (s : Simulation σ ω) (payload : Payload) :
    (s.fire payload).1.kernel = s.kernel.fires payload := by
  cases payload with
  | wake a => rfl
  | apply id value stamp => exact kernel_step s id _

theorem refuses_of_report {id : SignalId} {old : Value} {e : SimError}
    (failed : (s.report id old).2 = .error e) : s.Refuses e := by
  unfold report at failed
  split at failed
  · next hook signal hooked known =>
      split at failed
      · exact ⟨hook, _, s.world, hooked, failed⟩
      · cases failed
  · cases failed

/-- An entry that comes due fails only where the hook refuses to be told of a change. -/
theorem refuses_of_fire {payload : Payload} {e : SimError}
    (failed : (s.fire payload).2 = .error e) : s.Refuses e := by
  cases payload with
  | wake a => cases failed
  | apply id value stamp =>
      simp only [fire, step] at failed
      cases known : s.kernel.signal? id with
      | none =>
          rw [known] at failed
          cases failed
      | some signal =>
          simp only [known] at failed
          rcases signal.commit_applyDeferred value stamp with same | ⟨old, woken, changes⟩
          · simp only [same, absorb] at failed
            cases failed
          · simp only [changes, absorb] at failed
            obtain ⟨hook, change, world, hooked, refused⟩ := refuses_of_report failed
            exact ⟨hook, change, world, hooked, refused⟩

/-! ## Draining -/

theorem drainUpTo_of_filed {count : Nat} {filed : List Entry} (files : s.queue.Files filed)
    (enough : s.queue.size ≤ count) (ahead : ∀ e ∈ s.queue.toList, time ≤ e.time)
    (drained : drainUpTo count s time = (d, .ok ())) :
    d.queue.Files (filed.filter (·.time ≠ time)) ∧
      fireAll { s with queue := d.queue } ((filed.filter (·.time = time)).map (·.payload)) =
        (d, .ok ()) := by
  -- Where nothing is due, the queue and the simulation stay.
  have idle {s : Simulation σ ω} {filed : List Entry} (files : s.queue.Files filed)
      (ahead : ∀ e ∈ s.queue.toList, time ≤ e.time) (undue : s.queue.popDue time = none) :
      s.queue.Files (filed.filter (·.time ≠ time)) ∧
        fireAll { s with queue := s.queue } ((filed.filter (·.time = time)).map (·.payload)) =
          (s, .ok ()) := by
    have later : ∀ e ∈ filed, e.time ≠ time := fun e listed =>
      Nat.ne_of_gt (EventQueue.lt_of_popDue undue ahead (files.perm.mem_iff.mpr listed))
    have all : filed.filter (·.time ≠ time) = filed :=
      List.filter_eq_self.mpr fun e listed => decide_eq_true (later e listed)
    have none : filed.filter (·.time = time) = [] :=
      List.filter_eq_nil_iff.mpr fun e listed => by simpa using later e listed
    rw [all, none]
    exact ⟨files, rfl⟩
  induction count generalizing s filed with
  | zero =>
      rw [drainUpTo] at drained
      cases drained
      exact idle files ahead (EventQueue.popDue_of_empty (Nat.le_zero.mp enough) time)
  | succ count ih =>
      rw [drainUpTo] at drained
      cases popped : s.queue.popDue time with
      | none =>
          simp only [popped] at drained
          cases drained
          exact idle files ahead popped
      | some due =>
          obtain ⟨payload, queue⟩ := due
          simp only [popped] at drained
          obtain ⟨before, serial, behind, rfl, earlier, files'⟩ := files.popDue popped
          obtain ⟨enough', ahead'⟩ := left_of_fire popped enough ahead
          have unchanged := queue_fire { s with queue } payload
          have commutes := fire_withQueue s d.queue payload
          have commutes' := fire_withQueue s queue payload
          generalize fire { s with queue } payload = result
            at drained enough' ahead' unchanged commutes'
          obtain ⟨s₁, e | ⟨⟩⟩ := result
          · cases drained
          · dsimp only at drained enough' ahead' unchanged
            obtain ⟨left, fired⟩ := ih (unchanged ▸ files') enough' ahead' drained
            obtain ⟨same, fine⟩ := Prod.mk.inj commutes'
            have none : before.filter (·.time = time) = [] :=
              List.filter_eq_nil_iff.mpr fun e listed => by simpa using earlier e listed
            simp only [List.filter_append, none, List.nil_append] at left fired ⊢
            rw [List.filter_cons_of_neg (by simp), List.filter_cons_of_pos (by simp)]
            refine ⟨left, ?_⟩
            rw [List.map_cons, fireAll, commutes, ← fine]
            dsimp only
            rw [← fired, same]

theorem kernel_of_fireAll {payloads : List Payload} (fired : s.fireAll payloads = (d, .ok ())) :
    d.kernel = payloads.foldl Kernel.fires s.kernel := by
  induction payloads generalizing s with
  | nil =>
      cases fired
      rfl
  | cons payload rest ih =>
      have first := s.kernel_fire payload
      rw [fireAll] at fired
      generalize s.fire payload = result at fired first
      obtain ⟨s₁, e | _⟩ := result
      · cases fired
      · rw [ih fired, first, List.foldl_cons]

theorem waiters_drainUpTo (s : Simulation σ ω) (count time : Nat) :
    (drainUpTo count s time).1.waiters = s.waiters :=
  (moved_drainUpTo s count time).waiters

theorem refuses_of_drainUpTo {count : Nat} {e : SimError}
    (failed : (drainUpTo count s time).2 = .error e) : s.Refuses e := by
  induction count generalizing s with
  | zero => cases failed
  | succ count ih =>
      rw [drainUpTo] at failed
      cases popped : s.queue.popDue time with
      | none =>
          simp only [popped] at failed
          cases failed
      | some due =>
          obtain ⟨payload, queue⟩ := due
          simp only [popped] at failed
          have hook := congrArg Equipment.hook (equipment_fire { s with queue } payload)
          have refuses : ∀ e, (fire { s with queue } payload).2 = .error e →
              ({ s with queue } : Simulation σ ω).Refuses e := fun e => refuses_of_fire
          generalize fire { s with queue } payload = result at failed hook refuses
          obtain ⟨s₁, e' | _⟩ := result
          · exact refuses e failed
          · obtain ⟨hook', change, world, hooked, refused⟩ := ih failed
            exact ⟨hook', change, world, hook.symm.trans hooked, refused⟩

/-! ## Going on to a tick -/

theorem way_of_moveClock (q : Simulation σ ω) {time : Nat} (due : q.kernel.now ≤ time) :
    (∃ m, q.moveClock time = (m, .ok ())) ∨
      ∃ m, q.kernel.now = time ∧ m.queue = q.queue ∧
        q.moveClock time = (m, .error (.deltaCycleLimit q.kernel.now q.maxDeltas)) := by
  unfold moveClock
  split
  · exact .inl ⟨_, rfl⟩
  · next here =>
      obtain ⟨delta, deltas, next⟩ := nextDelta_spec q
      have outcome := (nextDelta_eq q).2
      generalize q.nextDelta = result at next outcome
      obtain ⟨m, e | _⟩ := result
      · dsimp only at next outcome
        split at outcome
        · cases outcome
          refine .inr ⟨m, Nat.le_antisymm due (Nat.le_of_not_lt here), ?_, rfl⟩
          rw [next]
        · cases outcome
      · exact .inl ⟨_, rfl⟩

theorem drains_of_drain (timely : q.Timely) (next : q.queue.nextTime? = some time)
    (moves : q.moveClock time = (m, .ok ())) (drained : m.drain time = (d, .ok ())) :
    Drains q d time := by
  have now := now_moveClock moves
  obtain ⟨now', delta, deltas, timeSteps, moved⟩ := moveClock_spec q time
  rw [moves] at moved
  dsimp only at moved
  have queue : m.queue = q.queue := by rw [moved]
  have kernel : m.kernel = { q.kernel with now := time } := by
    rw [← now, moved]
  have files : m.queue.Files q.queue.entries := by
    rw [queue]
    exact timely.numbered.files
  have ahead : ∀ e ∈ m.queue.toList, time ≤ e.time := by
    rw [queue]
    exact fun e listed => EventQueue.le_of_nextTime? next listed
  obtain ⟨left, fired⟩ := drainUpTo_of_filed files (Nat.le_refl _) ahead drained
  have due : (q.queue.entries.filter (·.time = time)).map (·.payload) = q.queue.dueAt time := by
    rw [EventQueue.dueAt, EventQueue.agenda, List.filter_map, List.map_map]
    rfl
  rw [due] at fired
  refine ⟨?_, ⟨m, moves, fired⟩, ?_, ?_, ?_⟩
  · rw [EventQueue.agenda, left.entries_eq, EventQueue.agenda, List.filter_map]
    rfl
  · rw [kernel_of_fireAll fired]
    exact congrArg (List.foldl Kernel.fires · _) kernel
  · have kept := waiters_drainUpTo m m.queue.size time
    rw [show drainUpTo m.queue.size m time = (d, .ok ()) from drained] at kept
    rw [show d.waiters = m.waiters from kept, moved]
  · have kept := resumes_of_frame (frame_drainUpTo m m.queue.size time)
    rw [show drainUpTo m.queue.size m time = (d, .ok ()) from drained] at kept
    rw [show d.stats.resumes = m.stats.resumes from kept, moved]

theorem way_of_advanceTo (timely : q.Timely) (next : q.queue.nextTime? = some time) :
    AdvanceWay q time (q.advanceTo time) := by
  have due : q.kernel.now ≤ time := by
    obtain ⟨e, listed, here⟩ := EventQueue.exists_of_nextTime? next
    exact here ▸ timely.ahead e listed
  rcases way_of_moveClock q due with ⟨m, moves⟩ | ⟨m, here, kept, exceeds⟩
  · cases drained : m.drain time with
    | mk d result =>
        rw [advanceTo, moves]
        dsimp only
        rw [drained]
        cases result with
        | error e =>
            have hook := congrArg Equipment.hook (equipment_moveClock q time)
            rw [moves] at hook
            obtain ⟨hook', change, world, hooked, refused⟩ : m.Refuses e :=
              refuses_of_drainUpTo (congrArg Prod.snd drained)
            exact .refused ⟨hook', change, world, hook.symm.trans hooked, refused⟩
        | ok _ =>
            have drains := drains_of_drain timely next moves drained
            dsimp only
            cases d.openLink? with
            | none => exact .drained drains d.link d.world fun _ failed => by cases failed
            | some l =>
                dsimp only
                unfold sendOutputs
                split
                · next world e _ =>
                    refine .drained drains d.link world fun e' failed => ?_
                    exact ⟨e, (Except.error.inj failed).symm⟩
                · next world _ _ => exact .drained drains _ world fun _ failed => by cases failed
  · rw [advanceTo, exceeds]
    exact .exceeded here kept

/-! ## Sessions -/

theorem Operated.inTime (operated : Operated B s) : s.InTime := by
  induction operated with
  | built made built => exact inTime_of_build made built
  | adjusted operated adjusts state ih => exact ih.of_office (office_adjusts adjusts)
  | ran operated ran ih => exact ih.run ran

theorem Reached.timely (reached : Reached B s) : s.Timely := by
  refine ⟨reached.ahead, ?_⟩
  exact reached.keeps (P := fun d => d.queue.Numbered) (fun _ _ => EventQueue.numbered_empty)
    Desk.Step.numbered

theorem stages_rested {c : Simulation σ ω} {cap : Option Nat} {granted : Nat}
    (rested : c.rested? B granted = some q) : Stages B cap c q := by
  obtain ⟨m, r, committed, ran, -, settles⟩ := round_of_rested rested
  have commits : Stages B cap c c.commitPending.1 := stages_commitPending c
  rw [committed] at commits
  refine (commits.trans (stages_runReady ran)).trans ?_
  have exchanges : Stage B cap r r.exchange.1 := .exchanged r
  have way := way_of_proceed r
  rw [settles] at way
  cases way with
  | @settled s exchanged pending proceeds =>
      rw [exchanged] at exchanges
      exact .head exchanges (.single (.purged s))

theorem capOf_startHook (s : Simulation σ ω) (duration : Option Nat) :
    s.startHook.1.capOf duration = s.capOf duration := by
  unfold startHook
  split
  · rfl
  · cases s.hook <;> rfl

/-- Through all stages of a run nothing is overdue, what is scheduled goes to the end of the agenda,
and the clock does not go back. A run that comes to rest at a tick and goes on drains the next one
as a whole. -/
theorem time_moves_on_and_ticks_are_drained_whole (operated : Operated B s) (fuel : Nat)
    (duration : Option Nat) :
    (∀ x, Stages B (s.capOf duration) s x →
      (∀ e ∈ x.queue.toList, x.kernel.now ≤ e.time) ∧
        (∀ time payload, (x.queue.push time payload).agenda = x.queue.agenda ++ [(time, payload)]) ∧
        ∀ y, Stages B (s.capOf duration) x y → x.kernel.now ≤ y.kernel.now) ∧
      (∀ s' result, run B fuel s duration = .ok (s', result) →
        Stages B (s.capOf duration) s s') ∧
      ∀ s₀ granted c, s.startHook = (s₀, .ok ()) → Comes B (s.capOf duration) fuel s₀ granted c →
        Stages B (s.capOf duration) s c ∧
          ∀ q, c.rested? B granted = some q →
            Stages B (s.capOf duration) c q ∧
              (∀ cap, c.cycle B granted cap = .ok (q.leaveTick cap)) ∧
              ∀ time, q.queue.nextTime? = some time → AdvanceWay q time (q.advanceTo time) := by
  have staffed := operated.reached.staffed
  have timely := operated.reached.timely
  have inTime := operated.inTime
  refine ⟨fun x stages => ?_, fun s' result ran => ?_, fun s₀ granted c started comes => ?_⟩
  · obtain ⟨staffed', timely', -⟩ := stages.keeps staffed timely
    exact ⟨timely'.ahead, timely'.numbered.agenda_push,
      fun y further => (further.keeps staffed' timely').2.2⟩
  · rw [← capOf_startHook]
    exact stages_run inTime ran
  · have starts : Stages B (s.capOf duration) s s.startHook.1 := stages_startHook s
    have cap := capOf_startHook s duration
    rw [started] at starts cap
    dsimp only at starts cap
    have within := (inTime.of_startHook started).le_capOf duration
    rw [cap] at within
    have stages := starts.trans (comes.stages within).1
    refine ⟨stages, fun q rested => ?_⟩
    have rests : Stages B (s.capOf duration) c q := stages_rested rested
    obtain ⟨-, timely', -⟩ := Stages.keeps (stages.trans rests) staffed timely
    exact ⟨rests, (cycle_of_rested rested).2.2, fun time next => way_of_advanceTo timely' next⟩

/-- A process that sets a gauge that follows five ticks later, and looks at it then. -/
def onlooker : Behaviours Bool Unit where
  name _ := "onlooker"
  resume
    | false => (Activity.setNext ⟨0⟩ (.int 1)).bind fun _ => .done (.wait true (.delay 5))
    | true => (Activity.value ⟨0⟩).bind fun _ => .done .done
  react state := .done state

/-- A simulation of an onlooker. -/
def lookout : Simulation Bool Unit :=
  ({ kernel := .gauge, world := () } : Simulation Bool Unit).addWaiter "onlooker" (.process false)
    none

/-- What is due next where the lookout comes to rest in its second cycle, and when. -/
def awaited (s : Simulation Bool Unit) : Option (Option Nat × List Payload) :=
  match s.cycle onlooker 9 none with
  | .ok (c, .again) => (c.rested? onlooker 8).map fun q => (q.queue.nextTime?, q.queue.dueAt 5)
  | _ => none

/-- The onlooker was scheduled before the value of the gauge, and is resumed after both have left
the queue. -/
theorem the_gauge_follows_before_the_onlooker_looks :
    ∃ q, Stages onlooker none lookout q ∧
      (∃ a, q.queue.dueAt 5 = [.wake a, .apply ⟨0⟩ (.int 1) 1]) ∧ AdvanceWay q 5 (q.advanceTo 5) := by
  have made : Kernel.gauge.Made := .signal .empty "gauge" (.int 0) (some 5)
  have operated : Operated onlooker lookout :=
    .built made (show build onlooker .gauge [.process false] () = .ok lookout from rfl)
  have started : lookout.startHook = (lookout.startHook.1, .ok ()) := rfl
  have due : awaited lookout.startHook.1 =
      some (some 5, [.wake ⟨0, 2⟩, .apply ⟨0⟩ (.int 1) 1]) := by decide +kernel
  obtain ⟨-, -, comes⟩ := time_moves_on_and_ticks_are_drained_whole operated 9 none
  unfold awaited at due
  split at due
  · next c turned =>
      obtain ⟨stages, rests⟩ := comes _ 8 c started (.again turned .here)
      obtain ⟨q, rested, same⟩ := Option.map_eq_some_iff.mp due
      obtain ⟨next, listed⟩ := Prod.mk.inj same
      obtain ⟨further, -, advances⟩ := rests q rested
      exact ⟨q, stages.trans further, ⟨_, listed⟩, advances 5 next⟩
  · cases due

end Simulation

end DeltaCycle
