import DeltaCycle.Proofs.Annals
import DeltaCycle.Proofs.Playing
import DeltaCycle.Simulation.Traced

/-!
# Playback

A script that is played alone on a plain kernel takes one tick after the other: it is resumed, makes
the writes that are due, and waits; its writes are committed in a second delta cycle; and the clock
moves to its next step. So the run ends with the last step, and its changes tell what was written.
-/

set_option autoImplicit false

namespace DeltaCycle

variable {ω : Type}

namespace Script

/-- Scripts leave what lies beside their world alone. -/
theorem beside_play {τ : Type} (name : String) (now : Nat) (steps : List ScriptStep) :
    (play (ω := ω) name now steps).beside τ = play name now steps := by
  induction steps with
  | nil => rfl
  | cons step rest ih =>
      rw [play, play]
      split
      · rfl
      · refine congrArg (Activity.ask (.setNext step.signal step.value)) (funext fun reply => ?_)
        cases reply with
        | error e => rfl
        | ok _ => exact ih

theorem beside_behaviours {τ : Type} :
    (behaviours (ω := ω)).beside τ = behaviours := by
  have resumes (s : Script) : (s.resume (ω := ω)).beside τ = s.resume :=
    congrArg (Activity.ask .now) (funext fun now => beside_play s.name now s.steps)
  unfold Behaviours.beside behaviours
  dsimp only
  rw [funext resumes]
  rfl

end Script

namespace Kernel

variable {k q : Kernel} {done rest : List ScriptStep} {later : Nat} {ends : Nat → Kernel}

/-- A kernel takes the steps of a script: its signals take the values, the ticks are no later than
the last one, and they are in order. -/
structure Takes (k : Kernel) (steps : List ScriptStep) : Prop where
  admits : ∀ step ∈ steps, k.Admits step
  bounded : ∀ step ∈ steps, step.time ≤ lastTick
  ordered : Script.Ordered steps

/-- At the end of each tick that has passed, the signals hold what the last of their steps says that
were due by then. -/
def Tells (k : Kernel) (steps : List ScriptStep) (now : Nat) (ends : Nat → Kernel) : Prop :=
  ∀ t < now, ∀ id s, k.signal? id = some s →
    ∃ v, (ends t).val? id = some v ∧ v.same (s.after (Script.lastDue? steps id t)) = true

/-- What is committed when all steps that are due were played stays until the next step. -/
theorem Tells.leave (tells : k.Tells (done ++ rest) q.now ends) (plays : k.Plays done q)
    (upToDate : q.UpToDate) (early : ∀ step ∈ done, step.time ≤ q.now)
    (late : ∀ step ∈ rest, later ≤ step.time) :
    k.Tells (done ++ rest) later (endsAfter q q.now later ends) := by
  intro t before id s found
  unfold endsAfter
  split
  · next between =>
      obtain ⟨s', found', played⟩ := plays.signal found
      refine ⟨s'.val, by rw [val?, found']; rfl, ?_⟩
      have past : ∀ step ∈ done, step.time ≤ t := fun step listed =>
        Nat.le_trans (early step listed) between.1
      have ahead : ∀ step ∈ rest, t < step.time := fun step listed =>
        Nat.lt_of_lt_of_le before (late step listed)
      rw [Script.lastDue?_of_split past ahead, ← played.next]
      exact upToDate.same id s' found' played.prompt
  · next outside => exact tells t (by omega) id s found

end Kernel

namespace Simulation

variable {k : Kernel} {w : ω} {done rest steps : List ScriptStep} {name : String}
  {s s' q : Simulation Script (ω × List Change)}

/-! ## Commit phases -/

/-- A change log takes every change. -/
theorem report_of_log (hooked : s.hook = some .changeLog) (id : SignalId) (old : Value) :
    ∃ world, s.report id old = ({ s with world }, .ok ()) ∧ world.1 = s.world.1 := by
  unfold report
  split
  · next hook signal hooked' _ =>
      cases hooked.symm.trans hooked'
      split
      · exact ⟨_, rfl, rfl⟩
      · exact ⟨s.world, rfl, rfl⟩
  · exact ⟨s.world, rfl, rfl⟩

theorem step_of_plays (hooked : s.hook = some .changeLog) (plays : k.Plays done s.kernel)
    (id : SignalId) :
    ∃ kernel ready stats world,
      s.step id Signal.update = ({ s with kernel, ready, stats, world }, .ok ()) ∧
        k.Plays done kernel ∧ ready.toList = s.ready.toList ∧ world.1 = s.world.1 := by
  unfold step
  cases found : s.kernel.signal? id with
  | none => exact ⟨_, _, _, _, rfl, plays, rfl, rfl⟩
  | some signal =>
      obtain ⟨s₀, -, played⟩ := plays.played found
      have updated : k.Plays done (s.kernel.modify id fun _ => signal.update.1) := by
        rw [Kernel.modify_of_found found fun s => s.update.1]
        exact plays.modify (fun _ _ _ played => played.update) fun _ _ => rfl
      dsimp only
      rw [Signal.update_of_prompt played.prompt] at updated ⊢
      rcases Signal.apply_of_unwatched played.unwatched signal.next with kept | changed
      · rw [kept] at updated ⊢
        exact ⟨_, _, _, _, rfl, updated, rfl, rfl⟩
      · rw [changed] at updated ⊢
        rw [absorb]
        obtain ⟨world, reported, same⟩ := report_of_log
          (s := { s with
            kernel := s.kernel.modify id fun _ => { signal with val := signal.next }
            stats := { s.stats with commits := s.stats.commits + 1 }
            ready := s.ready.append [] }) hooked id signal.val
        rw [reported]
        refine ⟨_, _, _, _, rfl, updated, ?_, same⟩
        rw [Fifo.toList_append, List.append_nil]

theorem updateAll_of_plays (hooked : s.hook = some .changeLog) (plays : k.Plays done s.kernel)
    (ids : List SignalId) :
    ∃ kernel ready stats world,
      s.updateAll (.ok ()) ids = ({ s with kernel, ready, stats, world }, .ok ()) ∧
        k.Plays done kernel ∧ ready.toList = s.ready.toList ∧ world.1 = s.world.1 := by
  induction ids generalizing s with
  | nil => exact ⟨_, _, _, _, rfl, plays, rfl, rfl⟩
  | cons id ids ih =>
      obtain ⟨kernel, ready, stats, world, stepped, plays₁, ready₁, world₁⟩ :=
        step_of_plays hooked plays id
      obtain ⟨kernel', ready', stats', world', updated, plays₂, ready₂, world₂⟩ :=
        @ih { s with kernel, ready, stats, world } hooked plays₁
      refine ⟨kernel', ready', stats', world', ?_, plays₂, ready₂.trans ready₁, world₂.trans world₁⟩
      rw [updateAll, stepped]
      exact updated

/-! ## A script alone -/

/-- A simulation in which one script is played, with the steps that it has made and those that it
has still to make. Its log tells what was written in the ticks that have passed. -/
structure Solo (k : Kernel) (w : ω) (done rest : List ScriptStep)
    (s : Simulation Script (ω × List Change)) : Prop where
  plays : k.Plays done s.kernel
  settled : s.kernel.Settled
  unlinked : s.link = none
  clean : s.stale = {}
  room : 0 < s.maxDeltas
  world : s.world.1 = w
  told : ∃ ends, s.Logged ends ∧ k.Tells (done ++ rest) s.kernel.now ends
  early : ∀ step ∈ done, step.time ≤ s.kernel.now
  punctual : s.kernel.now = 0 ∨ ∃ step ∈ done ++ rest, step.time = s.kernel.now

/-- Within a tick, a script goes on to a state that is set up alike and keeps the log, with steps made
of those that it had still to make. -/
theorem Solo.within {done' rest' : List ScriptStep} (solo : s.Solo k w done rest)
    (same : done' ++ rest' = done ++ rest) (logged : ∀ {ends}, s.Logged ends → s'.Logged ends)
    (now : s'.kernel.now = s.kernel.now) (plays : k.Plays done' s'.kernel)
    (settled : s'.kernel.Settled)
    (setup : s'.link = s.link ∧ s'.stale = s.stale ∧ s'.maxDeltas = s.maxDeltas)
    (world : s'.world.1 = s.world.1)
    (early : ∀ step ∈ done', step.time ≤ s.kernel.now) : s'.Solo k w done' rest' := by
  obtain ⟨link, stale, maxDeltas⟩ := setup
  obtain ⟨ends, log, tells⟩ := solo.told
  constructor
  case plays => exact plays
  case settled => exact settled
  case unlinked => exact link.trans solo.unlinked
  case clean => exact stale.trans solo.clean
  case room => exact maxDeltas ▸ solo.room
  case world => exact world.trans solo.world
  case told =>
    rw [same, now]
    exact ⟨ends, logged log, tells⟩
  case early =>
    rw [now]
    exact early
  case punctual =>
    rw [same, now]
    exact solo.punctual

/-- A script waits under a token to make steps. -/
def seat (name : String) (steps : List ScriptStep) (token : Nat) : Waiter (Body Script) where
  name
  body := some (.process ⟨name, steps⟩)
  token
  parent := none

/-- The script is about to be resumed. -/
structure Cued (k : Kernel) (w : ω) (name : String) (done rest : List ScriptStep)
    (s : Simulation Script (ω × List Change)) : Prop extends Solo k w done rest s where
  first : s.delta = 0
  unmarked : s.kernel.pending = []
  unscheduled : s.queue.toList = []
  ready : ∃ a, s.ready.toList = [a] ∧ s.waiters.waiter? a.slot = some (seat name rest a.token)

/-- The script waits for its next step, or has ended. -/
inductive Awaits (name : String) (s : Simulation Script (ω × List Change)) :
    List ScriptStep → Prop where
  | ended (unscheduled : s.queue.toList = []) : Awaits name s []
  | next {step : ScriptStep} {rest : List ScriptStep} {a : Arming}
      (ahead : s.kernel.now < step.time)
      (scheduled : ∃ serial, s.queue.toList = [⟨step.time, serial, .wake a⟩])
      (seated : s.waiters.waiter? a.slot = some (seat name (step :: rest) a.token)) :
      Awaits name s (step :: rest)

theorem Awaits.of_same (awaits : Awaits name s rest) (now : s'.kernel.now = s.kernel.now)
    (waiters : s'.waiters = s.waiters) (queue : s'.queue = s.queue) : Awaits name s' rest := by
  cases awaits with
  | ended unscheduled => exact .ended (queue ▸ unscheduled)
  | next ahead scheduled seated =>
      exact .next (now.trans_lt ahead) (queue ▸ scheduled) (waiters ▸ seated)

/-- All writes that are due were made, and the script waits. -/
structure Pausing (k : Kernel) (w : ω) (name : String) (done rest : List ScriptStep)
    (s : Simulation Script (ω × List Change)) : Prop extends Solo k w done rest s where
  idle : s.ready.toList = []
  awaits : Awaits name s rest

/-- A commit phase commits what was written, and wakes nobody. -/
theorem Pausing.commitPending (pausing : s.Pausing k w name done rest) :
    ∃ s', s.commitPending = (s', .ok ()) ∧ s'.Pausing k w name done rest ∧
      s'.kernel.pending = [] ∧ s'.kernel.now = s.kernel.now := by
  obtain ⟨_, logged, -⟩ := pausing.told
  have unmarked : k.Plays done { s.kernel with pending := [] } :=
    ⟨pausing.plays.running, pausing.plays.signals⟩
  obtain ⟨kernel, ready, stats, world, updated, plays, idle, kept⟩ :=
    updateAll_of_plays (s := { s with kernel := { s.kernel with pending := [] } }) logged.hook
      unmarked s.kernel.pending.reverse
  have committed : s.commitPending = _ := updated
  have now := now_commitPending s
  have upToDate := upToDate_commitPending pausing.settled
  have keeps {ends} (logged : s.Logged ends) := logged.commitPending
  rw [committed] at now upToDate keeps
  have solo := pausing.toSolo.within rfl keeps now plays upToDate.settled ⟨rfl, rfl, rfl⟩ kept
    pausing.early
  exact ⟨_, committed, ⟨solo, idle.trans pausing.idle, pausing.awaits.of_same now rfl rfl⟩,
    upToDate.pending, now⟩

/-! ## Resuming -/

/-- A script that waits under a token gives out its steps, and keeps its seat under a fresh one. -/
theorem consume_of_seat {t : WaiterTable (Body Script)} {a : Arming}
    (seated : t.waiter? a.slot = some (seat name steps a.token)) :
    ∃ token t', t.consume a = (some (⟨a.slot, token⟩, .process ⟨name, steps⟩, []), t') ∧
      t'.waiter? a.slot = some { name, body := none, token, parent := none } := by
  have claimed := WaiterTable.consume_of_live seated rfl rfl
  obtain ⟨waiter, found, -, -, vacant⟩ := WaiterTable.waiter?_of_consume claimed
  cases seated.symm.trans found
  exact ⟨_, _, claimed, vacant⟩

/-- A waiter whose completion nobody waits for is removed. -/
theorem complete_of_orphan {slot : Nat} {waiter : Waiter (Body Script)}
    (found : s.waiters.waiter? slot = some waiter) (orphan : waiter.parent = none) :
    s.complete slot = { s with waiters := (s.waiters.remove slot).2 } := by
  have nobody := (WaiterTable.remove_fst found).trans orphan
  unfold complete
  generalize s.waiters.remove slot = result at nobody ⊢
  obtain ⟨_, waiters⟩ := result
  subst nobody
  rfl

/-- A script that is put back waits for its next step. -/
theorem rearm_of_ahead {slot token ticks : Nat} {step : ScriptStep}
    (found : s.waiters.waiter? slot = some { name, body := none, token, parent := none })
    (ahead : s.kernel.now < step.time) (due : s.kernel.now + ticks = step.time)
    (bounded : step.time ≤ lastTick) (unscheduled : s.queue.toList = []) :
    ∃ waiters queue,
      (s.rearm slot (.process ⟨name, step :: rest⟩) fun s =>
        s.subscribe Script.behaviours ⟨slot, token⟩ (.delay ticks)) =
          ({ s with waiters, queue }, .ok ()) ∧
        Awaits name { s with waiters, queue } (step :: rest) := by
  refine ⟨s.waiters.restore slot (.process ⟨name, step :: rest⟩),
    s.queue.push step.time (.wake ⟨slot, token⟩), ?_, .next ahead (a := ⟨slot, token⟩) ?_ ?_⟩
  · simp only [rearm, subscribe, wakeAfter, after, due, bounded, if_true]
  · have listed := s.queue.toList_push step.time (.wake ⟨slot, token⟩)
    rw [unscheduled] at listed
    exact ⟨_, List.perm_singleton.mp listed⟩
  · dsimp only
    rw [WaiterTable.restore, WaiterTable.waiter?_modify, if_pos rfl, found]
    rfl

theorem noteStale_nil : s.noteStale [] = s := rfl

/-- A script that is resumed makes the writes that are due, and waits. -/
theorem runWaiter_of_seat (plain : k.Plain) (takes : k.Takes (done ++ steps))
    (plays : k.Plays done s.kernel) (settled : s.kernel.Settled) {a : Arming}
    (seated : s.waiters.waiter? a.slot = some (seat name steps a.token))
    (unscheduled : s.queue.toList = []) :
    ∃ due rest kernel waiters queue stats, steps = due ++ rest ∧
      runWaiter Script.behaviours s a = some ({ s with kernel, waiters, queue, stats }, .ok ()) ∧
      Awaits name { s with kernel, waiters, queue, stats } rest ∧
      (∀ step ∈ due, step.time ≤ s.kernel.now) ∧ kernel.now = s.kernel.now ∧
      k.Plays (done ++ due) kernel ∧ kernel.Settled := by
  have admits : ∀ step ∈ steps, k.Admits step := fun step listed =>
    takes.admits step (List.mem_append_right done listed)
  obtain ⟨due, rest, kernel, rfl, early, ahead, ran, now, plays', settled'⟩ :=
    @Script.run_play _ _ _ _ _ name s.kernel.now plain admits plays settled s.world
  obtain ⟨token, waiters, claimed, vacant⟩ := consume_of_seat seated
  refine ⟨due, rest, kernel, ?_⟩
  unfold runWaiter
  rw [claimed]
  dsimp only
  rw [noteStale_nil]
  unfold runBody
  dsimp only
  rw [show (Script.behaviours.resume ⟨name, due ++ rest⟩).run s.kernel s.world = _ from ran]
  cases rest with
  | nil =>
      dsimp only [Script.pause]
      rw [complete_of_orphan vacant rfl]
      exact ⟨_, _, _, rfl, rfl, .ended unscheduled, early, now, plays', settled'⟩
  | cons step rest =>
      have later : s.kernel.now < step.time := ahead step rfl
      have bounded := takes.bounded step (by simp)
      have due : kernel.now + (step.time - s.kernel.now) = step.time := by
        rw [now]
        exact Nat.add_sub_cancel' (Nat.le_of_lt later)
      dsimp only [Script.pause]
      obtain ⟨waiters', queue, armed, awaits⟩ := rearm_of_ahead
        (s := { s with kernel, waiters, stats := { s.stats with resumes := s.stats.resumes + 1 } })
        vacant (now.trans_lt later) due bounded unscheduled
      rw [armed]
      exact ⟨_, _, _, rfl, rfl, awaits, early, now, plays', settled'⟩

/-- In the first round of a tick the script alone is resumed. -/
theorem Cued.runReady (plain : k.Plain) (takes : k.Takes (done ++ steps))
    (cued : s.Cued k w name done steps) (fuel : Nat) :
    ∃ due rest q, steps = due ++ rest ∧
      Simulation.runReady Script.behaviours (fuel + 1) s (.ok ()) = .ok (q, .ok ()) ∧
      q.Pausing k w name (done ++ due) rest ∧ q.kernel.now = s.kernel.now ∧ q.delta = 0 := by
  obtain ⟨a, ready, seated⟩ := cued.ready
  cases popped : s.ready.pop? with
  | none => exact absurd (ready.symm.trans (Fifo.pop?_eq_none_iff.mp popped)) nofun
  | some next =>
      obtain ⟨a', others⟩ := next
      obtain ⟨rfl, idle⟩ := List.cons_eq_cons.mp (ready.symm.trans (Fifo.toList_of_pop? popped))
      obtain ⟨due, rest, kernel, waiters, queue, stats, rfl, resumed, awaits, early, now, plays,
        settled⟩ := runWaiter_of_seat (s := { s with ready := others }) plain takes cued.plays
          cued.settled seated cued.unscheduled
      have ran : Simulation.runReady Script.behaviours (fuel + 1) s (.ok ()) =
          .ok ({ s with kernel, waiters, ready := others, queue, stats }, .ok ()) := by
        rw [Simulation.runReady, popped]
        dsimp only
        rw [resumed]
        exact runReady_of_idle (Fifo.pop?_eq_none_iff.mpr idle.symm) _ _
      have ran' := ran
      rw [← Script.beside_behaviours] at ran'
      have solo := cued.toSolo.within (List.append_assoc done due rest)
        (fun logged => logged.runReady ran') now plays settled ⟨rfl, rfl, rfl⟩ rfl
        (List.forall_mem_append.mpr ⟨cued.early, early⟩)
      exact ⟨due, rest, _, rfl, ran, ⟨solo, idle.symm, awaits⟩, now, cued.first⟩

/-! ## Cycles -/

theorem Solo.exchange_eq (solo : s.Solo k w done rest) : s.exchange = (s, .ok false) := by
  rw [exchange, openLink?, solo.unlinked, Option.filter_none]

/-- A simulation of a script goes on as what was written wants. -/
theorem Solo.proceed_none (solo : s.Solo k w done rest) :
    s.proceed none = if s.kernel.pending = [] then s.leaveTick none else goOn s.nextDelta := by
  rw [proceed_eq, solo.exchange_eq]
  dsimp only
  rw [purge_of_stale solo.clean]
  cases s.kernel.pending with
  | nil => rfl
  | cons id rest => rfl

/-- What was written in a tick is committed in a second delta cycle. -/
theorem Pausing.nextDelta (pausing : q.Pausing k w name done rest) (first : q.delta = 0) :
    ∃ s', q.nextDelta = (s', .ok ()) ∧ s'.Pausing k w name done rest ∧
      s'.kernel.now = q.kernel.now := by
  have room : ¬q.maxDeltas < q.delta + 1 := by
    rw [first]
    exact Nat.not_lt.mpr pausing.room
  have entered : q.nextDelta = _ := if_neg room
  have keeps {ends} (logged : q.Logged ends) := logged.of_quiet quiet_nextDelta
  rw [entered] at keeps
  have solo := pausing.toSolo.within rfl keeps rfl pausing.plays pausing.settled
    ⟨rfl, rfl, rfl⟩ rfl pausing.early
  exact ⟨_, entered, ⟨solo, pausing.idle, pausing.awaits.of_same rfl rfl rfl⟩, rfl⟩

/-- A tick takes the loop through the writes that are due, up to where it leaves the tick. -/
theorem Cued.tick (plain : k.Plain) (takes : k.Takes (done ++ steps))
    (cued : s.Cued k w name done steps) :
    ∃ (due rest : List ScriptStep) (z q : Simulation Script (ω × List Change)),
      steps = due ++ rest ∧
      (∀ out, LoopsTo Script.behaviours s none out ↔ LoopsTo Script.behaviours z none out) ∧
      z.cycle Script.behaviours 1 none = .ok (q.leaveTick none) ∧
      q.Pausing k w name (done ++ due) rest ∧ q.kernel.pending = [] ∧
      q.kernel.now = s.kernel.now := by
  obtain ⟨due, rest, q, rfl, ran, pausing, now, first⟩ := cued.runReady plain takes 0
  have turned := cycle_of_round (commitPending_of_unmarked cued.unmarked) ran
    pausing.plays.running none
  rw [pausing.proceed_none] at turned
  by_cases pending : q.kernel.pending = []
  · rw [if_pos pending] at turned
    exact ⟨due, rest, s, q, rfl, fun _ => .rfl, turned, pausing, pending, now⟩
  · obtain ⟨z, entered, pausing₁, now₁⟩ := pausing.nextDelta first
    rw [if_neg pending, entered] at turned
    obtain ⟨q', committed, pausing₂, pending₂, now₂⟩ := pausing₁.commitPending
    have idle := Fifo.pop?_eq_none_iff.mpr pausing₂.idle
    have ran' := runReady_of_idle (B := Script.behaviours) idle 1 (.ok ())
    have turned' := cycle_of_round committed ran' pausing₂.plays.running none
    rw [pausing₂.proceed_none, if_pos pending₂] at turned'
    exact ⟨due, rest, z, q', rfl, loopsTo_of_again turned, turned', pausing₂, pending₂,
      now₂.trans (now₁.trans now)⟩

/-! ## Leaving a tick -/

/-- Without a next step, nothing is left to happen. -/
theorem Pausing.finish (pausing : q.Pausing k w name done []) :
    q.leaveTick none = (q, .ended (.ok (.finished .noMoreEvents))) := by
  cases pausing.awaits with
  | ended unscheduled =>
      have last := EventQueue.nextTime?_eq_none_iff.mpr unscheduled
      exact leaveTick_of_way (.exhausted (Option.some_ne_none _).symm last)

theorem drainUpTo_of_unscheduled (unscheduled : s.queue.toList = []) (count time : Nat) :
    drainUpTo count s time = (s, .ok ()) := by
  cases count with
  | zero => rfl
  | succ count =>
      rw [drainUpTo]
      cases popped : s.queue.popDue time with
      | none => rfl
      | some due =>
          obtain ⟨first, -, -, -, perm⟩ := EventQueue.toList_popDue popped
          rw [unscheduled] at perm
          exact absurd (List.nil_perm.mp perm) (List.cons_ne_nil _ _)

/-- The only entry of a queue comes due, and none is left. -/
theorem drain_of_wake {time serial : Nat} {a : Arming}
    (scheduled : s.queue.toList = [⟨time, serial, .wake a⟩]) :
    ∃ queue, s.drain time = ({ s with queue, ready := s.ready.push a }, .ok ()) ∧
      queue.toList = [] := by
  cases popped : s.queue.popDue time with
  | none =>
      have ahead : ∀ e ∈ s.queue.toList, time ≤ e.time := by
        rw [scheduled]
        exact fun e listed => List.mem_singleton.mp listed ▸ Nat.le_refl time
      have later := EventQueue.lt_of_popDue popped ahead (scheduled ▸ List.mem_singleton_self _)
      exact absurd later (Nat.lt_irrefl time)
  | some due =>
      obtain ⟨payload, queue⟩ := due
      obtain ⟨first, -, rfl, -, perm⟩ := EventQueue.toList_popDue popped
      rw [scheduled] at perm
      obtain ⟨rfl, left⟩ := List.cons_eq_cons.mp (List.perm_singleton.mp perm.symm)
      refine ⟨queue, ?_, left⟩
      rw [drain, ← EventQueue.size_popDue popped, drainUpTo, popped]
      exact drainUpTo_of_unscheduled left _ _

/-- The clock moves to the only entry of a queue. -/
theorem advanceTo_of_wake {time serial : Nat} {a : Arming} (unlinked : s.link = none)
    (later : s.kernel.now < time) (scheduled : s.queue.toList = [⟨time, serial, .wake a⟩]) :
    ∃ queue, s.advanceTo time = ({ s with
        kernel := { s.kernel with now := time }
        delta := 0
        stats := { s.stats with timeSteps := s.stats.timeSteps + 1 }
        ready := s.ready.push a
        queue }, .ok ()) ∧ queue.toList = [] := by
  obtain ⟨queue, drained, left⟩ := drain_of_wake (s := { s with
    delta := 0
    stats := { s.stats with timeSteps := s.stats.timeSteps + 1 }
    kernel := { s.kernel with now := time } }) scheduled
  refine ⟨queue, ?_, left⟩
  unfold advanceTo
  rw [show s.moveClock time = _ from if_pos later]
  dsimp only at drained ⊢
  rw [drained]
  dsimp only [openLink?]
  rw [unlinked]
  rfl

/-- The clock moves to the next step, for which the script is resumed. -/
theorem Pausing.leave {step : ScriptStep} (takes : k.Takes (done ++ step :: rest))
    (pausing : q.Pausing k w name done (step :: rest)) (unmarked : q.kernel.pending = []) :
    ∃ s', q.leaveTick none = (s', .again) ∧ s'.Cued k w name done (step :: rest) ∧
      s'.kernel.now = step.time := by
  obtain ⟨ends, logged, tells⟩ := pausing.told
  cases pausing.awaits with
  | @next _ _ a later scheduled seated =>
      obtain ⟨serial, scheduled⟩ := scheduled
      obtain ⟨queue, advanced, unscheduled⟩ :=
        advanceTo_of_wake pausing.unlinked later scheduled
      have upToDate := pausing.settled.upToDate unmarked
      have next : q.queue.nextTime? = some step.time := by
        cases found : q.queue.nextTime? with
        | none =>
            rw [EventQueue.nextTime?_eq_none_iff.mp found] at scheduled
            cases scheduled
        | some time =>
            obtain ⟨e, listed, rfl⟩ := EventQueue.exists_of_nextTime? found
            rw [scheduled] at listed
            rw [List.mem_singleton.mp listed]
      have left := leaveTick_of_way
        (.advanced (Option.some_ne_none _).symm next
          (fun _ capped => absurd capped (Option.not_mem_none _)) advanced)
      have ahead : ∀ e ∈ q.queue.toList, q.kernel.now ≤ e.time := by
        rw [scheduled]
        exact fun e listed => List.mem_singleton.mp listed ▸ Nat.le_of_lt later
      have logged' : (q.leaveTick none).1.Logged _ := logged.leaveTick ahead fun _ capped =>
        absurd capped (Option.not_mem_none _)
      rw [left] at logged'
      refine ⟨_, left, ⟨⟨⟨pausing.plays.running, pausing.plays.signals⟩, pausing.settled,
        pausing.unlinked, pausing.clean, pausing.room, pausing.world, ⟨_, logged', ?_⟩, ?_, ?_⟩,
        rfl, unmarked, unscheduled, a, ?_, seated⟩, rfl⟩
      · refine tells.leave pausing.plays upToDate pausing.early fun other listed => ?_
        rcases List.mem_cons.mp listed with rfl | listed
        · exact Nat.le_refl _
        · exact (List.pairwise_cons.mp (List.pairwise_append.mp takes.ordered).2.1).1 other listed
      · exact fun step listed => Nat.le_trans (pausing.early step listed) (Nat.le_of_lt later)
      · exact .inr ⟨step, by simp, rfl⟩
      · rw [Fifo.toList_push, pausing.idle]
        rfl

/-! ## The loop -/

/-- From tick to tick, a script is played to its end. -/
theorem Pausing.loop (plain : k.Plain) (takes : k.Takes (done ++ rest))
    (pausing : q.Pausing k w name done rest) (unmarked : q.kernel.pending = [])
    (turned : s.cycle Script.behaviours 1 none = .ok (q.leaveTick none)) :
    ∃ q', LoopsTo Script.behaviours s none (.ok (q', .ok (.finished .noMoreEvents))) ∧
      q'.Pausing k w name (done ++ rest) [] ∧ q'.kernel.pending = [] := by
  induction count : rest.length using Nat.strong_induction_on generalizing done rest q s with
  | h n ih =>
      cases rest with
      | nil =>
          rw [pausing.finish] at turned
          refine ⟨q, (loopsTo_of_ended turned _).mpr rfl, ?_, unmarked⟩
          rw [List.append_nil]
          exact pausing
      | cons step rest =>
          obtain ⟨s', left, cued, now⟩ := pausing.leave takes unmarked
          rw [left] at turned
          obtain ⟨due, rest', z, q', split, same, turned', pausing', unmarked', now'⟩ :=
            cued.tick plain takes
          -- The clock stands at the next step, so that one step at least is made.
          have made : due ≠ [] := by
            rintro rfl
            rw [List.nil_append] at split
            subst split
            cases pausing'.awaits with
            | next ahead => omega
          have shorter : rest'.length < n := by
            have lengths := congrArg List.length split
            have some_due := List.length_pos_of_ne_nil made
            rw [List.length_append, count] at lengths
            omega
          rw [split, ← List.append_assoc] at takes ⊢
          obtain ⟨q'', loops, ends⟩ := ih _ shorter takes pausing' unmarked' turned' rfl
          exact ⟨q'', (loopsTo_of_again turned _).mpr ((same _).mpr loops), ends⟩

theorem Cued.loop (plain : k.Plain) (takes : k.Takes (done ++ steps))
    (cued : s.Cued k w name done steps) :
    ∃ q, LoopsTo Script.behaviours s none (.ok (q, .ok (.finished .noMoreEvents))) ∧
      q.Pausing k w name (done ++ steps) [] ∧ q.kernel.pending = [] := by
  obtain ⟨due, rest, z, q, rfl, same, turned, pausing, unmarked, -⟩ := cued.tick plain takes
  rw [← List.append_assoc] at takes ⊢
  obtain ⟨q', loops, ends⟩ := pausing.loop plain takes unmarked turned
  exact ⟨q', (same _).mpr loops, ends⟩

end Simulation

end DeltaCycle
