import DeltaCycle.Proofs.Playback

/-!
# What a script leaves on record

A traced run of one script on a plain kernel finishes with the last step of the script. The changes
that it gives tell the value of every traced signal at every tick: it is the one of the step that
was added last among those of the latest tick that has come, or the initial value before any step.
-/

set_option autoImplicit false

namespace DeltaCycle

variable {ω : Type}

namespace Script

/-- What steps that were added leave on a signal by a tick. -/
inductive Leaves (added : List ScriptStep) (id : SignalId) (s : Signal) (time : Nat) :
    Value → Prop where
  | written {step : ScriptStep} {v : Value} (latest : Latest added id time step)
      (taken : s.kind.coerce step.value = .ok v) : Leaves added id s time v
  | untouched (undue : ∀ step ∈ added, ¬Due id time step) : Leaves added id s time s.init

theorem leaves_ofSteps {k : Kernel} {name : String} {added : List ScriptStep}
    (admits : ∀ step ∈ added, k.Admits step) {id : SignalId} {s : Signal}
    (found : k.signal? id = some s) (time : Nat) :
    Leaves added id s time (s.after (lastDue? (ofSteps name added).steps id time)) := by
  have counts := lastDue?_ofSteps name added id time
  cases last : lastDue? (ofSteps name added).steps id time with
  | none =>
      rw [last] at counts
      exact .untouched counts
  | some step =>
      rw [last] at counts
      have listed : step ∈ added := by
        obtain ⟨-, before, after, rfl, -, -⟩ := counts
        simp
      obtain ⟨s', v, found', taken, -⟩ := admits step listed
      rw [counts.1.1, found] at found'
      cases found'
      rw [Signal.after, taken]
      exact .written counts taken

/-- The last step of a script comes at the largest tick. -/
theorem max?_times {name : String} {added : List ScriptStep} {now : Nat}
    (past : ∀ step ∈ (ofSteps name added).steps, step.time ≤ now)
    (punctual : now = 0 ∨ ∃ step ∈ (ofSteps name added).steps, step.time = now) :
    (added.map (·.time)).max?.getD 0 = now := by
  have perm := (steps_ofSteps name added).2
  cases largest : (added.map (·.time)).max? with
  | none =>
      have nobody : added = [] := List.map_eq_nil_iff.mp (List.max?_eq_none_iff.mp largest)
      rcases punctual with rfl | ⟨step, listed, -⟩
      · rfl
      · rw [perm.mem_iff, nobody] at listed
        cases listed
  | some time =>
      obtain ⟨listed, least⟩ := List.max?_eq_some_iff.mp largest
      obtain ⟨last, added_last, rfl⟩ := List.mem_map.mp listed
      refine Nat.le_antisymm (past last (perm.mem_iff.mpr added_last)) ?_
      rcases punctual with rfl | ⟨step, listed, rfl⟩
      · exact Nat.zero_le _
      · exact least _ (List.mem_map_of_mem (perm.mem_iff.mp listed))

end Script

namespace Simulation

variable {k : Kernel} {name : String} {added : List ScriptStep}

/-- A simulation of one script alone. -/
def ofScript (k : Kernel) (script : Script) (world : ω) : Simulation Script ω :=
  ({ kernel := k, world } : Simulation Script ω).addWaiter script.name (.process script) none

/-- A plain kernel and a script make such a simulation, also beside a log. -/
theorem build_of_plain (plain : k.Plain) (script : Script) (world : ω) :
    build (Script.behaviours.beside (List Change)) k (Instance.besideAll _ [.process script])
      (world, []) = .ok (ofScript k script (world, [])) := by
  have underived (s : Simulation Script (ω × List Change)) (shadows : s.kernel.shadows = []) :
      s.addShadows = s := by
    unfold addShadows
    rw [shadows]
    rfl
  unfold build
  dsimp only
  rw [underived _ plain.shadows, Script.beside_behaviours]
  rfl

/-- A script begins with nothing done, and its log is empty. -/
theorem cued_ofScript (plain : k.Plain) (script : Script) (world : ω) :
    ((ofScript k script (world, [])).setHook .changeLog).startHook.1.Cued k world script.name []
      script.steps := by
  have atStart := plain.made.sound.atStart
  have built := build_of_plain plain script world
  have logged := (logged_of_build plain.made built fun _ => k).1.startHook
  refine ⟨⟨plain.plays, atStart.upToDate.settled, rfl, rfl, Nat.zero_lt_succ _, rfl,
    ⟨_, logged, ?_⟩, nofun, .inl atStart.now⟩, rfl, atStart.pending, rfl, ⟨0, 1⟩, rfl, rfl⟩
  intro t before
  change t < k.now at before
  rw [atStart.now] at before
  exact absurd before (Nat.not_lt_zero t)

theorem closeLink_of_unlinked {q : Simulation Script (ω × List Change)} (unlinked : q.link = none) :
    q.closeLink = (q, .ok ()) := by
  unfold closeLink
  split
  · rfl
  · next l linked => cases unlinked.symm.trans linked

/-- Without a bridge, a change log takes the end of a simulation. -/
theorem shutdown_of_log {q : Simulation Script (ω × List Change)} (unlinked : q.link = none)
    (hooked : q.hook = some .changeLog) : q.shutdown = (q, .ok ()) := by
  unfold shutdown
  rw [closeLink_of_unlinked unlinked]
  dsimp only
  split
  · rfl
  · next hook hooked' =>
      cases hooked.symm.trans hooked'
      rfl

/-- A traced run of a script finishes, with the log of a simulation in which it was played. -/
theorem runTraced_of_script (plain : k.Plain) (script : Script) (takes : k.Takes script.steps)
    (world : ω) :
    ∃ q : Simulation Script (ω × List Change), q.Pausing k world script.name script.steps [] ∧
      q.kernel.pending = [] ∧ q.kernel.blueprint = k.blueprint ∧
      ∃ enough, ∀ fuel ≥ enough,
        runTraced Script.behaviours fuel k [.process script] world [none] =
          .ok (.ok ⟨.finished .noMoreEvents, q.kernel.now, q.world.2.reverse⟩, world) := by
  obtain ⟨q, ⟨-, enough, looped⟩, pausing, pending⟩ :=
    (cued_ofScript plain script world).loop plain (show k.Takes ([] ++ script.steps) from takes)
  obtain ⟨ends, logged, -⟩ := pausing.told
  have built := build_of_plain plain script world
  generalize begins : (ofScript k script (world, [])).setHook .changeLog = s at looped
  have ran (fuel : Nat) (granted : enough ≤ fuel) :
      run (Script.behaviours.beside _) fuel s none =
        .ok ({ q with state := .finished }, .ok (.finished .noMoreEvents)) := by
    have longer := loop_mono looped nofun granted
    have down := shutdown_of_log (q := { q with state := .finished }) pausing.unlinked logged.hook
    have started : s.startHook = (s.startHook.1, .ok ()) := by
      rw [← begins]
      rfl
    have uncapped : s.startHook.1.capOf none = none := by
      rw [← begins]
      rfl
    have running : s.hasEnded = false := by
      rw [← begins]
      rfl
    rw [Script.beside_behaviours, run, running, if_neg Bool.false_ne_true, started]
    dsimp only
    rw [uncapped, longer]
    dsimp only [conclude]
    rw [down]
  have same : q.kernel.blueprint = k.blueprint := by
    have adjusts : (ofScript k script (world, [])).Adjusts s := by
      rw [← begins]
      exact ⟨_, _, _, _, _, _, rfl⟩
    have reached := Reached.adjusted (.built plain.made built) adjusts
    have leads := (Leads.ran .stays (ran enough (Nat.le_refl enough))).blueprint reached
    rw [← begins] at leads
    exact leads
  refine ⟨q, pausing, pending, same, enough, fun fuel granted => ?_⟩
  have closed := closeLink_of_unlinked (q := { q with state := .finished }) pausing.unlinked
  have played := ran fuel granted
  rw [← begins] at played
  unfold runTraced
  dsimp only
  rw [built]
  dsimp only
  rw [runEach]
  unfold Hook.changeLog at played
  rw [played]
  dsimp only [runEach, quit]
  rw [closed]
  dsimp only
  rw [pausing.world]

/-! ## What the log tells -/

section Told

variable {w : ω} {steps : List ScriptStep} {q : Simulation Script (ω × List Change)}
  {id : SignalId} {s : Signal}

/-- The log of a script that was played tells of each traced signal what the last of its steps says
that were due. -/
theorem Pausing.valueAt_of_traced (unique : k.NamesUnique) (pausing : q.Pausing k w name steps [])
    (pending : q.kernel.pending = []) (same : q.kernel.blueprint = k.blueprint)
    (found : k.signal? id = some s) (traced : s.traced = true) (t : Nat) :
    (Change.valueAt q.world.2.reverse s.name s.init t).same
      (s.after (Script.lastDue? steps id t)) = true := by
  obtain ⟨ends, logged, tells⟩ := pausing.told
  have history := logged.chronicled
  obtain ⟨s', found', played⟩ := pausing.plays.signal found
  obtain ⟨-, -, init⟩ := played.declared
  have traced' : s'.traced = true := by
    rw [← played.design] at traced
    exact traced
  have value : Change.valueAt q.world.2.reverse s.name s.init t = Change.leave s'.init
      (q.world.2.reverse.filter fun c => c.signal == id && c.time ≤ t) := by
    rw [init, ← unique.filter_name same history found t]
    rfl
  rw [value]
  rw [List.append_nil] at tells
  by_cases past : t < q.kernel.now
  · obtain ⟨v, held, means⟩ := tells t past id s found
    rw [history.past t past id s' found' traced'] at held
    cases held
    exact means
  · -- The last tick has not ended, so that what was committed in it counts.
    have now : q.kernel.now ≤ t := Nat.le_of_not_lt past
    have all : (q.world.2.reverse.filter fun c => c.signal == id && c.time ≤ t) =
        q.world.2.reverse.filter fun c => c.signal == id := by
      refine List.filter_congr fun c listed => ?_
      have elapsed : c.time ≤ t := Nat.le_trans (history.elapsed c listed) now
      simp only [elapsed, decide_true, Bool.and_true]
    have early : ∀ step ∈ steps, step.time ≤ t := fun step listed =>
      Nat.le_trans (pausing.early step listed) now
    have upToDate := (pausing.settled.upToDate pending).same id s' found' played.prompt
    have counts : Script.lastDue? (steps ++ []) id t = _ :=
      Script.lastDue?_of_split early (List.forall_mem_nil _) id
    rw [List.append_nil] at counts
    rw [all, (history.chain id s' found' traced').leave_eq, counts, ← played.next]
    exact upToDate

/-- Nothing is told of a signal that is not traced. -/
theorem Pausing.valueAt_of_untraced (unique : k.NamesUnique)
    (pausing : q.Pausing k w name steps []) (same : q.kernel.blueprint = k.blueprint)
    (found : k.signal? id = some s) (untraced : s.traced = false) (t : Nat) :
    Change.valueAt q.world.2.reverse s.name s.init t = s.init := by
  obtain ⟨ends, logged, -⟩ := pausing.told
  have history := logged.chronicled
  obtain ⟨s', found', played⟩ := pausing.plays.signal found
  have none_ : (q.world.2.reverse.filter fun c => c.signal == id && c.time ≤ t) = [] := by
    refine List.filter_eq_nil_iff.mpr fun c listed own => ?_
    obtain ⟨s₁, found₁, traced, -⟩ := history.named c listed
    have here : c.signal = id := beq_iff_eq.mp (Bool.and_eq_true_iff.mp own).1
    rw [here, found'] at found₁
    cases found₁
    rw [← played.design] at untraced
    exact absurd (traced.symm.trans untraced) nofun
  unfold Change.valueAt
  rw [unique.filter_name same history found t, none_]
  rfl

end Told

/-! ## Scripts on record -/

/-- A script is played back. On a kernel whose signals have no delays, follow from nothing, and have
names of their own, a traced run of any script whose ticks are in range and whose values the signals
take finishes at its largest tick, or at the start if it is empty. At every tick, the changes tell
of each traced signal what the step says that was added last among those of the latest tick, and the
initial value before any step. Of other signals they tell nothing. -/
theorem a_script_is_played_back (plain : k.Plain) (unique : k.NamesUnique)
    (admits : ∀ step ∈ added, k.Admits step) (bounded : ∀ step ∈ added, step.time ≤ lastTick)
    (name : String) (world : ω) :
    ∃ changes,
      (∃ enough, ∀ fuel ≥ enough,
        runTraced Script.behaviours fuel k [.process (Script.ofSteps name added)] world [none] =
          .ok (.ok ⟨.finished .noMoreEvents, (added.map (·.time)).max?.getD 0, changes⟩, world)) ∧
      ∀ id s, k.signal? id = some s → ∀ t,
        (s.traced = true → ∃ v, Script.Leaves added id s t v ∧
          (Change.valueAt changes s.name s.init t).same v = true) ∧
        (s.traced = false → Change.valueAt changes s.name s.init t = s.init) := by
  obtain ⟨ordered, perm⟩ := Script.steps_ofSteps name added
  have takes : k.Takes (Script.ofSteps name added).steps :=
    ⟨fun step listed => admits step (perm.mem_iff.mp listed),
      fun step listed => bounded step (perm.mem_iff.mp listed), ordered⟩
  obtain ⟨q, pausing, pending, same, enough, runs⟩ := runTraced_of_script plain _ takes world
  have punctual := pausing.punctual
  rw [List.append_nil] at punctual
  refine ⟨q.world.2.reverse, ⟨enough, fun fuel granted => ?_⟩, fun id s found t => ⟨?_, ?_⟩⟩
  · rw [Script.max?_times pausing.early punctual]
    exact runs fuel granted
  · intro traced
    exact ⟨_, Script.leaves_ofSteps admits found t,
      pausing.valueAt_of_traced unique pending same found traced t⟩
  · exact fun untraced => pausing.valueAt_of_untraced unique same found untraced t

/-- A design with one signal, a dial that is traced or not. -/
def dial (traced : Bool) : Kernel :=
  (({} : Kernel).declare "s" (.int 0) none).2.modify ⟨0⟩ fun s => { s with traced }

theorem dial_of_found {traced : Bool} {id : SignalId} {s : Signal}
    (found : (dial traced).signal? id = some s) :
    id = ⟨0⟩ ∧ s = { Signal.ofInit "s" (.int 0) none with traced } := by
  obtain ⟨_ | index⟩ := id
  · exact ⟨rfl, (Option.some.inj found).symm⟩
  · cases found

theorem plain_dial (traced : Bool) : (dial traced).Plain where
  made := .annotated (.signal .empty "s" (.int 0) none) ⟨0⟩ traced none false
  prompt id s found := by
    rw [(dial_of_found found).2]
    rfl
  free id s found := by
    rw [(dial_of_found found).2]
    rfl

theorem namesUnique_dial (traced : Bool) : (dial traced).NamesUnique := by
  intro id id' s s' found found' _
  rw [(dial_of_found found).1, (dial_of_found found').1]

theorem admits_dial (traced : Bool) (time : Nat) (n : Int) :
    (dial traced).Admits ⟨time, ⟨0⟩, .int n⟩ :=
  ⟨_, .int n, rfl, rfl, nofun⟩

/-- Three writes that were not added in the order of their ticks. -/
def threeWrites : List ScriptStep :=
  [⟨20, ⟨0⟩, .int 2⟩, ⟨5, ⟨0⟩, .int 1⟩, ⟨20, ⟨0⟩, .int 3⟩]

/-- The write that was added last wins at its tick. -/
theorem leaves_threeWrites {s : Signal} (kind : s.kind = .int) (init : s.init = .int 0) {t : Nat}
    {v : Value} (leaves : Script.Leaves threeWrites ⟨0⟩ s t v) :
    v = if t < 5 then .int 0 else if t < 20 then .int 1 else .int 3 := by
  cases leaves with
  | untouched undue =>
      have early : t < 5 := by
        have waits := undue ⟨5, ⟨0⟩, .int 1⟩ (by simp [threeWrites])
        exact Nat.lt_of_not_le fun due => waits ⟨rfl, due⟩
      rw [if_pos early, init]
  | @written step v latest taken =>
      obtain ⟨⟨-, due⟩, before, after, split, least, most⟩ := latest
      rcases before with _ | ⟨first, _ | ⟨second, _ | ⟨third, before⟩⟩⟩
      · obtain ⟨rfl, rfl⟩ := List.cons_eq_cons.mp split
        exact absurd (most ⟨20, ⟨0⟩, .int 3⟩ (by simp) ⟨rfl, due⟩) (Nat.lt_irrefl 20)
      · obtain ⟨-, split⟩ := List.cons_eq_cons.mp split
        obtain ⟨rfl, rfl⟩ := List.cons_eq_cons.mp split
        have soon : t < 20 := Nat.lt_of_not_le fun late =>
          absurd (most ⟨20, ⟨0⟩, .int 3⟩ (.head _) ⟨rfl, late⟩) (by decide)
        rw [kind] at taken
        cases taken
        rw [if_neg (Nat.not_lt.mpr due), if_pos soon]
      · obtain ⟨-, split⟩ := List.cons_eq_cons.mp split
        obtain ⟨-, split⟩ := List.cons_eq_cons.mp split
        obtain ⟨rfl, rfl⟩ := List.cons_eq_cons.mp split
        have late : 20 ≤ t := due
        rw [kind] at taken
        cases taken
        rw [if_neg (by omega), if_neg (by omega)]
      · simp [threeWrites] at split

/-- Three writes are played back, and the last one that was added for a tick is the one that is told
of it. -/
theorem three_writes_are_played_back :
    ∃ changes,
      (∃ enough, ∀ fuel ≥ enough,
        runTraced Script.behaviours fuel (dial true) [.process (Script.ofSteps "p" threeWrites)] ()
          [none] = .ok (.ok ⟨.finished .noMoreEvents, 20, changes⟩, ())) ∧
      ∀ t, (Change.valueAt changes "s" (.int 0) t).same
        (if t < 5 then .int 0 else if t < 20 then .int 1 else .int 3) = true := by
  have admits : ∀ step ∈ threeWrites, (dial true).Admits step := by
    simp only [threeWrites, List.forall_mem_cons]
    exact ⟨admits_dial true 20 2, admits_dial true 5 1, admits_dial true 20 3, nofun⟩
  have bounded : ∀ step ∈ threeWrites, step.time ≤ lastTick := by decide
  obtain ⟨changes, runs, told⟩ := a_script_is_played_back (plain_dial true) (namesUnique_dial true)
    admits bounded "p" ()
  refine ⟨changes, runs, fun t => ?_⟩
  obtain ⟨v, leaves, same⟩ := (told ⟨0⟩ _ rfl t).1 rfl
  rw [← leaves_threeWrites rfl rfl leaves]
  exact same

/-- A script that writes a signal which is not traced leaves no record. -/
theorem an_untraced_signal_is_not_played_back :
    (dial false).Plain ∧ (dial false).NamesUnique ∧
      (dial false).Admits ⟨5, ⟨0⟩, .int 1⟩ ∧
      runTraced Script.behaviours 3 (dial false)
        [.process (Script.ofSteps "p" [⟨5, ⟨0⟩, .int 1⟩])] () [none] =
          .ok (.ok ⟨.finished .noMoreEvents, 5, []⟩, ()) ∧
      Script.Leaves [⟨5, ⟨0⟩, .int 1⟩] ⟨0⟩ (.ofInit "s" (.int 0) none) 5 (.int 1) ∧
      (Change.valueAt [] "s" (.int 0) 5).same (.int 1) = false := by
  refine ⟨plain_dial false, namesUnique_dial false, admits_dial false 5 1, ?_, ?_, rfl⟩
  · decide +kernel
  · exact .written ⟨⟨rfl, Nat.le_refl 5⟩, [], [], rfl, nofun, nofun⟩ rfl

end Simulation

end DeltaCycle
