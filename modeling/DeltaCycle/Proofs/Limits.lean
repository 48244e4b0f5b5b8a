import DeltaCycle.Proofs.Candour
import DeltaCycle.Proofs.GuiseRuns

/-!
# The limit of delta cycles

Where the limit of delta cycles cuts a session short, a wider limit lets it go on from there, and
where it does not, a wider limit changes nothing. What is cut short is the first tick that takes more
delta cycles than the limit allows.
-/

set_option autoImplicit false

namespace DeltaCycle

variable {σ ω : Type}

/-! ## Counting -/

namespace Pace

/-- The tick of each delta cycle that was entered from one pace to another, as long as the tick is
the same. -/
def entries (p p' : Pace) : List Nat := List.replicate (p'.deltas - p.deltas) p.now

/-- A log of the ticks of all delta cycles that were entered counts those of the present tick as the
pace does, and no tick has more of them than the limit allows. -/
structure Counts (p : Pace) (log : List Nat) : Prop where
  here : log.count p.now = p.delta
  kept : ∀ time, log.count time ≤ p.limit
  passed : ∀ time ∈ log, time ≤ p.now

theorem entries_self (p : Pace) : p.entries p = [] := by
  rw [entries, Nat.sub_self, List.replicate_zero]

theorem entries_entered (p : Pace) : p.entries p.entered = [p.now] := by
  have one : p.entered.deltas - p.deltas = 1 := Nat.add_sub_cancel_left ..
  rw [entries, one, List.replicate_one]

theorem count_now (p : Pace) (log : List Nat) :
    (log ++ p.entries p.entered).count p.now = log.count p.now + 1 := by
  rw [entries_entered, List.count_append, List.count_singleton_self]

theorem count_elsewhere (p : Pace) (log : List Nat) {time : Nat} (elsewhere : time ≠ p.now) :
    (log ++ p.entries p.entered).count time = log.count time := by
  rw [entries_entered, List.count_append, List.count_cons_of_ne elsewhere.symm, List.count_nil,
    Nat.add_zero]

namespace Counts

variable {p p' : Pace} {log : List Nat}

theorem goes (counts : p.Counts log) {cap : Option Nat} (goes : p.Goes cap p') :
    p'.Counts (log ++ p.entries p') := by
  cases goes with
  | stays allowed =>
      have here := counts.here
      have now : p.entered.now = p.now := rfl
      constructor
      · rw [now, count_now, here]
        rfl
      · intro time
        by_cases present : time = p.now
        · subst present
          rw [count_now, here]
          exact allowed
        · rw [count_elsewhere p log present]
          exact counts.kept time
      · intro time listed
        rw [entries_entered] at listed
        rcases List.mem_append.mp listed with before | present
        · exact counts.passed time before
        · exact Nat.le_of_eq (List.mem_singleton.mp present)
  | @moves now later inTime =>
      -- No cycle was in a later tick before, so that the count of it begins at none.
      have none : p.entries { p with now, delta := 0 } = [] := p.entries_self
      rw [none, List.append_nil]
      constructor
      · refine List.count_eq_zero.mpr fun listed => ?_
        have passed := counts.passed now listed
        omega
      · exact counts.kept
      · exact fun time listed => Nat.le_trans (counts.passed time listed) (Nat.le_of_lt later)

end Counts

end Pace

/-- The error tells of the first tick in a log that has more entries than the limit allows. -/
def TellsOf (log : List Nat) (limit : Nat) (e : SimError) : Prop :=
  ∃ time, e = .deltaCycleLimit time limit ∧ limit < log.count time ∧
    ∀ earlier < time, log.count earlier ≤ limit

theorem Pace.Counts.exceeds {p p' : Pace} {log : List Nat} (counts : p.Counts log) {e : SimError}
    (exceeds : p.Exceeds p' e) : TellsOf (log ++ p.entries p') p.limit e := by
  obtain ⟨rfl, past, told⟩ := exceeds
  have here := counts.here
  refine ⟨p.now, told, ?_, fun earlier before => ?_⟩
  · rw [count_now, here]
    exact Nat.lt_succ_of_le past
  · rw [count_elsewhere p log (Nat.ne_of_lt before)]
    exact counts.kept earlier

namespace Simulation

/-- The tick of each delta cycle that is entered in a loop, in order. -/
def loopDeltas (B : Behaviours σ ω) : Nat → Simulation σ ω → Option Nat → List Nat
  | 0, _, _ => []
  | fuel + 1, s, cap =>
      match s.cycle B (fuel + 1) cap with
      | .error _ => []
      | .ok (s', .again) => s.pace.entries s'.pace ++ loopDeltas B fuel s' cap
      | .ok (s', .ended _) => s.pace.entries s'.pace

/-- The tick of each delta cycle that is entered in a run. -/
def runDeltas (B : Behaviours σ ω) (fuel : Nat) (s : Simulation σ ω) (duration : Option Nat) :
    List Nat :=
  if s.hasEnded then
    []
  else
    match s.startHook with
    | (_, .error _) => []
    | (s, .ok _) => loopDeltas B fuel s (s.capOf duration)

/-- The tick of each delta cycle that is entered in a call. -/
def answerDeltas (B : Behaviours σ ω) (fuel : Nat) (s : Simulation σ ω) : Call → List Nat
  | .run duration => runDeltas B fuel s duration
  | .runToCompletion => runDeltas B fuel { s with defaultDuration := none } none

/-- The tick of each delta cycle that is entered in a session. -/
def playDeltas (B : Behaviours σ ω) (fuel : Nat) : Simulation σ ω → List (Move ω) → List Nat
  | _, [] => []
  | s, .setHook hook :: moves => (s.setHook hook).playDeltas B fuel moves
  | s, .setMaxDeltas maxDeltas :: moves => (s.setMaxDeltas maxDeltas).playDeltas B fuel moves
  | s, .setDefaultDuration defaultDuration :: moves =>
      { s with defaultDuration }.playDeltas B fuel moves
  | s, .call call :: moves =>
      s.answerDeltas B fuel call ++
        match s.answer B fuel call with
        | .error _ => []
        | .ok (s, _) => s.playDeltas B fuel moves

variable {B : Behaviours σ ω} {s s' : Simulation σ ω} {log : List Nat}

theorem counts_of_loop (reached : Reached B s) {fuel : Nat} {cap : Option Nat}
    (capped : ∀ limit ∈ cap, s.kernel.now ≤ limit) (counts : s.pace.Counts log)
    {result : Except SimError Outcome} (looped : loop B fuel s cap = .ok (s', result)) :
    (result = .ok .suspended → s'.pace.Counts (log ++ loopDeltas B fuel s cap)) ∧
      (B.Candid → s.Tactful → ∀ e, result = .error e → e.isLimit = true →
        TellsOf (log ++ loopDeltas B fuel s cap) s.maxDeltas e) := by
  replace looped := way_of_loop looped
  -- The log goes up to the present cycle: it counts the present tick as the pace does.
  induction looped generalizing log with
  | ended turned =>
      rw [loopDeltas, turned]
      constructor
      · intro suspended
        subst suspended
        dsimp only
        rcases pace_of_suspended_cycle capped turned with same | goes
        · rw [same, Pace.entries_self, List.append_nil]
          exact counts
        · exact counts.goes goes
      · intro candid tactful e failed told
        subst failed
        exact counts.exceeds (exceeds_of_cycle told candid tactful turned)
  | @again fuel s s₁ turned further ih =>
      have goes := reached.goes_of_cycle turned
      have limit : s₁.maxDeltas = s.maxDeltas := goes.limit
      have capped₁ : ∀ limit ∈ cap, s₁.kernel.now ≤ limit := by
        intro limit present
        have before := capped limit present
        rw [Option.mem_def.mp present] at turned
        exact le_cap_of_cycle before turned
      have further := ih (reached.cycled turned) capped₁ (counts.goes goes)
      rw [loopDeltas, turned]
      dsimp only
      rw [← List.append_assoc]
      refine ⟨further.1, fun candid tactful => ?_⟩
      rw [← limit]
      exact further.2 candid (tactful.of_equipment (equipment_cycle turned))

theorem counts_of_run (reached : Reached B s) (inTime : s.InTime) (counts : s.pace.Counts log)
    {fuel : Nat} {duration : Option Nat} {result : Except SimError Outcome}
    (ran : run B fuel s duration = .ok (s', result)) :
    (s'.hasEnded = true ∨ s'.pace.Counts (log ++ runDeltas B fuel s duration)) ∧
      (B.Candid → s.Tactful → ∀ e, result = .error e → e.isLimit = true →
        s'.hasEnded = true ∧ TellsOf (log ++ runDeltas B fuel s duration) s.maxDeltas e) := by
  have paced := pace_startHook s
  have begun : Reached B s.startHook.1 := .adjusted reached s.adjusts_startHook
  have inTime' := inTime.of_office s.office_startHook
  have kept := s.equipment_startHook
  unfold runDeltas
  cases way_of_run ran with
  | terminated ended =>
      refine ⟨.inl ended, fun _ _ e failed told => ?_⟩
      cases failed
      cases told
  | untold running started =>
      rw [if_neg (Bool.eq_false_iff.mp running), started]
      rw [started] at paced
      refine ⟨.inr ?_, fun _ tactful e failed told => ?_⟩
      · dsimp only
        rw [paced, List.append_nil]
        exact counts
      · have candid := candid_startHook tactful
        cases failed
        rw [started] at candid
        cases told.symm.trans candid
  | @played s₁ s₂ _ final _ running started looped concluded =>
      rw [if_neg (Bool.eq_false_iff.mp running), started]
      rw [started] at paced begun inTime' kept
      dsimp only at paced begun inTime' kept
      have limit : s₁.maxDeltas = s.maxDeltas := congrArg Pace.limit paced
      rw [← paced] at counts
      have loops := counts_of_loop begun (inTime'.le_capOf duration) counts looped
      have concludes := pace_conclude s₂ final
      rw [concluded] at concludes
      constructor
      · by_cases suspended : final = .ok .suspended
        · have counted := loops.1 suspended
          rw [← concludes] at counted
          exact .inr counted
        · have ended := s₂.ended_conclude suspended
          rw [concluded] at ended
          exact .inl ended
      · intro candid tactful e failed told
        subst failed
        have tactful₁ : s₁.Tactful := tactful.of_equipment kept
        have failed := loop_told_of_conclude told
          (tactful₁.of_equipment (equipment_loop looped)) concluded
        have tells := loops.2 candid tactful₁ e failed told
        have stopped : final ≠ .ok .suspended := by
          rw [failed]
          exact nofun
        have ended := s₂.ended_conclude stopped
        rw [concluded] at ended
        rw [limit] at tells
        exact ⟨ended, tells⟩

/-- A simulation in which the limit was kept so far, with the tick of each delta cycle. -/
structure OnTrack (B : Behaviours σ ω) (log : List Nat) (s : Simulation σ ω) : Prop where
  reached : Reached B s
  inTime : s.InTime
  counts : s.pace.Counts log

theorem OnTrack.setHook (onTrack : OnTrack B log s) (hook : Hook ω) :
    OnTrack B log (s.setHook hook) :=
  ⟨.adjusted onTrack.reached ⟨_, _, _, _, _, _, rfl⟩, onTrack.inTime.of_same rfl rfl,
    onTrack.counts⟩

theorem OnTrack.setDefaultDuration (onTrack : OnTrack B log s) (defaultDuration : Option Nat) :
    OnTrack B log { s with defaultDuration } :=
  ⟨.adjusted onTrack.reached ⟨_, _, _, _, _, _, rfl⟩, onTrack.inTime.of_same rfl rfl,
    onTrack.counts⟩

/-- A call ends a simulation or keeps it on track. Where nobody else gives the error that tells of the
limit, a call that returns it ends the simulation, in the tick of which the error tells. -/
theorem OnTrack.answer (onTrack : OnTrack B log s) {fuel : Nat} {call : Call}
    {result : Except SimError Outcome} (answered : s.answer B fuel call = .ok (s', result)) :
    (s'.hasEnded = true ∨ OnTrack B (log ++ s.answerDeltas B fuel call) s') ∧
      (B.Candid → s.Tactful → ∀ e, result = .error e → e.isLimit = true →
        s'.hasEnded = true ∧ TellsOf (log ++ s.answerDeltas B fuel call) s.maxDeltas e) := by
  have reached := (leads_of_answer answered).reached onTrack.reached
  have inTime := onTrack.inTime.answer answered
  have going : (s'.hasEnded = true ∨ s'.pace.Counts (log ++ s.answerDeltas B fuel call)) ∧
      (B.Candid → s.Tactful → ∀ e, result = .error e → e.isLimit = true →
        s'.hasEnded = true ∧ TellsOf (log ++ s.answerDeltas B fuel call) s.maxDeltas e) := by
    cases call with
    | run duration => exact counts_of_run onTrack.reached onTrack.inTime onTrack.counts answered
    | runToCompletion =>
        have uncapped := onTrack.setDefaultDuration none
        exact counts_of_run uncapped.reached uncapped.inTime uncapped.counts answered
  exact ⟨going.1.imp_right fun counts => ⟨reached, inTime, counts⟩, going.2⟩

/-! ## Sessions that have ended -/

/-- Once a simulation has ended, a session enters no more delta cycles, commits nothing, and is
refused whatever it asks for. -/
theorem play_of_ended (ended : s.hasEnded = true) (fuel : Nat) (moves : List (Move ω)) :
    s.playDeltas B fuel moves = [] ∧ s.playCommits B fuel moves = [] ∧
      ∃ t results, s.play B fuel moves = .ok (t, results) ∧
        ∀ result ∈ results, result = .error .terminated := by
  induction moves generalizing s with
  | nil => exact ⟨rfl, rfl, s, [], rfl, fun _ listed => absurd listed List.not_mem_nil⟩
  | cons move moves ih =>
      cases move with
      | setHook hook => exact ih (s := s.setHook hook) ended
      | setMaxDeltas maxDeltas => exact ih (s := s.setMaxDeltas maxDeltas) ended
      | setDefaultDuration defaultDuration => exact ih (s := { s with defaultDuration }) ended
      | call call =>
          obtain ⟨defaultDuration, refused⟩ := answer_of_ended (B := B) ended fuel call
          obtain ⟨deltas, commits, t, results, later, refusals⟩ :=
            ih (s := { s with defaultDuration }) ended
          have none : s.answerDeltas B fuel call = [] ∧ s.answerCommits B fuel call = [] := by
            cases call with
            | run duration => exact ⟨if_pos ended, if_pos ended⟩
            | runToCompletion => exact ⟨if_pos ended, if_pos ended⟩
          rw [playDeltas, playCommits, play, refused, none.1, none.2]
          refine ⟨deltas, commits, t, .error .terminated :: results, ?_, ?_⟩
          · dsimp only
            rw [later]
          · intro result listed
            rcases List.mem_cons.mp listed with same | after
            · exact same
            · exact refusals result after

/-- The error that tells of the limit, in a session in which nobody else gives it, tells of the first
tick that has more delta cycles than the limit allows. -/
theorem OnTrack.tells (onTrack : OnTrack B log s) (candid : B.Candid) (tactful : s.Tactful)
    {fuel : Nat} {moves : List (Move ω)} (fixed : ∀ n, .setMaxDeltas n ∉ moves)
    (hooks : ∀ h, .setHook h ∈ moves → h.Candid) {results : List (Except SimError Outcome)}
    (played : s.play B fuel moves = .ok (s', results)) {e : SimError} (listed : .error e ∈ results)
    (told : e.isLimit = true) : TellsOf (log ++ s.playDeltas B fuel moves) s.maxDeltas e := by
  induction moves generalizing s log results with
  | nil =>
      cases played
      cases listed
  | cons move moves ih =>
      have fixed' : ∀ n, .setMaxDeltas n ∉ moves := fun n later => fixed n (.tail _ later)
      have hooks' : ∀ h, .setHook h ∈ moves → h.Candid := fun h later => hooks h (.tail _ later)
      cases move with
      | setHook hook =>
          have tactful' : (s.setHook hook).Tactful := by
            intro h hooked
            cases hooked
            exact hooks hook (.head _)
          exact ih (onTrack.setHook hook) tactful' fixed' hooks' played listed
      | setMaxDeltas maxDeltas => exact absurd (.head _) (fixed maxDeltas)
      | setDefaultDuration defaultDuration =>
          exact ih (onTrack.setDefaultDuration defaultDuration) tactful fixed' hooks' played listed
      | call call =>
          obtain ⟨s₁, result, rest, answered, others, rfl⟩ := play_call played
          obtain ⟨going, fails⟩ := onTrack.answer answered
          obtain ⟨defaultDuration, kept⟩ := equipment_answer answered
          have limit : s₁.maxDeltas = s.maxDeltas := congrArg Equipment.maxDeltas kept
          have hook : s₁.hook = s.hook := congrArg Equipment.hook kept
          rw [playDeltas, answered, ← List.append_assoc]
          dsimp only
          -- A call that tells of the limit ends the simulation, so that the log grows no more.
          rcases List.mem_cons.mp listed with same | later
          · obtain ⟨ended, tells⟩ := fails candid tactful e same.symm told
            rw [(play_of_ended ended fuel moves).1, List.append_nil]
            exact tells
          · rcases going with ended | onTrack₁
            · obtain ⟨-, -, t, results, plays, refusals⟩ :=
                play_of_ended (B := B) ended fuel moves
              cases plays.symm.trans others
              cases refusals _ later
              cases told
            · have tactful₁ : s₁.Tactful := by
                unfold Tactful
                rw [hook]
                exact tactful
              rw [← limit]
              exact ih onTrack₁ tactful₁ fixed' hooks' others later

end Simulation

/-! ## Wider limits -/

/-- The guise in which another limit holds. -/
def Guise.limited (limit : Nat) : Guise ω ω where
  world := id
  mark := id
  hook := id
  started := id
  bridge := id
  limit := fun _ => limit

namespace Simulation

variable {B : Behaviours σ ω} {s s' : Simulation σ ω} {log : List Nat}

theorem inGuise_limited (s : Simulation σ ω) (limit : Nat) :
    s.inGuise (.limited limit) = s.setMaxDeltas limit := by
  have links : (Guise.limited limit).link = (id : Link ω → Link ω) := rfl
  unfold inGuise
  rw [links, Option.map_id]
  simp only [Guise.limited, Kernel.retraced_id]
  rfl

theorem Equipment.suits_limited {e : Equipment ω} {limit : Nat} (wider : e.maxDeltas ≤ limit) :
    (Guise.limited limit).Suits e where
  began := rfl
  start told k w := by
    simp only [Guise.limited, Kernel.retraced_id]
    rfl
  change _ _ _ := rfl
  finish _ := rfl
  bridge b _ := ⟨rfl, fun _ _ => rfl, fun _ _ _ => rfl, fun _ => rfl⟩
  limit := wider

theorem renders_limited (B : Behaviours σ ω) (limit : Nat) : (Guise.limited limit).Renders B B where
  name := rfl
  resume state k w := by
    simp only [Guise.limited, Kernel.retraced_id]
    exact Option.map_id'.symm
  react body k w := by
    simp only [Guise.limited, Kernel.retraced_id]
    exact Option.map_id'.symm

/-- A call under a wider limit does the same, unless the limit cuts it short. -/
theorem answer_limited {limit : Nat} (wider : s.maxDeltas ≤ limit) (fuel : Nat) (call : Call) :
    Carried (Guise.limited limit) .error (s.answerCommits B fuel call, s.answer B fuel call)
      ((s.setMaxDeltas limit).answerCommits B fuel call,
        (s.setMaxDeltas limit).answer B fuel call) := by
  rw [← inGuise_limited]
  have fits : s.Fits (.limited limit) := Equipment.suits_limited wider
  exact answer_inGuise (renders_limited B limit) fits fuel call

/-- The simulation has ended, or the limit was kept so far. -/
def Regular (B : Behaviours σ ω) (s : Simulation σ ω) : Prop :=
  s.hasEnded = true ∨ ∃ log, OnTrack B log s

namespace Regular

theorem answer (regular : s.Regular B) {fuel : Nat} {call : Call}
    {result : Except SimError Outcome} (answered : s.answer B fuel call = .ok (s', result)) :
    s'.Regular B := by
  rcases regular with ended | ⟨log, onTrack⟩
  · obtain ⟨defaultDuration, refused⟩ := answer_of_ended (B := B) ended fuel call
    cases refused.symm.trans answered
    exact .inl ended
  · exact (onTrack.answer answered).1.imp_right fun onTrack => ⟨_, onTrack⟩

theorem ended (regular : s.Regular B) (past : s.maxDeltas < s.delta) : s.hasEnded = true := by
  rcases regular with ended | ⟨log, onTrack⟩
  · exact ended
  · have here : log.count s.kernel.now = s.delta := onTrack.counts.here
    have kept : log.count s.kernel.now ≤ s.maxDeltas := onTrack.counts.kept _
    omega

/-- Under a wider limit a session is the same, or the limit has cut it short, and under the wider one
it commits the same up to there. -/
theorem play_limited (regular : s.Regular B) {limit : Nat} (wider : s.maxDeltas ≤ limit)
    (fuel : Nat) {moves : List (Move ω)} (fixed : ∀ n, .setMaxDeltas n ∉ moves) :
    ((s.setMaxDeltas limit).play B fuel moves =
        (s.play B fuel moves).map (Guise.limited limit).on ∧
      (s.setMaxDeltas limit).playCommits B fuel moves = s.playCommits B fuel moves) ∨
    ∃ t results e, s.play B fuel moves = .ok (t, results) ∧ .error e ∈ results ∧
      e.isLimit = true ∧
      s.playCommits B fuel moves <+: (s.setMaxDeltas limit).playCommits B fuel moves := by
  induction moves generalizing s with
  | nil =>
      have plays : (s.play B fuel []).map (Guise.limited limit).on =
          .ok (s.inGuise (.limited limit), []) := rfl
      rw [plays, inGuise_limited]
      exact .inl ⟨rfl, rfl⟩
  | cons move moves ih =>
      have fixed' : ∀ n, .setMaxDeltas n ∉ moves := fun n later => fixed n (.tail _ later)
      cases move with
      | setHook hook =>
          refine ih (s := s.setHook hook) ?_ wider fixed'
          exact regular.imp_right fun ⟨log, onTrack⟩ => ⟨log, onTrack.setHook hook⟩
      | setMaxDeltas maxDeltas => exact absurd (.head _) (fixed maxDeltas)
      | setDefaultDuration defaultDuration =>
          refine ih (s := { s with defaultDuration }) ?_ wider fixed'
          exact regular.imp_right fun ⟨log, onTrack⟩ =>
            ⟨log, onTrack.setDefaultDuration defaultDuration⟩
      | call call =>
          have answers := answer_limited (B := B) wider fuel call
          rw [playCommits, playCommits, play, play]
          generalize s.answerCommits B fuel call = changes,
            (s.setMaxDeltas limit).answerCommits B fuel call = changes',
            (s.setMaxDeltas limit).answer B fuel call = out' at answers ⊢
          cases answered : s.answer B fuel call with
          | error stuck =>
              rw [answered] at answers
              cases answers with
              | same => exact .inl ⟨rfl, rfl⟩
          | ok turn =>
              obtain ⟨s₁, result⟩ := turn
              have regular₁ := regular.answer answered
              obtain ⟨defaultDuration, kept⟩ := equipment_answer answered
              have same : s₁.maxDeltas = s.maxDeltas := congrArg Equipment.maxDeltas kept
              rw [answered] at answers
              cases answers with
              | same =>
                  dsimp only [Except.map, Guise.on]
                  rw [inGuise_limited]
                  rcases ih regular₁ (same.trans_le wider) fixed' with ⟨plays, commits⟩ |
                    ⟨t, results, e, plays, listed, told, initial⟩
                  · rw [plays, commits]
                    refine .inl ⟨?_, rfl⟩
                    cases s₁.play B fuel moves <;> rfl
                  · rw [plays]
                    exact .inr ⟨t, result :: results, e, rfl, .tail _ listed, told,
                      (List.prefix_append_right_inj changes).mpr initial⟩
              | cut out' overruns initial =>
                  -- The simulation has ended, while under the wider limit it may go on.
                  have ended := regular₁.ended overruns.past
                  obtain ⟨-, commits, t, results, plays, -⟩ :=
                    play_of_ended (B := B) ended fuel moves
                  dsimp only
                  rw [plays, commits, List.append_nil]
                  exact .inr ⟨t, _, _, rfl, .head _, rfl,
                    initial.trans (List.prefix_append changes' _)⟩

end Regular

/-- The limit only cuts sessions short. Take a simulation under two limits. Up to where the narrow one
cuts it short, a session commits under it what it commits under the wide one. Where no call returns
the error that tells of the limit, the session is the same: it gets stuck alike, or returns the same,
commits the same and leaves the same simulation, with its clock and its counters. And where a call
returns that error, and neither process nor block nor hook has made it up, it names the limit and the
first tick with more delta cycles than that. -/
theorem the_limit_only_cuts_sessions_short {kernel : Kernel} {instances : List (Instance σ ω)}
    {world : ω} {s : Simulation σ ω} (made : kernel.Made)
    (built : build B kernel instances world = .ok s) {narrow wide : Nat} (wider : narrow ≤ wide)
    (fuel : Nat) {moves : List (Move ω)} (fixed : ∀ n, .setMaxDeltas n ∉ moves) :
    (s.setMaxDeltas narrow).playCommits B fuel moves <+:
        (s.setMaxDeltas wide).playCommits B fuel moves ∧
      ((∀ t results, (s.setMaxDeltas narrow).play B fuel moves = .ok (t, results) →
          ∀ time limit, .error (.deltaCycleLimit time limit) ∉ results) →
        (s.setMaxDeltas wide).play B fuel moves =
            ((s.setMaxDeltas narrow).play B fuel moves).map
              (fun (t, results) => (t.setMaxDeltas wide, results)) ∧
          (s.setMaxDeltas wide).playCommits B fuel moves =
            (s.setMaxDeltas narrow).playCommits B fuel moves) ∧
      (B.Candid → (∀ h, .setHook h ∈ moves → h.Candid) →
        ∀ t results time limit, (s.setMaxDeltas narrow).play B fuel moves = .ok (t, results) →
          .error (.deltaCycleLimit time limit) ∈ results →
          limit = narrow ∧
            narrow < ((s.setMaxDeltas narrow).playDeltas B fuel moves).count time ∧
            ∀ earlier < time,
              ((s.setMaxDeltas narrow).playDeltas B fuel moves).count earlier ≤ narrow) := by
  have onTrack : OnTrack B [] (s.setMaxDeltas narrow) := by
    have delta : s.delta = 0 := congrArg Pace.delta (adds_build built).pace
    have adjusts : s.Adjusts (s.setMaxDeltas narrow) := ⟨_, _, _, _, _, _, rfl⟩
    refine ⟨.adjusted (.built made built) adjusts, (inTime_of_build made built).of_same rfl rfl, ?_⟩
    exact ⟨delta.symm, fun _ => Nat.zero_le _, fun _ listed => absurd listed List.not_mem_nil⟩
  have regular : (s.setMaxDeltas narrow).Regular B := .inr ⟨[], onTrack⟩
  have widens : (Guise.limited wide).on (σ := σ) (ω := ω) (α := List (Except SimError Outcome)) =
      fun (t, results) => (t.setMaxDeltas wide, results) :=
    funext fun p => congrArg (·, p.2) (inGuise_limited p.1 wide)
  have again : (s.setMaxDeltas narrow).setMaxDeltas wide = s.setMaxDeltas wide := rfl
  have plays := regular.play_limited wider fuel fixed
  rw [widens, again] at plays
  refine ⟨?_, fun free => ?_, fun candid hooks t results time limit played listed => ?_⟩
  · rcases plays with ⟨-, commits⟩ | ⟨t, results, e, -, -, -, initial⟩
    · rw [commits]
    · exact initial
  · rcases plays with same | ⟨t, results, e, played, listed, told, -⟩
    · exact same
    · cases e with
      | deltaCycleLimit time limit => exact absurd listed (free t results played time limit)
      | _ => cases told
  · have tactful : (s.setMaxDeltas narrow).Tactful := by
      intro h hooked
      cases (outside_of_build built).2.1.symm.trans hooked
    obtain ⟨first, told, past, earlier⟩ := onTrack.tells candid tactful fixed hooks played listed rfl
    rw [List.nil_append] at past earlier
    cases told
    exact ⟨rfl, past, earlier⟩

/-- A process that turns over again and again, with a nap in between. -/
def restless : Behaviours Nat Unit where
  name _ := "restless"
  resume
    | 0 => .done .done
    | 3 => .done (.wait 2 (.delay 2))
    | n + 1 => (Activity.setNext ⟨0⟩ (.int n)).bind fun _ => .done (.wait n .noop)
  react body := .done body

theorem candid_restless : restless.Candid where
  resume state k w turn ran := by
    have turns (n : Nat) (ran : ((Activity.setNext ⟨0⟩ (.int n)).bind fun _ =>
        .done (.wait n .noop) : Activity Unit (Step Nat)).run k w = some turn) : Candid turn.1 := by
      have writes := k.candid_write ⟨0⟩ (.int n) false
      simp only [Activity.setNext, Activity.bind, Activity.run, Request.perform, Kernel.setNext]
        at ran
      generalize k.write ⟨0⟩ (.int n) false = result at ran writes
      obtain ⟨k', e | _⟩ := result
      · cases ran
        exact writes
      · cases ran
        trivial
    unfold restless at ran
    dsimp only at ran
    split at ran
    · cases ran
      trivial
    · cases ran
      trivial
    · exact turns _ ran
  react body k w turn ran := by
    cases ran
    trivial

/-- A simulation of a process that does not find rest. -/
def bed : Simulation Nat Unit :=
  ({ kernel := ledger, world := () } : Simulation Nat Unit).addWaiter "restless" (.process 4) none

/-- Whether a session has these results. -/
def givesBack (results : List (Except SimError Outcome)) :
    Except Stuck (Simulation Nat Unit × List (Except SimError Outcome)) → Bool
  | .ok (_, results') => decide (results' = results)
  | .error _ => false

theorem exists_of_givesBack {results : List (Except SimError Outcome)}
    {out : Except Stuck (Simulation Nat Unit × List (Except SimError Outcome))}
    (back : givesBack results out = true) : ∃ t, out = .ok (t, results) := by
  unfold givesBack at back
  split at back
  · next t results' => exact ⟨t, by rw [of_decide_eq_true back]⟩
  · cases back

/-- With two delta cycles allowed in a tick, the process is cut short in the second of its ticks. With
nine it comes to its end, and with twelve in the same way. -/
theorem a_restless_process_is_cut_short :
    ∃ t t', (bed.setMaxDeltas 2).play restless 20 [.call (.run (some 5))] =
        .ok (t, [.error (.deltaCycleLimit 2 2)]) ∧
      (bed.setMaxDeltas 2).playCommits restless 20 [.call (.run (some 5))] =
        [⟨0, ⟨0⟩, "total", .int 0, .int 3⟩, ⟨2, ⟨0⟩, "total", .int 3, .int 1⟩] ∧
      (bed.setMaxDeltas 2).playCommits restless 20 [.call (.run (some 5))] <+:
        (bed.setMaxDeltas 9).playCommits restless 20 [.call (.run (some 5))] ∧
      2 < ((bed.setMaxDeltas 2).playDeltas restless 20 [.call (.run (some 5))]).count 2 ∧
      (∀ earlier < 2,
        ((bed.setMaxDeltas 2).playDeltas restless 20 [.call (.run (some 5))]).count earlier ≤ 2) ∧
      (bed.setMaxDeltas 9).play restless 20 [.call (.run (some 5))] =
        .ok (t', [.ok (.finished .noMoreEvents)]) ∧
      (bed.setMaxDeltas 12).play restless 20 [.call (.run (some 5))] =
        .ok (t'.setMaxDeltas 12, [.ok (.finished .noMoreEvents)]) := by
  have made : ledger.Made := .signal .empty "total" (.int 0) none
  have built : build restless ledger [.process 4] () = .ok bed := rfl
  have fixed : ∀ n, .setMaxDeltas n ∉ ([.call (.run (some 5))] : List (Move Unit)) := by
    intro n listed
    cases List.mem_singleton.mp listed
  have unhooked : ∀ h, .setHook h ∈ ([.call (.run (some 5))] : List (Move Unit)) → h.Candid := by
    intro h listed
    cases List.mem_singleton.mp listed
  have fails : givesBack [.error (.deltaCycleLimit 2 2)]
      ((bed.setMaxDeltas 2).play restless 20 [.call (.run (some 5))]) = true := by decide +kernel
  have ends : givesBack [.ok (.finished .noMoreEvents)]
      ((bed.setMaxDeltas 9).play restless 20 [.call (.run (some 5))]) = true := by decide +kernel
  obtain ⟨t, failed⟩ := exists_of_givesBack fails
  obtain ⟨t', ended⟩ := exists_of_givesBack ends
  obtain ⟨initial, -, tells⟩ :=
    the_limit_only_cuts_sessions_short made built (by decide : 2 ≤ 9) 20 fixed
  obtain ⟨-, past, earlier⟩ := tells candid_restless unhooked t _ 2 2 failed (.head _)
  obtain ⟨-, same, -⟩ :=
    the_limit_only_cuts_sessions_short made built (by decide : 9 ≤ 12) 20 fixed
  have free : ∀ u results, (bed.setMaxDeltas 9).play restless 20 [.call (.run (some 5))] =
      .ok (u, results) → ∀ time limit, .error (.deltaCycleLimit time limit) ∉ results := by
    intro u results played time limit listed
    cases ended.symm.trans played
    cases List.mem_singleton.mp listed
  obtain ⟨plays, -⟩ := same free
  rw [ended] at plays
  exact ⟨t, t', failed, by decide +kernel, initial, past, earlier, ended, plays⟩

end Simulation

end DeltaCycle
