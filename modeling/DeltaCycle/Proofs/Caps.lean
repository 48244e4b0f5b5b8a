import DeltaCycle.Proofs.CommitLog

/-!
# Caps

A suspended run stands at its cap with nothing overdue. What it committed is what a longer run
commits first. What is due exactly at the cap is left in the queue: a run under a later cap takes
it, and its delta cycles are the first that the shorter run misses.
-/

set_option autoImplicit false

namespace DeltaCycle

namespace Simulation

variable {σ ω : Type} {B : Behaviours σ ω}

/-- Granting more steps to a cycle that came to an end changes nothing in it. -/
theorem rounded_mono {fuel more : Nat} {s : Simulation σ ω} {cap : Option Nat}
    {out : Simulation σ ω × Verdict} (turned : s.cycle B fuel cap = .ok out) (le : fuel ≤ more) :
    s.rounded? B more = s.rounded? B fuel := by
  obtain ⟨s', verdict⟩ := out
  have longer (m : Simulation σ ω) {played : Simulation σ ω × Except SimError Unit}
      (ran : runReady B fuel m (.ok ()) = .ok played) :
      runReady B more m (.ok ()) = .ok played :=
    Outlasts.mono (fun fuel => runReady_outlasts fuel m (.ok ())) ran nofun le
  cases way_of_cycle turned with
  | refused committed => simp only [rounded?, committed]
  | proceeded committed ran running went =>
      rw [rounded?_of_round committed ran, rounded?_of_round committed (longer _ ran)]
  | wrapped committed ran stops ends =>
      rw [rounded?_of_round committed ran, rounded?_of_round committed (longer _ ran)]

theorem roundCommits_mono {fuel more : Nat} {s : Simulation σ ω} {cap : Option Nat}
    {out : Simulation σ ω × Verdict} (turned : s.cycle B fuel cap = .ok out) (le : fuel ≤ more) :
    s.roundCommits B more = s.roundCommits B fuel := by
  simp only [roundCommits, rounded_mono turned le]

theorem cycleCommits_mono {fuel more : Nat} {s : Simulation σ ω} {cap : Option Nat}
    {out : Simulation σ ω × Verdict} (turned : s.cycle B fuel cap = .ok out) (le : fuel ≤ more)
    (cap' : Option Nat) : s.cycleCommits B more cap' = s.cycleCommits B fuel cap' := by
  simp only [cycleCommits, roundCommits_mono turned le, rested?, rounded_mono turned le]

theorem cycle_mono {fuel more : Nat} {s : Simulation σ ω} {cap : Option Nat}
    {out : Simulation σ ω × Verdict} (turned : s.cycle B fuel cap = .ok out) (le : fuel ≤ more) :
    s.cycle B more cap = .ok out :=
  Outlasts.mono (fun fuel => cycle_outlasts fuel s cap) turned nofun le

/-- Where a tick is left that is not stopped at a cap, a later cap leaves it with the same changes. -/
theorem departures_of_not_suspended {s s' : Simulation σ ω} {cap₁ cap₂ : Nat} {verdict : Verdict}
    (reached : s.kernel.now ≤ cap₁) (le : cap₁ ≤ cap₂)
    (left : s.leaveTick (some cap₁) = (s', verdict))
    (running : verdict ≠ .ended (.ok .suspended)) :
    s.departures (some cap₂) = s.departures (some cap₁) := by
  have way := way_of_leaveTick_mono reached le left running
  rw [departures_eq, departures_eq, onward?_of_way way]

/-- A tick that is stopped at a cap is left without changes, and the queue stays as it is. -/
theorem departures_of_suspended {s s' : Simulation σ ω} {cap : Nat}
    (left : s.leaveTick (some cap) = (s', .ended (.ok .suspended))) :
    s.departures (some cap) = [] ∧ s'.queue = s.queue ∧
      (s.kernel.now = cap ∨ ∀ time ∈ s.queue.nextTime?, cap < time) := by
  rw [departures_eq]
  have way := way_of_leaveTick left
  generalize s.onward? (some cap) = onward at way
  cases way with
  | held here => exact ⟨rfl, rfl, .inl (Option.some.inj here).symm⟩
  | stopped elsewhere next present before =>
      cases present
      refine ⟨rfl, rfl, .inr fun time same => ?_⟩
      cases next.symm.trans same
      exact before

/-- A cycle that goes on under a cap goes on in the same way under a later one. -/
theorem cycle_of_again {fuel : Nat} {s s' : Simulation σ ω} {cap₁ cap₂ : Nat}
    (before : s.kernel.now ≤ cap₁) (le : cap₁ ≤ cap₂)
    (turned : s.cycle B fuel (some cap₁) = .ok (s', .again)) :
    s.cycle B fuel (some cap₂) = .ok (s', .again) ∧ s'.kernel.now ≤ cap₁ ∧
      s.cycleCommits B fuel (some cap₂) = s.cycleCommits B fuel (some cap₁) := by
  unfold cycleCommits
  cases rested : s.rested? B fuel with
  | none =>
      obtain ⟨out, ignores⟩ := cycle_of_unrested rested
      rw [ignores.gives] at turned ⊢
      exact ⟨turned, Nat.le_trans (Nat.le_of_eq (ignores.now s' turned)) before, rfl⟩
  | some q =>
      obtain ⟨-, now, leaves⟩ := cycle_of_rested rested
      have left := Except.ok.inj ((leaves (some cap₁)).symm.trans turned)
      have before' : q.kernel.now ≤ cap₁ := Nat.le_trans (Nat.le_of_eq now) before
      obtain ⟨left', now'⟩ := leaveTick_of_not_suspended before' le left nofun
      refine ⟨(leaves _).trans (congrArg Except.ok left'), now' rfl, ?_⟩
      dsimp only
      rw [departures_of_not_suspended before' le left nofun]

/-- A cycle that stops at a cap commits nothing but in its round. -/
theorem cycle_of_suspended {fuel : Nat} {s t : Simulation σ ω} {cap : Nat}
    (turned : s.cycle B fuel (some cap) = .ok (t, .ended (.ok .suspended))) :
    ∃ q, s.rested? B fuel = some q ∧ s.cycleCommits B fuel (some cap) = s.roundCommits B fuel ∧
      t.queue = q.queue ∧ (q.kernel.now = cap ∨ ∀ time ∈ q.queue.nextTime?, cap < time) := by
  unfold cycleCommits
  cases rested : s.rested? B fuel with
  | none =>
      obtain ⟨out, ignores⟩ := cycle_of_unrested rested
      exact absurd ((ignores.gives _).symm.trans turned) (ignores.running t)
  | some q =>
      obtain ⟨-, -, leaves⟩ := cycle_of_rested rested
      have left := Except.ok.inj ((leaves (some cap)).symm.trans turned)
      obtain ⟨silent, queue, stops⟩ := departures_of_suspended left
      refine ⟨q, rfl, ?_, queue, stops⟩
      dsimp only
      rw [silent, List.append_nil]

/-- What is committed after a simulation rests comes at the tick of the earliest event or later. -/
theorem Reached.loopCommits_of_rested {s q : Simulation σ ω} (reached : Reached B s) {fuel : Nat}
    (rested : s.rested? B (fuel + 1) = some q) (cap : Option Nat) :
    ∃ rest, loopCommits B (fuel + 1) s cap = s.roundCommits B (fuel + 1) ++ rest ∧
      ∀ c ∈ rest, ∃ time, q.queue.nextTime? = some time ∧ time ≤ c.time := by
  rw [loopCommits, cycleCommits, rested, List.append_assoc]
  refine ⟨_, rfl, List.forall_mem_append.mpr ⟨fun c listed => ?_, ?_⟩⟩
  · exact ⟨c.time, (time_of_departures listed).1, Nat.le_refl _⟩
  · split
    · next s' again =>
        have left := Except.ok.inj (((cycle_of_rested rested).2.2 cap).symm.trans again)
        exact fun c listed => ⟨_, now_of_leaveTick left,
          (reached.cycled again).le_time_of_loopCommits fuel cap c listed⟩
    · exact fun c listed => absurd listed List.not_mem_nil

/-- Where a simulation is stopped at a cap, nothing in its queue is due before the cap. -/
theorem Reached.le_of_stopped {q : Simulation σ ω} (reached : Reached B q) {cap : Nat}
    (stops : q.kernel.now = cap ∨ ∀ time ∈ q.queue.nextTime?, cap < time) :
    ∀ e ∈ q.queue.toList, cap ≤ e.time := by
  intro e listed
  rcases stops with rfl | later
  · exact reached.ahead e listed
  · cases next : q.queue.nextTime? with
    | none =>
        rw [EventQueue.nextTime?_eq_none_iff.mp next] at listed
        cases listed
    | some time =>
        exact Nat.le_trans (Nat.le_of_lt (later time next)) (EventQueue.le_of_nextTime? next listed)

/-- What a loop commits that stops at a cap is what the loop under a later cap commits first. What
that loop commits afterwards comes at the cap or later, and it comes later unless something is left
in the queue that is due at the cap. -/
theorem Reached.loopCommits_of_suspended {s t : Simulation σ ω} (reached : Reached B s)
    {fuel more cap₁ cap₂ : Nat} (before : s.kernel.now ≤ cap₁) (le : cap₁ ≤ cap₂)
    (ran : loop B fuel s (some cap₁) = .ok (t, .ok .suspended)) (enough : fuel ≤ more) :
    (∀ e ∈ t.queue.toList, cap₁ ≤ e.time) ∧
    ∃ rest, loopCommits B more s (some cap₂) = loopCommits B fuel s (some cap₁) ++ rest ∧
      (∀ c ∈ rest, cap₁ ≤ c.time) ∧
      ((∀ e ∈ t.queue.toList, e.time ≠ cap₁) → ∀ c ∈ rest, cap₁ < c.time) := by
  replace ran := way_of_loop ran
  induction ran generalizing more with
  | @ended fuel s turned =>
      obtain ⟨more, rfl⟩ := Nat.exists_eq_add_one_of_ne_zero
        (Nat.ne_of_gt (Nat.lt_of_lt_of_le (Nat.succ_pos fuel) enough))
      obtain ⟨q, rested, silent, queue, stops⟩ := cycle_of_suspended turned
      have ahead := (reached.rested rested).le_of_stopped stops
      have rested' : s.rested? B (more + 1) = some q := by
        rw [← rested]
        simp only [rested?, rounded_mono turned enough]
      obtain ⟨rest, split, later⟩ := reached.loopCommits_of_rested rested' (some cap₂)
      rw [queue]
      refine ⟨ahead, rest, ?_, fun c listed => ?_, fun undue c listed => ?_⟩
      · rw [split, roundCommits_mono turned enough, loopCommits, silent, turned, List.append_nil]
      · obtain ⟨time, next, le'⟩ := later c listed
        obtain ⟨e, due, rfl⟩ := EventQueue.exists_of_nextTime? next
        exact Nat.le_trans (ahead e due) le'
      · obtain ⟨time, next, le'⟩ := later c listed
        obtain ⟨e, due, rfl⟩ := EventQueue.exists_of_nextTime? next
        exact Nat.lt_of_lt_of_le (Nat.lt_of_le_of_ne (ahead e due) (Ne.symm (undue e due))) le'
  | @again fuel s s' turned further ih =>
      obtain ⟨more, rfl⟩ := Nat.exists_eq_add_one_of_ne_zero
        (Nat.ne_of_gt (Nat.lt_of_lt_of_le (Nat.succ_pos fuel) enough))
      obtain ⟨turned', before', same⟩ := cycle_of_again before le turned
      obtain ⟨ahead, rest, split, times⟩ :=
        ih (reached.cycled turned) before' (Nat.le_of_succ_le_succ enough)
      refine ⟨ahead, rest, ?_, times⟩
      rw [loopCommits, loopCommits, cycleCommits_mono turned enough, same, turned,
        cycle_mono turned' enough]
      dsimp only
      rw [split, List.append_assoc]

/-- A suspended run stands at its cap, and nothing in its queue is overdue. What it committed came at
the cap or before, and is what a longer run commits first; what that run commits afterwards comes at
the cap or later. So if nothing is left in the queue that is due at the cap, the suspended run
committed exactly the changes of the longer run up to the cap. -/
theorem a_suspended_run_committed_what_a_longer_run_commits_first {s t : Simulation σ ω}
    (reached : Reached B s) {k k' fuel : Nat} (inRange : s.kernel.now + k + k' ≤ lastTick)
    (ran : run B fuel s (some k) = .ok (t, .ok .suspended)) :
    t.kernel.now = s.kernel.now + k ∧
    (∀ e ∈ t.queue.toList, t.kernel.now ≤ e.time) ∧
    (∀ c ∈ runCommits B fuel s (some k), c.time ≤ t.kernel.now) ∧
    ∀ more, fuel ≤ more →
      ∃ rest, runCommits B more s (some (k + k')) = runCommits B fuel s (some k) ++ rest ∧
        (∀ c ∈ rest, t.kernel.now ≤ c.time) ∧
        ((∀ e ∈ t.queue.toList, e.time ≠ t.kernel.now) →
          runCommits B fuel s (some k) =
            (runCommits B more s (some (k + k'))).filter fun c => c.time ≤ t.kernel.now) := by
  have now := (runsTo_of_suspended inRange ⟨nofun, fuel, ran⟩).1
  rcases started_or_refused s with ⟨running, s₁, started⟩ | ⟨s₁, e, refused⟩
  · have kernel := (startHook_eq started).1
    have reached₁ : Reached B s₁ := by
      have adjusts := s.adjusts_startHook
      rw [started] at adjusts
      exact reached.adjusted adjusts
    have caps (d : Nat) (fits : s.kernel.now + d ≤ lastTick) :
        s₁.capOf (some d) = some (s.kernel.now + d) := by
      rw [← kernel] at fits ⊢
      exact congrArg some (Nat.min_eq_left fits)
    have cap₁ := caps k (Nat.le_trans (Nat.le_add_right _ k') inRange)
    have cap₂ := caps (k + k') ((Nat.add_assoc ..).symm.trans_le inRange)
    have before : s₁.kernel.now ≤ s.kernel.now + k := by
      rw [kernel]
      exact Nat.le_add_right _ k
    simp only [run, running, started, cap₁, Bool.false_eq_true, if_false] at ran
    cases looped : loop B fuel s₁ (some (s.kernel.now + k)) with
    | error stuck => simp [looped] at ran
    | ok end_ =>
        obtain ⟨s₂, result⟩ := end_
        simp only [looped] at ran
        obtain ⟨rfl, rfl⟩ := suspended_of_conclude (Except.ok.inj ran)
        rw [now]
        simp only [runCommits_of_started running started, cap₁, cap₂]
        have through := time_of_loopCommits_le (B := B) before fuel
        have le : s.kernel.now + k ≤ s.kernel.now + (k + k') := by
          rw [← Nat.add_assoc]
          exact Nat.le_add_right _ k'
        refine ⟨trivial, (reached₁.loopCommits_of_suspended before le looped (Nat.le_refl _)).1,
          through, fun more enough => ?_⟩
        obtain ⟨-, rest, split, later, apart⟩ :=
          reached₁.loopCommits_of_suspended before le looped enough
        refine ⟨rest, split, later, fun undue => ?_⟩
        have kept := List.filter_eq_self.mpr fun c listed => decide_eq_true (through c listed)
        have dropped := List.filter_eq_nil_iff.mpr fun c listed =>
          decide_eq_true_iff.not.mpr (Nat.not_le.mpr (apart undue c listed))
        rw [split, List.filter_append, kept, dropped, List.append_nil]
  · rw [refused] at ran
    cases ran

/-- A process that writes down a number every three ticks. -/
def diarist : Behaviours Int Unit where
  name _ := "diarist"
  resume number :=
    (Activity.setNext ⟨0⟩ (.int number)).bind fun _ => .done (.wait (number + 1) (.delay 3))
  react number := .done number

/-- A simulation of a diarist who starts with one. -/
def diary : Simulation Int Unit :=
  ({ kernel := ledger, world := () } : Simulation Int Unit).addWaiter "diarist" (.process 1) none

/-- Whether a run is suspended at a tick, with the next event due at another. -/
def waitsAt (now next : Nat) {σ : Type} :
    Except Stuck (Simulation σ Unit × Except SimError Outcome) → Bool
  | .ok (t, .ok .suspended) => t.kernel.now == now && t.queue.nextTime? == some next
  | _ => false

/-- A run that is suspended between two entries of the diary committed the entries up to then. -/
theorem the_diary_up_to_the_fourth_tick :
    ∃ t, run diarist 9 diary (some 4) = .ok (t, .ok .suspended) ∧
      runCommits diarist 9 diary (some 4) =
        (runCommits diarist 9 diary (some (4 + 3))).filter fun c => c.time ≤ t.kernel.now := by
  have made : ledger.Made := .signal .empty "total" (.int 0) none
  have reached : Reached diarist diary :=
    .built made (show build diarist ledger [.process 1] () = .ok diary from rfl)
  have waits : waitsAt 4 6 (run diarist 9 diary (some 4)) = true := by decide +kernel
  have inRange : diary.kernel.now + 4 + 3 ≤ lastTick := by decide
  unfold waitsAt at waits
  split at waits
  · next t ran =>
      simp only [Bool.and_eq_true, beq_iff_eq] at waits
      obtain ⟨-, -, -, longer⟩ :=
        a_suspended_run_committed_what_a_longer_run_commits_first reached inRange ran
      obtain ⟨rest, -, -, exact⟩ := longer 9 (Nat.le_refl 9)
      refine ⟨t, ran, exact fun e listed => ?_⟩
      have later := EventQueue.le_of_nextTime? waits.2 listed
      omega
  · cases waits

/-- A process that naps until the next delta cycle and then writes. -/
def napper : Behaviours Bool Unit where
  name _ := "napper"
  resume
    | false => .done (.wait true .noop)
    | true => (Activity.setNext ⟨0⟩ (.int 1)).bind fun _ => .done .done
  react state := .done state

/-- A simulation of a napper. -/
def nook : Simulation Bool Unit :=
  ({ kernel := ledger, world := () } : Simulation Bool Unit).addWaiter "napper" (.process false)
    none

/-- A run that is suspended while somebody naps leaves in its queue what is due at its cap, and with
it a change that a longer run commits at that tick. -/
theorem a_nap_at_the_cap_is_cut_short :
    waitsAt 0 0 (run napper 9 nook (some 0)) = true ∧
    runCommits napper 9 nook (some 0) = [] ∧
    runCommits napper 9 nook (some (0 + 1)) = [⟨0, ⟨0⟩, "total", .int 0, .int 1⟩] := by
  refine ⟨?_, ?_, ?_⟩ <;> decide +kernel

end Simulation

end DeltaCycle
