import DeltaCycle.Proofs.Standing
import DeltaCycle.Proofs.Sweeping
import DeltaCycle.Proofs.WakeUps

/-!
# Purging

As long as nobody fails, no round leaves anything behind, so that purging the lists that were noted
sweeps all. Whoever is not fired is listed for what it waits for, so that after a round the lists
hold exactly what the waiters wait for.
-/

set_option autoImplicit false

namespace DeltaCycle

open Roster

variable {σ ω : Type}

namespace Simulation

variable {B : Behaviours σ ω} {left : List (Remnant σ)} {s s' m : Simulation σ ω}

/-! ## Histories -/

theorem Filed.proceed (h : Filed left s) (cap : Option Nat) : Filed left (s.proceed cap).1 := by
  refine proceed_induction (h.sheds (sheds_exchange s)) (fun _ h => h.purge) (fun s₁ h => ?_)
    (fun _ _ h => h.sheds ⟨rfl, rfl, fun listed => listed⟩)
    (fun s₁ time h => h.sheds (sheds_advanceTo s₁ time)) cap
  obtain ⟨delta, deltas, next⟩ := nextDelta_spec s₁
  rw [next]
  exact h.sheds ⟨rfl, rfl, fun listed => listed⟩

theorem Adjusts.sheds (adjusted : s.Adjusts s') : Sheds s s' := by
  obtain ⟨hook, hookStarted, state, maxDeltas, defaultDuration, world, rfl⟩ := adjusted
  exact ⟨rfl, rfl, fun listed => listed⟩

theorem Filed.goesOn {cap : Option Nat} (h : Filed left s) (goesOn : s.GoesOn cap s') :
    Filed left s' := by
  have proceeds := h.proceed cap
  cases goesOn with
  | again went =>
      rw [went] at proceeds
      exact proceeds
  | later paused adjusted =>
      rw [paused] at proceeds
      exact proceeds.sheds adjusted.sheds

theorem filed_build {kernel : Kernel} {instances : List (Instance σ ω)} {world : ω}
    (idle : kernel.Idle) (built : build B kernel instances world = .ok s) : Filed [] s := by
  have adds := adds_build built
  generalize startingBodies kernel instances = bodies at adds
  clear built
  induction adds with
  | refl =>
      refine ⟨WaiterTable.wellFormed_empty, nofun, fun {t a} listed => ?_, fun {t a} listed => ?_,
        nofun, nofun, nofun⟩
      all_goals
        rw [idle.watchers] at listed
        cases listed
  | add _ title body ih => exact ih.evolves (.insert ih.wellFormed title body none) rfl id
  | link _ link ih => exact ih.sheds ⟨rfl, rfl, fun listed => listed⟩

/-- What a round leaves behind is what its lapses had been granted. -/
theorem Filed.playRound {fuel : Nat} {ledger : List Tag} {way : Option Nat × List Change}
    {round : Round σ} {failure : Except SimError Unit} (h : Filed left s) (known : s.OutputsKnown)
    (plays : s.playRound B fuel ledger way = some (round, s', failure)) :
    ∃ m, s.commitPending = (m, .ok ()) ∧ failure = Lapse.verdict (m.lapses B fuel) ∧
      Filed (left ++ (m.lapses B fuel).map (·.remnant m.kernel)) s' ∧ s'.OutputsKnown := by
  have committed := h.sheds (sheds_commitPending s)
  have known' : s.commitPending.1.OutputsKnown := known.of_frame (frame_updateAll _ _ _)
  unfold Simulation.playRound at plays
  generalize s.commitPending = commit at plays committed known' ⊢
  obtain ⟨m, e | ⟨⟩⟩ := commit
  · cases plays
  · dsimp only at plays committed known'
    cases ran : Simulation.runReady B fuel m (.ok ()) with
    | error stuck => simp [ran] at plays
    | ok result =>
        obtain ⟨s₁, failure₁⟩ := result
        simp only [ran, Option.some.injEq, Prod.mk.injEq] at plays
        obtain ⟨-, rfl, rfl⟩ := plays
        refine ⟨m, rfl, verdict_of_runReady ran, committed.runReady known' ran, ?_⟩
        exact known'.of_surroundings (surroundings_runReady ran).choose_spec

/-- A round in which nobody fails leaves nothing behind. -/
theorem Filed.playRound_ok {fuel : Nat} {ledger : List Tag} {way : Option Nat × List Change}
    {round : Round σ} (h : Filed left s) (known : s.OutputsKnown)
    (plays : s.playRound B fuel ledger way = some (round, s', .ok ())) :
    Filed left s' ∧ s'.OutputsKnown := by
  obtain ⟨m, -, verdict, filed, known'⟩ := h.playRound known plays
  cases lapses : m.lapses B fuel with
  | nil =>
      rw [lapses, List.map_nil, List.append_nil] at filed
      exact ⟨filed, known'⟩
  | cons lapse rest =>
      rw [lapses] at verdict
      cases verdict

theorem GoesOn.known {cap : Option Nat} (goesOn : s.GoesOn cap s') (known : s.OutputsKnown) :
    s'.OutputsKnown := by
  have known' := known.of_frame (frame_proceed s cap)
  cases goesOn with
  | again went =>
      rw [went] at known'
      exact known'
  | later paused adjusted =>
      rw [paused] at known'
      obtain ⟨hook, hookStarted, state, maxDeltas, defaultDuration, world, rfl⟩ := adjusted
      exact known'

/-- As long as nobody fails, nothing is left behind. -/
theorem History.filed {rounds : List (Round σ)} {ledger : List Tag}
    (history : History B rounds ledger s (.ok ())) : Filed [] s ∧ s.OutputsKnown := by
  generalize fine : (.ok () : Except SimError Unit) = failure at history
  induction history with
  | first built idle adjusted plays =>
      subst fine
      have filed := (filed_build idle built).sheds adjusted.sheds
      have known := known_build built
      obtain ⟨hook, hookStarted, state, maxDeltas, defaultDuration, world, rfl⟩ := adjusted
      exact filed.playRound_ok known plays
  | next history running goesOn plays ih =>
      subst fine
      obtain ⟨filed, known⟩ := ih rfl
      exact (filed.goesOn goesOn).playRound_ok (goesOn.known known) plays

theorem Stands.filed {rounds : List (Round σ)} {ledger : List Tag}
    {way : Option Nat × List Change} (stands : Stands B rounds ledger way s) :
    Filed [] s ∧ s.OutputsKnown := by
  cases stands with
  | fresh built idle adjusted =>
      have filed := (filed_build idle built).sheds adjusted.sheds
      have known := known_build built
      obtain ⟨hook, hookStarted, state, maxDeltas, defaultDuration, world, rfl⟩ := adjusted
      exact ⟨filed, known⟩
  | later history running goesOn =>
      obtain ⟨filed, known⟩ := history.filed
      exact ⟨filed.goesOn goesOn, goesOn.known known⟩

/-! ## What waiters are listed for -/

/-- Everybody who is listed waits, and each waiter is listed once for each trigger among the
alternatives on which it was armed last. -/
structure ListsExactly (rounds : List (Round σ)) (ledger : List Tag) (s : Simulation σ ω) :
    Prop where
  live : ∀ t, ∀ a ∈ s.kernel.watchers t, s.waiters.isLive a = true
  exact : ∀ {slot waiter}, s.waiters.waiter? slot = some waiter → ∃ tag j alternatives,
    ledger[waiter.token - 1]? = some tag ∧ (Story.ofList rounds).Waits j tag alternatives ∧
      ∀ t, (s.kernel.watchers t).count ⟨slot, waiter.token⟩ =
        (alternatives.filterMap Alternative.trigger?).count t

/-- After a round in which nobody failed or asked for the end, nobody who waits is fired, so that
all are listed for what they wait for. -/
theorem History.listsExactly {rounds : List (Round σ)} {ledger : List Tag}
    (history : History B rounds ledger s (.ok ())) (exchanged : s.exchange.1 = m) :
    m.purge.ListsExactly rounds ledger := by
  obtain ⟨r, explained, quiet, -, follows⟩ := history.explained
  obtain ⟨marks, tracks⟩ := follows.tracks
  obtain ⟨filed, -⟩ := history.filed
  have filed' : Filed [] m := by
    rw [← exchanged]
    exact filed.sheds (sheds_exchange s)
  have tracks' : Tracks ledger m.purge marks r := by
    obtain ⟨kernel, world, link, same, edits, -⟩ := exchange_spec s
    rw [← exchanged, same]
    exact Tracks.purge (tracks.of_books rfl rfl rfl edits.watchers)
  refine ⟨staleEntries_eq_zero_iff.mp filed'.staleEntries_purge, fun {slot waiter} found => ?_⟩
  obtain ⟨tag, tagged, alive, -⟩ := tracks'.seats.held found
  obtain ⟨-, entered, -⟩ := tracks'.seats.entered tagged
  have current : Current r.seat tag := ⟨waiter.body, alive⟩
  have idle : r.fired tag = false := quiet tag current
  rcases explained.current current with first | ⟨j, alternatives, waits⟩
  · obtain ⟨name, count⟩ := tag
    obtain rfl : count = 0 := first
    cases idle.symm.trans (explained.newborn current)
  · refine ⟨tag, j, alternatives, entered, waits, fun t => ?_⟩
    rw [← explained.watching waits current]
    exact tracks'.watched.counts tagged current idle t

/-- The simulations that are purged after a round: the one after the exchange with the bridge, or,
where the end was asked for, the one after what was written in the round was committed. -/
inductive Purges (s : Simulation σ ω) : Simulation σ ω → Prop where
  | exchanged {m : Simulation σ ω} {sent : Bool} (running : s.kernel.stopRequest = none)
      (exchanged : s.exchange = (m, .ok sent)) : Purges s m
  | committed {m : Simulation σ ω} {result : Except SimError Unit}
      (asked : s.kernel.stopRequest ≠ none) (committed : s.commitPending = (m, result)) : Purges s m

theorem Purges.sheds (purges : s.Purges m) : Sheds s m := by
  cases purges with
  | exchanged _ exchanged =>
      have sheds := sheds_exchange s
      rwa [exchanged] at sheds
  | committed _ committed =>
      have sheds := sheds_commitPending s
      rwa [committed] at sheds

/-- A run that comes to rest changes no wait list after the purge. -/
theorem purges_of_rest {cap : Option Nat} {outcome : Outcome}
    (rests : s.proceed cap = (s', .ended (.ok outcome))) :
    ∃ m sent, s.exchange = (m, .ok sent) ∧ s'.waiters = m.waiters ∧
      s'.kernel.signals = m.purge.kernel.signals := by
  obtain ⟨m, exchanged, -, -, left⟩ := settled_of_proceed_ended rests
  obtain ⟨-, now, delta, rfl⟩ := stops_of_leaveTick left
  exact ⟨m, false, exchanged, rfl, rfl⟩

theorem watchers_of_signals {k k' : Kernel} (same : k'.signals = k.signals) :
    k'.watchers = k.watchers := by
  funext t
  unfold Kernel.watchers Kernel.signal?
  rw [same]

/-- To purge the wait lists that were noted is to sweep them all, as long as nobody fails. Unless the
end was asked for, the waiters are then listed for exactly what they wait for, and they are when a
run is suspended or finds no more events. -/
theorem purging_the_noted_lists_sweeps_them_all (B : Behaviours σ ω) :
    (∀ rounds ledger s m, History B rounds ledger s (.ok ()) → s.Purges m →
      m.purge = m.sweep ∧ m.purge.staleEntries = 0 ∧
        (s.kernel.stopRequest = none → m.purge.ListsExactly rounds ledger)) ∧
    ∀ s fuel duration s' outcome, Operated B s →
      run B fuel s duration = .ok (s', .ok outcome) →
      outcome = .suspended ∨ outcome = .finished .noMoreEvents →
      s'.staleEntries = 0 ∧ ∃ rounds ledger h m, History B rounds ledger h (.ok ()) ∧ h.Purges m ∧
        s'.waiters = m.waiters ∧ s'.kernel.signals = m.sweep.kernel.signals ∧
          s'.ListsExactly rounds ledger := by
  have purged {rounds : List (Round σ)} {ledger : List Tag} {s m : Simulation σ ω}
      (history : History B rounds ledger s (.ok ())) (purges : s.Purges m) :
      m.purge = m.sweep ∧ m.purge.staleEntries = 0 := by
    obtain ⟨filed, -⟩ := history.filed
    have filed := filed.sheds purges.sheds
    exact ⟨filed.purge_eq_sweep, filed.staleEntries_purge⟩
  refine ⟨fun rounds ledger s m history purges => ?_,
    fun s fuel duration s' outcome operated ran rests => ?_⟩
  · obtain ⟨sweeps, fresh⟩ := purged history purges
    refine ⟨sweeps, fresh, fun running => ?_⟩
    cases purges with
    | exchanged _ exchanged => exact history.listsExactly (congrArg Prod.fst exchanged)
    | committed asked => exact absurd running asked
  · have unasked : ∀ reason, outcome ≠ .finished (.requested reason) := by
      rcases rests with rfl | rfl
      · exact nofun
      · exact nofun
    cases way_of_run ran with
    | @played s₁ s₂ _ final _ running started looped concluded =>
        have begins := s.adjusts_startHook
        rw [started] at begins
        obtain ⟨rounds, ledger, way, stands⟩ := operated.stands running begins
        obtain rfl := outcome_of_conclude concluded
        obtain ⟨rounds, ledger, h, history, unstopped, paused⟩ := stands.rests looped unasked
        obtain ⟨m, sent, exchanged, waiters, signals⟩ := purges_of_rest paused
        have purges : h.Purges m := .exchanged unstopped exchanged
        obtain ⟨sweeps, -⟩ := purged history purges
        have exactly := history.listsExactly (congrArg Prod.fst exchanged)
        obtain ⟨state, link, world, same⟩ := s₂.conclude_eq (.ok outcome)
        rw [concluded] at same
        cases same
        have lists : s₂.kernel.watchers = m.purge.kernel.watchers := watchers_of_signals signals
        have exactly' : ListsExactly rounds ledger { s₂ with state, link, world } := by
          refine ⟨fun t a listed => ?_, fun {slot waiter} found => ?_⟩
          · dsimp only at listed ⊢
            rw [lists] at listed
            rw [waiters]
            exact exactly.live t a listed
          · dsimp only at found ⊢
            rw [waiters] at found
            rw [lists]
            exact exactly.exact found
        refine ⟨staleEntries_eq_zero_iff.mpr exactly'.live, rounds, ledger, h, m, history, purges,
          waiters, ?_, exactly'⟩
        rw [← sweeps]
        exact signals

/-- A process that waits for a change of a signal, for one tick at most. -/
def sentries : Behaviours Unit Unit where
  name _ := "sentry"
  resume _ := .done (.wait () (.any [.event ⟨0⟩, .delay 1]))
  react _ := .done ()

/-- A simulation of the process, with a signal that nobody writes to. -/
def post : Simulation Unit Unit :=
  ({ kernel := ledger, world := () } : Simulation Unit Unit).addWaiter "sentry" (.process ()) none

/-- Whether a run was suspended. -/
def isSuspended : Except Stuck (Simulation Unit Unit × Except SimError Outcome) → Bool
  | .ok (_, .ok .suspended) => true
  | _ => false

/-- After its first run, the process is listed, and nothing that is stale is. -/
theorem a_sentry_is_listed :
    ∃ s m : Simulation Unit Unit, run sentries 9 post (some 0) = .ok (s, .ok .suspended) ∧
      s.staleEntries = 0 ∧ m.purge = m.sweep ∧ s.kernel.signals = m.sweep.kernel.signals := by
  have made : ledger.Made := .signal .empty "total" (.int 0) none
  have operated : Operated sentries post :=
    .built made (show build sentries ledger [.process ()] () = .ok post from rfl)
  have rests : isSuspended (run sentries 9 post (some 0)) = true := by decide +kernel
  unfold isSuspended at rests
  split at rests
  · next s ran =>
      obtain ⟨histories, runs⟩ := purging_the_noted_lists_sweeps_them_all sentries
      obtain ⟨fresh, rounds, ledger, h, m, history, purges, -, signals, -⟩ :=
        runs post 9 (some 0) s .suspended operated ran (.inl rfl)
      obtain ⟨sweeps, -⟩ := histories rounds ledger h m history purges
      exact ⟨s, m, ran, fresh, sweeps, signals⟩
  · cases rests

end Simulation

end DeltaCycle
