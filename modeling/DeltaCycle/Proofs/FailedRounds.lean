import DeltaCycle.Proofs.Crossing
import DeltaCycle.Proofs.Purging
import DeltaCycle.Proofs.Reports

/-!
# Rounds in which waiters fail

A waiter that fails leaves the others of its round alone. They are resumed, what was written in the
round is committed, and only then the run ends with the error of the first that failed.
-/

set_option autoImplicit false

namespace DeltaCycle

open Roster

variable {σ ω : Type}

/-- A waiter that fails had been armed on what comes before the first alternative that is
refused. -/
theorem Act.deed_of_failure {k : Kernel} {done : Act σ} (failed : (done.deed k).isFailure = true) :
    done.deed k = .failed (done.asked.takeWhile (·.isAccepted k)) := by
  cases done with
  | completes => cases failed
  | fails e => rfl
  | waits body alternatives =>
      rw [deed] at failed ⊢
      split at failed
      · cases failed
      · next refused => rw [if_neg refused, asked]

/-! ## Waiters that are fired -/

/-- Whoever is fired takes a turn before a round comes to its end. -/
theorem Roster.Plays.takes_of_fired {now : Nat} {r r' : Roster σ} {turns : List (Turn σ)}
    (plays : Plays now r turns r') (quiet : r'.Quiet) (lineal : r.Lineal) {tag : Tag}
    {body : Option (Body σ)} (alive : r.seat tag.name = .alive tag.count body)
    (fired : r.fired tag = true) : ∃ turn ∈ turns, turn.tag = tag := by
  induction plays with
  | nil r =>
      have idle := quiet tag ⟨body, alive⟩
      exact absurd (fired.symm.trans idle) Bool.false_ne_true.symm
  | @cons r r' turn rest takes plays ih =>
      by_cases same : tag.name = turn.tag.name
      · obtain ⟨body', alive', -⟩ := takes.alive
        exact ⟨turn, List.mem_cons_self, eq_of_alive alive' alive same.symm⟩
      · obtain ⟨alive', fires⟩ := lineal.stays takes now alive same
        obtain ⟨later, listed, own⟩ := ih quiet (lineal.turn takes now) alive' (fires fired)
        exact ⟨later, List.mem_cons_of_mem _ listed, own⟩

namespace Explained

variable {story : Story σ} {i : Nat} {r : Roster σ} (h : Explained story i r)

include h

/-- After its last turn, a waiter is not armed. -/
theorem not_waits_of_failed {m : Nat} {turn : Turn σ} (listed : turn ∈ (story m).turns)
    (failed : turn.deed.isFailure = true) (n : Nat) {j : Nat} {alternatives : List (Alternative σ)} :
    ¬story.Waits j ⟨turn.tag.name, turn.tag.count + n + 1⟩ alternatives := by
  induction n generalizing j alternatives with
  | zero =>
      intro waits
      obtain ⟨-, body, waiting⟩ := h.waits_once waits listed rfl
      rw [waiting] at failed
      cases failed
  | succ n ih =>
      rintro ⟨turn', listed', next, -⟩
      have named : turn'.tag = ⟨turn.tag.name, turn.tag.count + n + 1⟩ := Tag.next_inj next
      rcases h.explained ⟨turn', listed', named⟩ with first | ⟨j', -, alternatives', waits, -⟩
      · cases first
      · exact ih waits

/-- A waiter that failed is not there any more. -/
theorem name_ne_of_failed {m : Nat} {turn : Turn σ} (listed : turn ∈ (story m).turns)
    (failed : turn.deed.isFailure = true) {tag : Tag} (current : Current r.seat tag) :
    tag.name ≠ turn.tag.name := by
  intro same
  obtain ⟨name, count⟩ := tag
  cases same
  obtain ⟨body, alive⟩ := current
  have later := (h.past listed).2 count body alive
  obtain ⟨n, rfl⟩ := Nat.exists_eq_add_of_lt later
  rcases h.current ⟨body, alive⟩ with first | ⟨j, alternatives, waits⟩
  · cases first
  · exact h.not_waits_of_failed listed failed n waits

end Explained

namespace Tracks

variable {B : Behaviours σ ω} {ledger : List Tag} {m t s' : Simulation σ ω} {marks : Marks}
  {r : Roster σ} {fuel : Nat} {failure failure' : Except SimError Unit} (h : Tracks ledger m marks r)
  (rested : r.Rested) (known : m.OutputsKnown)

include h

/-- The turn in which a waiter fails: it had been granted what it leaves behind, and its last arming
is the next of the ledger. -/
theorem turn_of_lapse {a : Arming} {ready : Fifo Arming} {turn : Turn σ} {e : SimError}
    (popped : m.ready.pop? = some (a, ready)) (takes : r.Takes turn)
    (taken : m.turnOf? B ledger a = some turn) (failed : turn.deed.isFailure = true)
    {lapse : Lapse σ} (lapses : m.lapseOf? B a (.error e) = some lapse) (more : List Tag) :
    turn.deed = .failed (lapse.remnant m.kernel).granted ∧
      (ledger ++ turn.issues ++ more)[lapse.arming.token - 1]? = some turn.tag.next := by
  cases lapses
  obtain ⟨me, body, stale, done, k, w, claimed, -, acted, deed, -⟩ := h.acts popped takes taken
  have asked := Simulation.asked_of_claimed (Prod.ext claimed rfl) acted
  constructor
  · rw [Lapse.remnant, asked, deed]
    rw [deed] at failed
    exact Act.deed_of_failure failed
  · dsimp only
    rw [Nat.add_sub_cancel, ← h.seats.length, Turn.issues, List.append_assoc,
      List.getElem?_append_right (Nat.le_refl _), Nat.sub_self]
    rfl

include rested known

/-- Wherever a round has come to, it goes on from there. -/
theorem resumes (resumes : Simulation.Resumes B m t)
    (ran : Simulation.runReady B fuel m failure = .ok (s', failure')) :
    ∃ fuel' failure₁ before marks₁ r₁,
      Tracks (ledger ++ before.flatMap Turn.issues) t marks₁ r₁ ∧ r₁.Rested ∧ t.OutputsKnown ∧
      Simulation.runReady B fuel' t failure₁ = .ok (s', failure') ∧
      m.turns B fuel ledger =
        before ++ t.turns B fuel' (ledger ++ before.flatMap Turn.issues) := by
  induction resumes with
  | start =>
      refine ⟨fuel, failure, [], marks, r, ?_, rested, known, ran, ?_⟩
      · rw [List.flatMap_nil, List.append_nil]
        exact h
      · rw [List.flatMap_nil, List.append_nil, List.nil_append]
  | @next s s₁ a ready result resumes popped resumed ih =>
      obtain ⟨fuel', failure₁, before, marks₁, r₁, tracks, rested₁, known₁, ran₁, turns⟩ := ih
      cases Simulation.way_of_runReady ran₁ with
      | idle idle => cases idle.symm.trans popped
      | @resumed fuel' =>
          rw [Simulation.runReady_succ popped resumed] at ran₁
          have same := Simulation.surroundings_runWaiter resumed
          have known₂ := known₁.of_surroundings same
          rcases tracks.resume rested₁ known₁ popped resumed with
            ⟨skipped, -, -, tracks₂⟩ | ⟨turn, marks₂, taken, -, takes, -, tracks₂⟩
          · rw [Simulation.turns_of_skipped popped resumed skipped] at turns
            exact ⟨fuel', _, before, marks₁, r₁, tracks₂, rested₁, known₂, ran₁, turns⟩
          · rw [Simulation.turns_of_taken popped resumed taken] at turns
            have issued : ledger ++ (before ++ [turn]).flatMap Turn.issues =
                ledger ++ before.flatMap Turn.issues ++ turn.issues := by
              rw [List.flatMap_append, List.flatMap_singleton, List.append_assoc]
            refine ⟨fuel', _, before ++ [turn], marks₂, _, ?_,
              rested₁.turn s.kernel.now turn.tag turn.deed, known₂, ran₁, ?_⟩
            · rw [issued]
              exact tracks₂
            · rw [issued, List.append_assoc]
              exact turns

/-- Whoever is ready at some point of a round takes a turn in it. -/
theorem attends (resumes : Simulation.Resumes B m t)
    (ran : Simulation.runReady B fuel m failure = .ok (s', failure')) {a : Arming}
    (ready : a ∈ t.ready.toList) (live : t.waiters.isLive a = true) :
    ∃ turn ∈ m.turns B fuel ledger,
      (ledger ++ (m.turns B fuel ledger).flatMap Turn.issues)[a.token - 1]? = some turn.tag := by
  obtain ⟨fuel', failure₁, before, marks₁, r₁, tracks, rested₁, known₁, ran₁, turns⟩ :=
    h.resumes rested known resumes ran
  obtain ⟨tag, tagged⟩ := tracks.marked.tagged a ready
  have current := (tracks.seats.live_iff tagged).mp live
  have fired := (tracks.marked.exact tagged current).mpr ready
  obtain ⟨-, entered, -⟩ := tracks.seats.entered tagged
  obtain ⟨body, alive⟩ := current
  obtain ⟨-, r', -, plays, -, quiet, -⟩ := tracks.runReady rested₁ known₁ ran₁
  obtain ⟨turn, listed, rfl⟩ :=
    plays.takes_of_fired quiet tracks.seats.lineage alive fired
  refine ⟨turn, ?_, ?_⟩
  · rw [turns]
    exact List.mem_append_right _ listed
  · rw [turns, List.flatMap_append, ← List.append_assoc,
      List.getElem?_append_left (List.getElem?_eq_some_iff.mp entered).choose]
    exact entered

/-- A lapse is a turn in which the waiter fails after it was granted what it leaves behind. -/
theorem lapses (ran : Simulation.runReady B fuel m failure = .ok (s', failure')) :
    ∀ lapse ∈ m.lapses B fuel, ∃ turn ∈ m.turns B fuel ledger,
      turn.deed = .failed (lapse.remnant m.kernel).granted ∧
      (ledger ++ (m.turns B fuel ledger).flatMap Turn.issues)[lapse.arming.token - 1]? =
        some turn.tag.next := by
  replace ran := Simulation.way_of_runReady ran
  induction ran generalizing ledger marks r with
  | idle idle =>
      intro lapse listed
      rw [Simulation.lapses_of_idle idle] at listed
      cases listed
  | @resumed fuel m s₁ _ result a ready popped resumed further ih =>
      intro lapse listed
      rw [Simulation.lapses_succ popped resumed] at listed
      have same := Simulation.surroundings_runWaiter resumed
      have known₁ := known.of_surroundings same
      have kept (lapse : Lapse σ) : lapse.remnant s₁.kernel = lapse.remnant m.kernel :=
        lapse.remnant_of_committed (Simulation.committed_of_surroundings same)
      rcases h.resume rested known popped resumed with
        ⟨skipped, -, rfl, tracks⟩ | ⟨turn, marks₁, taken, -, takes, outcome, tracks⟩
      · rw [Simulation.turns_of_skipped popped resumed skipped, ← kept]
        exact ih tracks rested known₁ lapse listed
      · rw [Simulation.turns_of_taken popped resumed taken, List.flatMap_cons,
          ← List.append_assoc]
        rcases List.mem_append.mp listed with own | later
        · cases result with
          | ok _ => cases own
          | error e =>
              have failed : turn.deed.isFailure = true := by
                by_contra fine
                rw [if_neg fine] at outcome
                cases outcome
              exact ⟨turn, List.mem_cons_self,
                h.turn_of_lapse popped takes taken failed (Option.mem_toList.mp own) _⟩
        · obtain ⟨turn', among, deed, entered⟩ := ih tracks (rested.turn _ _ _) known₁ lapse later
          rw [kept] at deed
          exact ⟨turn', List.mem_cons_of_mem _ among, deed, entered⟩

end Tracks

namespace Simulation

variable {B : Behaviours σ ω}

/-! ## The end of the round -/

theorem waiters_wrapUp (s : Simulation σ ω) (failure : Except SimError Unit) :
    (s.wrapUp failure).1.waiters = s.waiters := by
  obtain ⟨stopRequest, wrapped⟩ := s.wrapUp_eq failure
  rw [wrapped]
  exact s.sheds_commitPending.waiters

theorem val?_wrapUp (s : Simulation σ ω) (failure : Except SimError Unit) (id : SignalId) :
    (s.wrapUp failure).1.kernel.val? id = s.commitPending.1.kernel.val? id := by
  obtain ⟨stopRequest, wrapped⟩ := s.wrapUp_eq failure
  rw [wrapped]
  exact Kernel.val?_of_committed (committed_purge s.commitPending.1) id

/-- A cycle in which waiters fail ends with the error of the first. -/
theorem cycle_of_lapses {c m r : Simulation σ ω} {granted : Nat} {failure : Except SimError Unit}
    {first : Lapse σ} {rest : List (Lapse σ)} (committed : c.commitPending = (m, .ok ()))
    (ran : runReady B granted m (.ok ()) = .ok (r, failure))
    (lapses : m.lapses B granted = first :: rest) (cap : Option Nat) :
    failure = .error first.error ∧
      c.cycle B granted cap = .ok ((r.wrapUp failure).1, .ended (.error first.error)) := by
  have verdict := verdict_of_runReady ran
  rw [lapses] at verdict
  obtain rfl : failure = .error first.error := verdict
  refine ⟨rfl, ?_⟩
  rw [cycle, committed]
  dsimp only
  rw [ran]
  rfl

/-- A run that comes to a cycle in which waiters fail ends with the error of the first. -/
theorem run_of_lapses {s s₀ c m r : Simulation σ ω} {fuel granted : Nat} {duration : Option Nat}
    {failure : Except SimError Unit} {first : Lapse σ} {rest : List (Lapse σ)}
    (running : s.hasEnded = false) (started : s.startHook = (s₀, .ok ()))
    (comes : Comes B (s₀.capOf duration) fuel s₀ granted c)
    (committed : c.commitPending = (m, .ok ()))
    (ran : runReady B granted m (.ok ()) = .ok (r, failure))
    (lapses : m.lapses B granted = first :: rest) :
    ∃ link world, run B fuel s duration =
      .ok ({ (r.wrapUp failure).1 with state := .failed, link, world }, .error first.error) := by
  obtain ⟨rfl, ends⟩ := cycle_of_lapses committed ran lapses (s₀.capOf duration)
  obtain ⟨link, world, down⟩ :=
    shutdown_eq { (r.wrapUp (.error first.error)).1 with state := .failed }
  refine ⟨link, world, ?_⟩
  rw [run, running, if_neg Bool.false_ne_true, started]
  dsimp only
  rw [comes.loop ends]
  dsimp only [conclude]
  rw [down]

/-- No waiter goes by the name. -/
def Gone (ledger : List Tag) (s : Simulation σ ω) (name : Name) : Prop :=
  ∀ slot waiter, s.waiters.waiter? slot = some waiter →
    ∃ tag, ledger[waiter.token - 1]? = some tag ∧ tag.name ≠ name

/-- A waiter that failed in a round is gone after it. -/
theorem History.gone {rounds : List (Round σ)} {round : Round σ} {ledger : List Tag}
    {s : Simulation σ ω} {failure : Except SimError Unit}
    (history : History B (rounds ++ [round]) ledger s failure) {turn : Turn σ}
    (listed : turn ∈ round.turns) (failed : turn.deed.isFailure = true) :
    s.Gone ledger turn.tag.name := by
  obtain ⟨r, explained, -, -, follows⟩ := history.explained
  obtain ⟨marks, tracks⟩ := follows.tracks
  have told : turn ∈ (Story.ofList (rounds ++ [round]) rounds.length).turns := by
    rw [Story.ofList_concat, Function.update_self]
    exact listed
  intro slot waiter found
  obtain ⟨tag, tagged, alive, -⟩ := tracks.seats.held found
  obtain ⟨-, entered, -⟩ := tracks.seats.entered tagged
  exact ⟨tag, entered, explained.name_ne_of_failed told failed ⟨waiter.body, alive⟩⟩

/-- The last round of a history recounts how the waiters that were ready in `m` were resumed: whoever
was ready at some point took a turn in it, and the lapses are the turns in which a waiter failed. -/
structure Recounts (B : Behaviours σ ω) (m r : Simulation σ ω) (granted : Nat)
    (failure : Except SimError Unit) (rounds : List (Round σ)) (round : Round σ)
    (ledger : List Tag) : Prop where
  history : History B (rounds ++ [round]) ledger r failure
  filed : Filed [] m
  known : m.OutputsKnown
  attends : ∀ t, Resumes B m t → ∀ a ∈ t.ready.toList, t.waiters.isLive a = true →
    ∃ turn ∈ round.turns, ledger[a.token - 1]? = some turn.tag
  lapses : ∀ lapse ∈ m.lapses B granted, ∃ turn ∈ round.turns,
    turn.deed = .failed (lapse.remnant m.kernel).granted ∧
      ledger[lapse.arming.token - 1]? = some turn.tag.next

/-- The history of a simulation recounts every round to which a run comes. -/
theorem Operated.recounts {s s₀ c m r : Simulation σ ω} {fuel granted : Nat} {cap : Option Nat}
    {failure : Except SimError Unit} (operated : Operated B s) (running : s.hasEnded = false)
    (started : s.startHook = (s₀, .ok ())) (comes : Comes B cap fuel s₀ granted c)
    (committed : c.commitPending = (m, .ok ()))
    (ran : runReady B granted m (.ok ()) = .ok (r, failure)) :
    ∃ rounds round ledger, Recounts B m r granted failure rounds round ledger := by
  have begins := s.adjusts_startHook
  rw [started] at begins
  obtain ⟨rounds₀, ledger₀, way₀, stands₀⟩ := operated.stands running begins
  obtain ⟨rounds, ledger, way, stands⟩ := stands₀.comes comes
  obtain ⟨filed, known⟩ := stands.filed
  obtain ⟨resumes, roster, ⟨marks, tracks⟩, rested, -, -⟩ := stands.follows
  have commits := tracks.commitPending
  have filed' := filed.sheds c.sheds_commitPending
  have known' : c.commitPending.1.OutputsKnown := known.of_frame (frame_updateAll _ _ _)
  rw [committed] at commits filed' known'
  exact ⟨rounds, _, _, stands.plays (playRound_of_runReady committed ran), filed', known',
    fun t reaches a ready live => commits.attends rested known' reaches ran ready live,
    commits.lapses rested known' ran⟩

/-- Those that failed are not there after the round. -/
theorem Recounts.gone {m r : Simulation σ ω} {granted : Nat} {failure : Except SimError Unit}
    {rounds : List (Round σ)} {round : Round σ} {ledger : List Tag}
    (recounts : Recounts B m r granted failure rounds round ledger) :
    ∀ lapse ∈ m.lapses B granted, ∃ turn ∈ round.turns,
      turn.deed = .failed (lapse.remnant m.kernel).granted ∧
        ledger[lapse.arming.token - 1]? = some turn.tag.next ∧ r.Gone ledger turn.tag.name := by
  intro lapse listed
  obtain ⟨turn, among, deed, entered⟩ := recounts.lapses lapse listed
  have failed : turn.deed.isFailure = true := by
    rw [deed]
    rfl
  exact ⟨turn, among, deed, entered, recounts.history.gone among failed⟩

/-- A waiter that fails does not disturb its round. Wherever waiters fail in a run, the run returns
the error of the first and the simulation has failed. Yet whoever was ready at some point of the
round took a turn in it, what was written in it is committed, and exactly the failures are reported,
in order. Those that failed are gone. -/
theorem a_failing_waiter_does_not_disturb_its_round {s s₀ c m r : Simulation σ ω}
    {fuel granted : Nat} {duration : Option Nat} {failure : Except SimError Unit} {first : Lapse σ}
    {rest : List (Lapse σ)} (operated : Operated B s) (running : s.hasEnded = false)
    (started : s.startHook = (s₀, .ok ()))
    (comes : Comes B (s₀.capOf duration) fuel s₀ granted c)
    (committed : c.commitPending = (m, .ok ()))
    (ran : runReady B granted m (.ok ()) = .ok (r, failure))
    (lapses : m.lapses B granted = first :: rest) :
    ∃ s' rounds round ledger, run B fuel s duration = .ok (s', .error first.error) ∧
      s'.state = .failed ∧ History B (rounds ++ [round]) ledger r failure ∧
      (∀ t, Resumes B m t → ∀ a ∈ t.ready.toList, t.waiters.isLive a = true →
        ∃ turn ∈ round.turns, ledger[a.token - 1]? = some turn.tag) ∧
      (∀ id signal, m.kernel.signal? id = some signal → signal.inertia = none →
        ∃ v, s'.kernel.val? id = some v ∧
          v.same ((lastWritten id (m.writes B granted)).getD signal.val) = true) ∧
      s'.kernel.failures =
        c.kernel.failures ++ (m.lapses B granted).map (·.report c.kernel.now) ∧
      ∀ lapse ∈ m.lapses B granted, ∃ turn ∈ round.turns,
        ledger[lapse.arming.token - 1]? = some turn.tag.next ∧ s'.Gone ledger turn.tag.name := by
  obtain ⟨link, world, runs⟩ := run_of_lapses running started comes committed ran lapses
  obtain ⟨rounds, round, ledger, recounts⟩ :=
    operated.recounts running started comes committed ran
  have begins := s.adjusts_startHook
  rw [started] at begins
  have reached := comes.reached (operated.reached.adjusted begins)
  have staffed := c.does_commitPending.staffed reached.staffed
  have upToDate := upToDate_commitPending reached.settled
  have now := now_commitPending c
  have reports := c.failures_commitPending
  rw [committed] at staffed upToDate now reports
  have kernel (id : SignalId) : (r.wrapUp failure).1.kernel.val? id = _ := r.val?_wrapUp failure id
  refine ⟨_, rounds, round, ledger, runs, rfl, recounts.history, recounts.attends,
    fun id signal found prompt => ?_, ?_, fun lapse listed => ?_⟩
  · have goes := (does_runReady staffed ran).goes
    rw [← List.append_nil (logOfWrites _)] at goes
    obtain ⟨v, committed', same⟩ := same_lastWritten_of_goes upToDate goes nofun found prompt
    exact ⟨v, (kernel id).trans committed', same⟩
  · change (r.wrapUp failure).1.kernel.failures = _
    rw [failures_wrapUp, failures_runReady recounts.filed recounts.known ran, reports, now]
  · obtain ⟨turn, among, -, entered, gone⟩ := recounts.gone lapse listed
    refine ⟨turn, among, entered, fun slot waiter found => ?_⟩
    rw [show Simulation.waiters _ = r.waiters from r.waiters_wrapUp failure] at found
    exact gone slot waiter found

/-- A clerk that writes one to the total and then fails, and one that writes two. -/
def rivals : Behaviours Bool Unit where
  name _ := "rival"
  resume
    | true => (Activity.setNext ⟨0⟩ (.int 1)).bind fun _ => .fail .emptyAny
    | false => (Activity.setNext ⟨0⟩ (.int 2)).bind fun _ => .done .done
  react fails := .done fails

/-- A simulation of the two, in which the one that fails is resumed first. -/
def contest : Simulation Bool Unit :=
  (({ kernel := ledger, world := () } : Simulation Bool Unit).addWaiter "rival" (.process true)
    none).addWaiter "rival" (.process false) none

/-- The other one still writes to the total. -/
theorem the_second_rival_wins :
    ∃ s' e, run rivals 9 contest none = .ok (s', .error e) ∧ s'.state = .failed ∧
      ∃ v, s'.kernel.val? ⟨0⟩ = some v ∧ v.same (.int 2) = true := by
  have made : ledger.Made := .signal .empty "total" (.int 0) none
  have operated : Operated rivals contest :=
    .built made (show build rivals ledger [.process true, .process false] () = .ok contest from rfl)
  have started : contest.startHook = (contest.startHook.1, .ok ()) := rfl
  have comes : Comes rivals (contest.startHook.1.capOf none) 9 contest.startHook.1 9
    contest.startHook.1 := .here
  have committed : contest.startHook.1.commitPending =
    (contest.startHook.1.commitPending.1, .ok ()) := rfl
  have one : (contest.startHook.1.commitPending.1.lapses rivals 9).length = 1 := by decide +kernel
  have ends : (runReady rivals 9 contest.startHook.1.commitPending.1 (.ok ())).isOk = true := by
    decide +kernel
  have last : lastWritten ⟨0⟩ (contest.startHook.1.commitPending.1.writes rivals 9) =
    some (.int 2) := by decide +kernel
  cases lapses : contest.startHook.1.commitPending.1.lapses rivals 9 with
  | nil =>
      rw [lapses] at one
      cases one
  | cons first rest =>
      rcases ran : runReady rivals 9 contest.startHook.1.commitPending.1 (.ok ()) with
        stuck | ⟨r, failure⟩
      · rw [ran] at ends
        cases ends
      · obtain ⟨s', rounds, round, ledger', runs, failed, -, -, written, -⟩ :=
          a_failing_waiter_does_not_disturb_its_round operated rfl started comes committed ran lapses
        obtain ⟨v, here, same⟩ := written ⟨0⟩ (.ofInit "total" (.int 0) none) rfl rfl
        rw [last] at same
        exact ⟨s', first.error, runs, failed, v, here, same⟩

end Simulation

end DeltaCycle
