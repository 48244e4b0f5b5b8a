import DeltaCycle.Proofs.Kinship
import DeltaCycle.Proofs.Pace
import DeltaCycle.Proofs.WakeUps

/-!
# Zero waits

A wait of no length goes through the event queue, which is looked at when a tick has settled. As
long as a delta cycle leaves something to commit or has sent something to the bridge, the next one
begins without a look at the queue. So a waiter that waits for no time is resumed in the first delta
cycle of its tick that follows one which left nothing, and in none before.
-/

set_option autoImplicit false

namespace DeltaCycle

open Roster

variable {σ ω : Type} {B : Behaviours σ ω}

namespace Simulation

/-- A run goes on after a round of its history and plays another one: `m` is the simulation at the
beginning of the cycle, and `s'` the one after its resumes. -/
structure PlaysOn (B : Behaviours σ ω) (cap : Option Nat) (ledger : List Tag)
    (s m : Simulation σ ω) (round : Round σ) (s' : Simulation σ ω)
    (failure : Except SimError Unit) : Prop where
  running : s.kernel.stopRequest = none
  again : s.proceed cap = (m, .again)
  plays : ∃ fuel, m.playRound B fuel ledger (s.passage cap) = some (round, s', failure)

/-- The next round of a run that goes on, between the simulations at the beginning of its cycle and
after its resumes, with the first failure of a waiter in it. -/
def playOn (B : Behaviours σ ω) (fuel : Nat) (cap : Option Nat) (ledger : List Tag)
    (s : Simulation σ ω) :
    Option (Simulation σ ω × Round σ × Simulation σ ω × Except SimError Unit) :=
  match s.kernel.stopRequest, s.proceed cap with
  | none, (m, .again) => (m.playRound B fuel ledger (s.passage cap)).map (m, ·)
  | _, _ => none

/-- A run lingers in a tick: it plays further rounds, and none of them waits for the tick to settle.
-/
inductive Lingers (B : Behaviours σ ω) (cap : Option Nat) (ledger : List Tag) (s : Simulation σ ω) :
    List (Round σ) → List Tag → Simulation σ ω → Prop where
  | here : Lingers B cap ledger s [] ledger s
  | on {more : List (Round σ)} {ledger' : List Tag} {s' m s'' : Simulation σ ω} {round : Round σ}
      (lingers : Lingers B cap ledger s more ledger' s') (busy : s'.settled? = none)
      (playsOn : PlaysOn B cap ledger' s' m round s'' (.ok ())) :
      Lingers B cap ledger s (more ++ [round]) (ledger' ++ round.turns.flatMap Turn.issues) s''

/-- Somebody waits for no time since a round at this tick, and was not resumed since. -/
structure Dozes (rounds : List (Round σ)) (now : Nat) (tag : Tag) : Prop where
  waits : ∃ j a, (Story.ofList rounds).Waits j tag [a] ∧ (Story.ofList rounds j).now = now ∧
    (a = .noop ∨ a = .delay 0)
  unused : ∀ i, ¬(Story.ofList rounds).Resumed i tag

variable {rounds more : List (Round σ)} {ledger ledger' : List Tag} {cap : Option Nat}
  {s s' s'' m : Simulation σ ω} {round : Round σ} {failure : Except SimError Unit} {tag : Tag}

/-! ## Rounds of a history -/

theorem round_of_playRound {fuel : Nat} {way : Option Nat × List Change}
    (plays : s.playRound B fuel ledger way = some (round, s', failure)) :
    ∃ m, s.commitPending = (m, .ok ()) ∧ runReady B fuel m (.ok ()) = .ok (s', failure) ∧
      round.now = s.kernel.now ∧ round.drained = way.1 := by
  unfold playRound at plays
  cases committed : s.commitPending with
  | mk m result =>
      rw [committed] at plays
      cases result with
      | error e => cases plays
      | ok _ =>
          dsimp only at plays
          cases ran : runReady B fuel m (.ok ()) with
          | error stuck => simp [ran] at plays
          | ok played =>
              obtain ⟨s₁, failure₁⟩ := played
              simp only [ran, Option.some.injEq, Prod.mk.injEq] at plays
              obtain ⟨rfl, rfl, rfl⟩ := plays
              exact ⟨m, rfl, ran, rfl, rfl⟩

theorem pace_of_playRound {fuel : Nat} {way : Option Nat × List Change}
    (plays : s.playRound B fuel ledger way = some (round, s', failure)) : s'.pace = s.pace := by
  obtain ⟨m, committed, ran, -⟩ := round_of_playRound plays
  have commits := pace_commitPending s
  rw [committed] at commits
  exact (pace_of_runReady ran).trans commits

theorem History.course (history : History B rounds ledger s (.ok ())) : ∃ log, Course B log s := by
  generalize fine : (.ok () : Except SimError Unit) = failure at history
  induction history with
  | first built idle adjusted plays =>
      subst fine
      obtain ⟨m, committed, ran, -⟩ := round_of_playRound plays
      exact ⟨_, .first built adjusted committed ran⟩
  | next history running goesOn plays ih =>
      subst fine
      obtain ⟨log, course⟩ := ih rfl
      obtain ⟨m, committed, ran, -⟩ := round_of_playRound plays
      exact ⟨_, .next course running goesOn committed ran⟩

theorem PlaysOn.history (playsOn : PlaysOn B cap ledger s m round s' failure)
    (history : History B rounds ledger s (.ok ())) :
    History B (rounds ++ [round]) (ledger ++ round.turns.flatMap Turn.issues) s' failure := by
  obtain ⟨running, again, fuel, plays⟩ := playsOn
  exact history.next running (.again again) plays

theorem PlaysOn.spec (playsOn : PlaysOn B cap ledger s m round s' failure) :
    s'.pace = m.pace ∧ round.now = m.kernel.now ∧ round.drained = (s.passage cap).1 := by
  obtain ⟨-, -, fuel, plays⟩ := playsOn
  obtain ⟨-, -, -, now, drained⟩ := round_of_playRound plays
  exact ⟨pace_of_playRound plays, now, drained⟩

theorem PlaysOn.of_playOn {fuel : Nat}
    {played : Simulation σ ω × Round σ × Simulation σ ω × Except SimError Unit}
    (plays : s.playOn B fuel cap ledger = some played) :
    PlaysOn B cap ledger s played.1 played.2.1 played.2.2.1 played.2.2.2 := by
  unfold playOn at plays
  split at plays
  · next running again =>
      obtain ⟨round, found, rfl⟩ := Option.map_eq_some_iff.mp plays
      exact ⟨running, again, fuel, found⟩
  · cases plays

/-! ## While somebody dozes -/

/-- The queue holds an entry for whoever dozes, and nothing in it is due earlier. -/
theorem Dozes.nextTime? (dozes : Dozes rounds s.kernel.now tag)
    (history : History B rounds ledger s (.ok ())) :
    s.queue.nextTime? = some s.kernel.now := by
  obtain ⟨⟨j, a, waits, here, zero⟩, unused⟩ := dozes
  obtain ⟨r, explained, quiet, -, follows⟩ := history.explained
  obtain ⟨marks, tracks⟩ := follows.tracks
  have due : a.due? (Story.ofList rounds j).now = some s.kernel.now := by
    rw [here]
    rcases zero with rfl | rfl <;> rfl
  have current := explained.armed waits unused
  have idle := quiet tag current
  have listed := (explained.awaiting waits current idle s.kernel.now).mpr
    ⟨a, List.mem_singleton_self a, due⟩
  obtain ⟨arming, wakes⟩ := (tracks.awaited.exists_iff s.kernel.now).mpr ⟨tag, listed⟩
  obtain ⟨e, entry, wakes⟩ := List.mem_filterMap.mp (Multiset.mem_coe.mp wakes)
  have time : e.time = s.kernel.now := by
    unfold Entry.wake? at wakes
    split at wakes
    · exact congrArg Prod.fst (Option.some.inj wakes)
    · cases wakes
  obtain ⟨log, course⟩ := history.course
  obtain ⟨-, ahead, -⟩ := course.records
  cases next : s.queue.nextTime? with
  | none =>
      rw [EventQueue.nextTime?_eq_none_iff.mp next] at entry
      cases entry
  | some first =>
      have least := EventQueue.le_of_nextTime? next entry
      obtain ⟨e', entry', time'⟩ := EventQueue.exists_of_nextTime? next
      have undue : s.kernel.now ≤ e'.time := ahead e' entry'
      exact congrArg some (by omega)

/-- The pace of a round to which a run goes on is that of another delta cycle, if the tick stays. -/
theorem delta_of_goes {p p' : Pace} (goes : p.Goes cap p') (here : p'.now = p.now) :
    p'.delta = p.delta + 1 := by
  cases goes with
  | stays allowed => rfl
  | moves later inTime => exact absurd here (Nat.ne_of_gt later)

/-- The next round is at the same tick, one delta cycle later, and begins with a look at the queue
exactly if the round before it has left the tick settled. -/
theorem Dozes.onward (dozes : Dozes rounds s.kernel.now tag)
    (history : History B rounds ledger s (.ok ()))
    (again : s.proceed cap = (m, .again)) :
    m.kernel.now = s.kernel.now ∧ m.delta = s.delta + 1 ∧
      (s.passage cap).1 = if s.settled?.isSome then some s.kernel.now else none := by
  have next := dozes.nextTime? history
  have paced := pace_exchange s
  have queue : s.exchange.1.queue = s.queue := by
    obtain ⟨kernel, world, link, exchanged, -⟩ := exchange_spec s
    rw [exchanged]
  have way := way_of_proceed s
  rw [passage_eq]
  generalize s.settled? = settled at way
  cases way with
  | failed exchanged proceeds => cases (proceeds cap).symm.trans again
  | @entered m₁ sent exchanged proceeds =>
      rw [exchanged] at paced
      have entered := goOn_eq_again_iff.mp ((proceeds cap).symm.trans again)
      have goes := goes_of_nextDelta cap entered
      have kernel := kernel_nextDelta m₁.purge
      rw [entered] at kernel
      rw [pace_purge, paced] at goes
      have here : m.kernel.now = s.kernel.now :=
        (congrArg Kernel.now kernel).trans (congrArg Pace.now ((pace_purge m₁).trans paced))
      exact ⟨here, delta_of_goes goes here, rfl⟩
  | @settled m₁ exchanged pending proceeds =>
      rw [exchanged] at paced queue
      replace again := (proceeds cap).symm.trans again
      have same : m₁.purge.pace = s.pace := (pace_purge m₁).trans paced
      have earliest : m₁.purge.queue.nextTime? = some s.kernel.now :=
        (congrArg EventQueue.nextTime? queue).trans next
      have here := Option.some.inj ((now_of_leaveTick again).symm.trans earliest)
      have now : m₁.purge.kernel.now = s.kernel.now := congrArg Pace.now same
      have goes := goes_of_leaveTick (Nat.le_of_eq (now.trans here.symm)) again
      rw [same] at goes
      refine ⟨here, delta_of_goes goes here, ?_⟩
      have way := way_of_leaveTick again
      rw [Option.elim_some, departure_eq]
      generalize m₁.purge.onward? cap = onward at way
      cases way with
      | advanced elsewhere next' inTime advanced =>
          cases next'.symm.trans earliest
          rfl

/-- An alternative that takes no time comes about where the queue is drained of its own tick. -/
theorem comesAbout_of_zero {story : Story σ} {i j : Nat} {group : Group} {a : Alternative σ}
    (zero : a = .noop ∨ a = .delay 0) :
    story.ComesAbout j i group a ↔ j < i ∧ (story i).drained = some (story j).now := by
  rcases zero with rfl | rfl <;> rfl

/-- Whoever dozes is resumed in the next round exactly if the round before it has left the tick
settled. -/
theorem Dozes.resumed_iff (dozes : Dozes rounds s.kernel.now tag)
    (history : History B rounds ledger s (.ok ()))
    (playsOn : PlaysOn B cap ledger s m round s' failure) :
    (∃ t ∈ round.turns, t.tag = tag) ↔ s.settled?.isSome = true := by
  obtain ⟨-, -, drains⟩ := dozes.onward history playsOn.again
  obtain ⟨⟨j, a, ⟨turn, listed, rfl, body, yielded⟩, here, zero⟩, unused⟩ := dozes
  obtain ⟨-, -, drained⟩ := playsOn.spec
  rw [drains] at drained
  obtain ⟨r, explained, quiet, ends, -⟩ := (playsOn.history history).explained
  rw [Story.ofList_concat] at explained ends
  have earlier : j < rounds.length := by
    by_contra beyond
    rw [Story.turns_ofList_of_le (Nat.le_of_not_lt beyond)] at listed
    cases listed
  have resumes := explained.resumed_next_iff quiet ends rounds.length turn.tag
  have before {i : Nat} (lt : i < rounds.length) :
      Function.update (Story.ofList rounds) rounds.length round i = Story.ofList rounds i :=
    Function.update_of_ne (Nat.ne_of_lt lt) ..
  have comes (group : Group) :
      Story.ComesAbout (Function.update (Story.ofList rounds) rounds.length round) j rounds.length
        group a ↔ s.settled?.isSome = true := by
    rw [comesAbout_of_zero zero, Function.update_self, before earlier, here, drained,
      and_iff_right earlier]
    cases s.settled?.isSome <;> simp
  rw [Story.Resumed, Function.update_self] at resumes
  refine resumes.trans ⟨?_, fun settled => ?_⟩
  · rintro ⟨j', -, alternatives, waits, -, p, a', listed', about⟩
    rw [← before earlier] at listed
    obtain ⟨rfl, body', yielded'⟩ := explained.waits_once waits listed rfl
    rw [yielded] at yielded'
    cases yielded'
    obtain rfl : a = a' := List.mem_singleton.mp (List.mem_of_getElem? listed') |>.symm
    exact (comes _).mp about
  · refine ⟨j, Nat.le_of_lt earlier, [a], ⟨turn, ?_, rfl, body, yielded⟩, fun i _ lt resumed => ?_,
      0, a, rfl, (comes _).mpr settled⟩
    · rw [before earlier]
      exact listed
    · rw [Story.Resumed, before lt] at resumed
      exact unused i resumed

/-- Whoever dozes in an unsettled tick dozes on in the next round. -/
theorem Dozes.on (dozes : Dozes rounds s.kernel.now tag)
    (history : History B rounds ledger s (.ok ())) (busy : s.settled? = none)
    (playsOn : PlaysOn B cap ledger s m round s' (.ok ())) :
    Dozes (rounds ++ [round]) s'.kernel.now tag ∧ s'.kernel.now = s.kernel.now ∧
      s'.delta = s.delta + 1 ∧ round.now = s.kernel.now ∧ ∀ t ∈ round.turns, t.tag ≠ tag := by
  have resumed := dozes.resumed_iff history playsOn
  obtain ⟨now, delta, -⟩ := dozes.onward history playsOn.again
  obtain ⟨⟨j, a, waits, here, zero⟩, unused⟩ := dozes
  obtain ⟨pace, time, -⟩ := playsOn.spec
  have now' : s'.kernel.now = s.kernel.now := (congrArg Pace.now pace).trans now
  have asleep : ∀ t ∈ round.turns, t.tag ≠ tag := by
    rw [busy] at resumed
    exact fun t listed same => Bool.false_ne_true (resumed.mp ⟨t, listed, same⟩)
  have earlier : j ≠ rounds.length := by
    rintro rfl
    obtain ⟨turn, listed, -⟩ := waits
    rw [Story.turns_ofList_of_le (Nat.le_refl _)] at listed
    cases listed
  refine ⟨⟨⟨j, a, ?_, ?_, zero⟩, fun i resumed => ?_⟩, now', (congrArg Pace.delta pace).trans delta,
    time.trans now, asleep⟩
  · rw [Story.Waits, Story.ofList_concat, Function.update_of_ne earlier]
    exact waits
  · rw [Story.ofList_concat, Function.update_of_ne earlier, here, now']
  · rw [Story.Resumed, Story.ofList_concat] at resumed
    by_cases last : i = rounds.length
    · subst last
      rw [Function.update_self] at resumed
      obtain ⟨t, listed, same⟩ := resumed
      exact asleep t listed same
    · rw [Function.update_of_ne last] at resumed
      exact unused i resumed

/-- Whoever dozes goes on dozing as long as the run lingers in the tick. -/
theorem Lingers.dozes (lingers : Lingers B cap ledger s more ledger' s')
    (history : History B rounds ledger s (.ok ())) (dozes : Dozes rounds s.kernel.now tag) :
    History B (rounds ++ more) ledger' s' (.ok ()) ∧ Dozes (rounds ++ more) s'.kernel.now tag ∧
      s'.kernel.now = s.kernel.now ∧ s'.delta = s.delta + more.length ∧
      ∀ later ∈ more, later.now = s.kernel.now ∧ ∀ t ∈ later.turns, t.tag ≠ tag := by
  induction lingers with
  | here =>
      rw [List.append_nil]
      exact ⟨history, dozes, rfl, rfl, fun _ listed => nomatch listed⟩
  | @on more ledger' s' m s'' round _ busy playsOn ih =>
      obtain ⟨history', dozes', now, delta, asleep⟩ := ih
      obtain ⟨dozes'', now', delta', time, asleep'⟩ := dozes'.on history' busy playsOn
      rw [← List.append_assoc]
      refine ⟨playsOn.history history', dozes'', now'.trans now, ?_, fun later listed => ?_⟩
      · rw [delta', delta, List.length_append, List.length_singleton, Nat.add_assoc]
      · rcases List.mem_append.mp listed with listed | listed
        · exact asleep later listed
        · obtain rfl := List.mem_singleton.mp listed
          exact ⟨time.trans now, asleep'⟩

/-! ## Falling asleep -/

theorem History.now_of_last {first : Round σ}
    (history : History B (rounds ++ [first]) ledger s failure) : first.now = s.kernel.now := by
  have clock {s₁ : Simulation σ ω} {fuel : Nat} {ledger : List Tag}
      {way : Option Nat × List Change} {round : Round σ}
      (plays : s₁.playRound B fuel ledger way = some (round, s, failure)) :
      round.now = s.kernel.now := by
    obtain ⟨-, -, -, time, -⟩ := round_of_playRound plays
    exact time.trans (congrArg Pace.now (pace_of_playRound plays)).symm
  generalize all : rounds ++ [first] = told at history
  have last : told.getLast? = some first := by rw [← all, List.getLast?_concat]
  cases history with
  | first built idle adjusted plays =>
      cases last
      exact clock plays
  | next history running goesOn plays =>
      rw [List.getLast?_concat] at last
      cases last
      exact clock plays

/-- Whoever has just begun a wait of no length dozes. -/
theorem History.dozes {first : Round σ} {turn : Turn σ} {body : Body σ}
    {a : Alternative σ} (history : History B (rounds ++ [first]) ledger s (.ok ()))
    (taken : turn ∈ first.turns) (yielded : turn.deed = .waiting body [a])
    (zero : a = .noop ∨ a = .delay 0) :
    Dozes (rounds ++ [first]) s.kernel.now turn.tag.next := by
  have time := history.now_of_last
  obtain ⟨r, explained, quiet, ends, -⟩ := history.explained
  have last : Story.ofList (rounds ++ [first]) rounds.length = first := by
    rw [Story.ofList_concat, Function.update_self]
  have listed : turn ∈ (Story.ofList (rounds ++ [first]) rounds.length).turns := by
    rw [last]
    exact taken
  refine ⟨⟨rounds.length, a, ⟨turn, listed, rfl, body, yielded⟩, ?_, zero⟩, fun i resumed => ?_⟩
  · rw [last]
    exact time
  · have within := explained.le_of_mem resumed.choose_spec.1
    rw [List.length_append, List.length_singleton, Nat.add_sub_cancel] at within
    obtain ⟨j, -, alternatives, waits, -, p, a', listed', about⟩ :=
      (explained.resumed_next_iff quiet ends i turn.tag).mp resumed
    obtain ⟨rfl, body', yielded'⟩ := explained.waits_once waits listed rfl
    rw [yielded] at yielded'
    cases yielded'
    obtain rfl : a' = a := List.mem_singleton.mp (List.mem_of_getElem? listed')
    obtain ⟨after, -⟩ := (comesAbout_of_zero zero).mp about
    exact absurd after (Nat.not_lt_of_le within)

/-- A wait of no length lasts until the tick has settled: through all rounds that the run plays
before, the waiter is not resumed, and it is resumed in the delta cycle after that. -/
theorem a_zero_wait_lasts_until_the_tick_has_settled {first : Round σ} {turn : Turn σ}
    {body : Body σ} {a : Alternative σ}
    (history : History B (rounds ++ [first]) ledger s (.ok ())) (taken : turn ∈ first.turns)
    (yielded : turn.deed = .waiting body [a]) (zero : a = .noop ∨ a = .delay 0)
    (lingers : Lingers B cap ledger s more ledger' s')
    (playsOn : PlaysOn B cap ledger' s' m round s'' failure) :
    (∀ later ∈ more, later.now = first.now ∧ ∀ t ∈ later.turns, t.tag ≠ turn.tag.next) ∧
      round.now = first.now ∧ m.delta = s.delta + more.length + 1 ∧
      ((∃ t ∈ round.turns, t.tag = turn.tag.next) ↔ s'.settled?.isSome = true) := by
  have time := history.now_of_last
  have dozes := history.dozes taken yielded zero
  obtain ⟨history', dozes', now, delta, asleep⟩ := lingers.dozes history dozes
  obtain ⟨now', delta', -⟩ := dozes'.onward history' playsOn.again
  obtain ⟨-, here, -⟩ := playsOn.spec
  rw [time, here, now', now, delta', delta]
  exact ⟨asleep, rfl, rfl, dozes'.resumed_iff history' playsOn⟩

/-- One who naps for no time, and one who writes a total. -/
def siesta : Behaviours Nat Unit where
  name _ := "siesta"
  resume
    | 0 => .done (.wait 1 .noop)
    | 1 => .done .done
    | _ => (Activity.setNext ⟨0⟩ (.int 1)).bind fun _ => .done .done
  react state := .done state

/-- A simulation of the two. -/
def noon : Simulation Nat Unit :=
  (({ kernel := Simulation.ledger, world := () } : Simulation Nat Unit).addWaiter "siesta"
    (.process 0) none).addWaiter "siesta" (.process 2) none

/-- The first round, in which the nap begins and the total is written. -/
def nodding : Round Nat × Simulation Nat Unit × Except SimError Unit :=
  (noon.playRound siesta 9 noon.rootTags (none, [])).get (by decide +kernel)

/-- The armings that were issued up to the first round. -/
def noonTags : List Tag := noon.rootTags ++ nodding.1.turns.flatMap Turn.issues

/-- The second round, at the beginning of which the total is committed. -/
def dreaming : Simulation Nat Unit × Round Nat × Simulation Nat Unit × Except SimError Unit :=
  (nodding.2.1.playOn siesta 9 none noonTags).get (by decide +kernel)

/-- The third round. -/
def waking : Simulation Nat Unit × Round Nat × Simulation Nat Unit × Except SimError Unit :=
  (dreaming.2.2.1.playOn siesta 9 none
    (noonTags ++ dreaming.2.1.turns.flatMap Turn.issues)).get (by decide +kernel)

theorem history_nodding : History siesta [nodding.1] noonTags nodding.2.1 (.ok ()) := by
  have made : Simulation.ledger.Made := .signal .empty "total" (.int 0) none
  have built : build siesta Simulation.ledger [.process 0, .process 2] () = .ok noon := rfl
  have fine : nodding.2.2 = .ok () := by decide +kernel
  have plays : noon.playRound siesta 9 noon.rootTags (none, []) = some nodding :=
    (Option.some_get _).symm
  unfold noonTags
  generalize nodding = played at fine plays
  obtain ⟨round, s, failure⟩ := played
  cases fine
  exact .first built made.sound.atStart.idle (.refl _) plays

theorem playsOn_dreaming :
    PlaysOn siesta none noonTags nodding.2.1 dreaming.1 dreaming.2.1 dreaming.2.2.1 (.ok ()) := by
  have fine : dreaming.2.2.2 = .ok () := by decide +kernel
  have plays : nodding.2.1.playOn siesta 9 none noonTags = some dreaming :=
    (Option.some_get _).symm
  rw [← fine]
  exact .of_playOn plays

theorem playsOn_waking :
    PlaysOn siesta none (noonTags ++ dreaming.2.1.turns.flatMap Turn.issues) dreaming.2.2.1
      waking.1 waking.2.1 waking.2.2.1 waking.2.2.2 := by
  have plays : dreaming.2.2.1.playOn siesta 9 none
      (noonTags ++ dreaming.2.1.turns.flatMap Turn.issues) = some waking :=
    (Option.some_get _).symm
  exact .of_playOn plays

/-- Whether a deed begins a nap. -/
def naps : Deed Nat → Bool
  | .waiting _ [.noop] => true
  | _ => false

theorem nap_of_nodding :
    ∃ turn ∈ nodding.1.turns, turn.tag = ⟨.root 0, 0⟩ ∧
      ∃ body, turn.deed = .waiting body [.noop] := by
  have some_naps : nodding.1.turns.any (fun turn => turn.tag = ⟨.root 0, 0⟩ && naps turn.deed) =
      true := by decide +kernel
  obtain ⟨turn, listed, both⟩ := List.any_eq_true.mp some_naps
  obtain ⟨tag, nap⟩ := Bool.and_eq_true_iff.mp both
  refine ⟨turn, listed, of_decide_eq_true tag, ?_⟩
  unfold naps at nap
  split at nap
  · next body deed => exact ⟨body, deed⟩
  · cases nap

/-- The tick has not settled after the first round, since the total is still to be committed; so the
second round is at the same tick, and the nap goes on through it. -/
theorem a_nap_outlasts_a_write :
    History siesta [nodding.1] noonTags nodding.2.1 (.ok ()) ∧
      PlaysOn siesta none noonTags nodding.2.1 dreaming.1 dreaming.2.1 dreaming.2.2.1 (.ok ()) ∧
      dreaming.2.1.now = nodding.1.now ∧
      ∃ turn ∈ nodding.1.turns, (∃ body, turn.deed = .waiting body [.noop]) ∧
        ∀ t ∈ dreaming.2.1.turns, t.tag ≠ turn.tag.next := by
  obtain ⟨turn, listed, tag, nap⟩ := nap_of_nodding
  refine ⟨history_nodding, playsOn_dreaming, by decide +kernel, turn, listed, nap, ?_⟩
  rw [tag]
  decide +kernel

/-- The tick has settled after the second round, and the nap ends in the third one. -/
theorem the_nap_ends_in_the_third_round :
    waking.1.delta = 2 ∧ waking.2.1.now = 0 ∧ ∃ t ∈ waking.2.1.turns, t.tag = ⟨.root 0, 1⟩ := by
  obtain ⟨turn, listed, tag, body, yielded⟩ := nap_of_nodding
  have lingers : Lingers siesta none noonTags nodding.2.1 ([] ++ [dreaming.2.1]) _ dreaming.2.2.1 :=
    .on .here (Option.isNone_iff_eq_none.mp (by decide +kernel)) playsOn_dreaming
  have history : History siesta ([] ++ [nodding.1]) noonTags nodding.2.1 (.ok ()) := history_nodding
  obtain ⟨-, now, delta, ends⟩ := a_zero_wait_lasts_until_the_tick_has_settled history listed
    yielded (.inl rfl) lingers playsOn_waking
  rw [now, delta]
  refine ⟨by decide +kernel, by decide +kernel, ?_⟩
  rw [tag] at ends
  exact ends.mpr (by decide +kernel)

end Simulation

end DeltaCycle
