import DeltaCycle.Proofs.Confluence
import DeltaCycle.Proofs.Views

/-!
# Kinship

Two simulations are kin if one roster tracks both, through books of their own, and if they show the
same of every signal. Where no two waiters touch the proposed value of the same signal, kin stay kin
from cycle to cycle, and they commit the same changes of each signal.
-/

set_option autoImplicit false

namespace DeltaCycle

open Roster Kernel

variable {σ : Type} {B : Behaviours σ Unit}

/-! ## What kernels show -/

theorem Signal.bare_of_committed {s s₁ : Signal} (committed : s₁.committed = s.committed)
    (next : s₁.next = s.next) : s₁.bare = s.bare := by
  have same : ({ s₁.committed with next := s₁.next } : Signal) =
      { s.committed with next := s.next } := by rw [committed, next]
  exact same

namespace Kernel

/-- Kernels that are alike show the same. -/
theorem Alike.bare {k k₁ : Kernel} (alike : Alike k k₁) (id : SignalId) :
    (k₁.signal? id).map Signal.bare = (k.signal? id).map Signal.bare := by
  have proposed := alike.proposed id
  unfold proposed? at proposed
  rcases signal?_cases alike.committed id with ⟨found, found₁⟩ | ⟨s, s₁, found, found₁, same⟩
  · rw [found, found₁]
  · rw [found, found₁, Option.map_some, Option.map_some, Option.some.injEq] at proposed ⊢
    exact Signal.bare_of_committed same proposed

/-- Signals that show the same leave kernels alike. -/
theorem Alike.of_bare {k k₁ : Kernel} (alike : Alike k k₁) {signals signals₁ : Array Signal}
    (bare : ∀ id, (({ k₁ with signals := signals₁ } : Kernel).signal? id).map Signal.bare =
      (({ k with signals } : Kernel).signal? id).map Signal.bare) :
    Alike { k with signals } { k₁ with signals := signals₁ } := by
  refine ⟨?_, alike.stopRequest, fun id => ?_, alike.pending⟩
  · have same : signals₁.map Signal.committed = signals.map Signal.committed := by
      refine Array.ext_getElem? fun i => ?_
      have shown := congrArg (Option.map Signal.committed) (bare ⟨i⟩)
      rw [Option.map_map, Option.map_map] at shown
      rw [Array.getElem?_map, Array.getElem?_map]
      exact shown
    have others := congrArg (fun k : Kernel => { k with signals := signals.map Signal.committed })
      alike.committed
    exact (congrArg (fun signals => { k₁.committed with signals }) same).trans others
  · have shown := congrArg (Option.map Signal.next) (bare id)
    rw [Option.map_map, Option.map_map] at shown
    exact shown

theorem alike_purged (keep : Arming → Bool) (ids : List SignalId) (k : Kernel) :
    Alike k (ids.foldl (fun k id => k.modify id (Simulation.purged keep)) k) := by
  induction ids generalizing k with
  | nil => exact .refl k
  | cons id rest ih =>
      have first := alike_modify k id (f := Simulation.purged keep) (fun _ => rfl) fun _ => rfl
      exact first.trans (ih _)

end Kernel

/-- The changes fire what changes in another order fire. -/
theorem Roster.advance_perm (r : Roster σ) {changes changes' : List Change}
    (perm : changes'.Perm changes) (drained : Option Nat) :
    r.advance changes' drained = r.advance changes drained := by
  unfold advance
  simp only [perm.any_eq]

/-- Somebody is woken at a tick exactly if the roster says so. -/
theorem Awaited.exists_iff {wakes : Multiset (Nat × Arming)} {tags : Arming → Option Tag}
    {awaited : Multiset (Nat × Tag)} (h : Awaited wakes tags awaited) (time : Nat) :
    (∃ a, (time, a) ∈ wakes) ↔ ∃ tag, (time, tag) ∈ awaited := by
  constructor
  · rintro ⟨a, listed⟩
    obtain ⟨tag, -, listed'⟩ := h.tagged listed
    exact ⟨tag, listed'⟩
  · rintro ⟨tag, listed⟩
    have mapped := Multiset.mem_map_of_mem (fun e : Nat × Tag => (e.1, some e.2)) listed
    rw [← h] at mapped
    obtain ⟨⟨time', a⟩, listed', same⟩ := Multiset.mem_map.mp mapped
    cases (Prod.mk.inj same).1
    exact ⟨a, listed'⟩

namespace Enacts

variable {r r' : Roster σ} {k k' : Kernel} {turns : List (Turn σ)}

theorem lineal (enacts : Enacts B r k turns r' k') (lineal : r.Lineal) : r'.Lineal := by
  induction enacts with
  | nil => exact lineal
  | cons performs _ ih => exact ih (lineal.turn performs.takes _)

theorem rested (enacts : Enacts B r k turns r' k') (rested : r.Rested) : r'.Rested := by
  induction enacts with
  | nil => exact rested
  | cons performs _ ih => exact ih (rested.turn _ _ _)

end Enacts

/-- Writes put nothing into a timetable. -/
theorem Desk.Goes.keeps_timetable {d d' : Desk} {writes : List (SignalId × Value)}
    (goes : Goes d (logOfWrites writes) d') {table : Timetable} (keeps : d.queue.Keeps table) :
    d'.queue.Keeps table := by
  refine goes.keeps_of_log (P := fun d => d.queue.Keeps table)
    (fun {d happening d'} step (only : ∀ h ∈ happening, ∃ id value, h = .written id value) keeps =>
      ?_) (fun h listed => ?_) keeps
  · cases step with
    | marked | noted | rewired | written | ticked => exact keeps
    | queued q a ahead => exact keeps.push_wake _ a
    | taken k popped => exact keeps.pop_wake popped
    | collected | updated | lost | arrived =>
        obtain ⟨id, value, same⟩ := only _ rfl
        cases same
  · obtain ⟨write, -, rfl⟩ := List.mem_map.mp listed
    exact ⟨_, _, rfl⟩

namespace Simulation

variable {ω : Type}

theorem queue_moveClock (s : Simulation σ ω) (time : Nat) :
    (s.moveClock time).1.queue = s.queue := by
  obtain ⟨now, delta, deltas, timeSteps, moved⟩ := moveClock_spec s time
  rw [moved]

/-- The changes that are committed at the end of a cycle, where the tick is left. -/
def partings (s : Simulation σ ω) (cap : Option Nat) : List Change :=
  match s.settled? with
  | none => []
  | some q => q.departures cap

theorem cycleCommits_of_round {B : Behaviours σ ω} {s m s' : Simulation σ ω} {fuel : Nat}
    (committed : s.commitPending = (m, .ok ()))
    (ran : runReady B fuel m (.ok ()) = .ok (s', .ok ())) (running : s'.kernel.stopRequest = none)
    (cap : Option Nat) :
    s.cycleCommits B fuel cap = s.commits ++ s'.partings cap := by
  simp only [cycleCommits, roundCommits, rounded?_of_round committed ran,
    rested?_of_round committed ran running, running, Except.isOk, Except.toBool,
    Option.isNone_none, Bool.and_self, if_true, List.append_nil]
  rfl

end Simulation

open Simulation

/-! ## Kin -/

/-- The roster tracks a simulation that has neither hook nor bridge. -/
structure Guides (ledger : List Tag) (r : Roster σ) (s : Simulation σ Unit) : Prop where
  hook : s.hook = none
  link : s.link = none
  staffed : s.Staffed
  tracks : ∃ marks, Tracks ledger s marks r

theorem Guides.openLink? {ledger : List Tag} {r : Roster σ} {s : Simulation σ Unit}
    (guides : Guides ledger r s) : s.openLink? = none := by
  rw [Simulation.openLink?, guides.link, Option.filter_none]

/-- The roster goes on guiding a simulation in which waiters are resumed. -/
theorem Guides.resumed {ledger ledger' : List Tag} {r r' : Roster σ} {s s' : Simulation σ Unit}
    (guides : Guides ledger r s) {fuel : Nat} {failure failure' : Except SimError Unit}
    (ran : Simulation.runReady B fuel s failure = .ok (s', failure')) {marks : Marks}
    (tracks : Tracks ledger' s' marks r') : Guides ledger' r' s' := by
  obtain ⟨resumes, same⟩ := surroundings_runReady ran
  have hook : s'.hook = s.hook := congrArg Surroundings.hook same
  have link := congrArg Surroundings.link same
  change s'.link.map _ = s.link.map _ at link
  rw [guides.link, Option.map_none, Option.map_eq_none_iff] at link
  exact ⟨hook.trans guides.hook, link, (does_runReady guides.staffed ran).staffed guides.staffed,
    marks, tracks⟩

/-- One roster tracks both simulations, and they show the same of every signal. -/
structure Kin (ledger : List Tag) (r : Roster σ) (s s₁ : Simulation σ Unit) : Prop where
  rested : r.Rested
  lineal : r.Lineal
  guides : Guides ledger r s
  guides₁ : ∃ ledger₁, Guides ledger₁ r s₁
  alike : Alike s.kernel s₁.kernel
  table : ∃ table, s.queue.Keeps table ∧ s₁.queue.Keeps table
  delta : s₁.delta = s.delta
  maxDeltas : s₁.maxDeltas = s.maxDeltas
  stats : s₁.stats = s.stats

namespace Kin

variable {ledger : List Tag} {r : Roster σ} {s s₁ s' : Simulation σ Unit}
  (kin : Kin ledger r s s₁)

include kin

theorem now : s₁.kernel.now = s.kernel.now := now_of_committed kin.alike.committed

theorem shows : ∃ views, s.Shows views ∧ s₁.Shows views := by
  obtain ⟨table, keeps, keeps₁⟩ := kin.table
  exact ⟨fun id => ⟨(s.kernel.signal? id).map Signal.bare, table id⟩, ⟨fun _ => rfl, keeps⟩,
    ⟨kin.alike.bare, keeps₁⟩⟩

/-- Kin stay kin where signals and what is due change in the same way. -/
theorem moved {m m₁ : Simulation σ Unit} (moved : s.Moved m) (moved₁ : s₁.Moved m₁)
    {views : SignalId → View} (shows : m.Shows views) (shows₁ : m₁.Shows views)
    (commits : m₁.stats.commits = m.stats.commits) {changes : List Change} {drained : Option Nat}
    (tracks : ∀ marks, Tracks ledger s marks r → Tracks ledger m marks (r.advance changes drained))
    (tracks₁ : ∀ ledger₁ marks, Tracks ledger₁ s₁ marks r →
      Tracks ledger₁ m₁ marks (r.advance changes drained)) :
    Kin ledger (r.advance changes drained) m m₁ := by
  obtain ⟨signals, ready, queue, count, world, rfl⟩ := moved
  obtain ⟨signals₁, ready₁, queue₁, count₁, world₁, rfl⟩ := moved₁
  obtain ⟨hook, link, staffed, marks, tracked⟩ := kin.guides
  obtain ⟨ledger₁, hook₁, link₁, staffed₁, marks₁, tracked₁⟩ := kin.guides₁
  exact {
    rested := kin.rested
    lineal := kin.lineal
    guides := ⟨hook, link, staffed, marks, tracks marks tracked⟩
    guides₁ := ⟨ledger₁, hook₁, link₁, staffed₁, marks₁, tracks₁ ledger₁ marks₁ tracked₁⟩
    alike := kin.alike.of_bare fun id => (shows₁.signals id).trans (shows.signals id).symm
    table := ⟨_, shows.dues, shows₁.dues⟩
    delta := kin.delta
    maxDeltas := kin.maxDeltas
    stats := by
      change { s₁.stats with commits := count₁ } = { s.stats with commits := count }
      rw [kin.stats, show count₁ = count from commits] }

/-- Kin stay kin where the clock, the delta cycle and what was counted change in the same way. -/
theorem clocked {now now₁ delta delta₁ : Nat} {stats stats₁ : RunStats} (nows : now₁ = now)
    (deltas : delta₁ = delta) (counts : stats₁ = stats) :
    Kin ledger r { s with kernel := { s.kernel with now }, delta, stats }
      { s₁ with kernel := { s₁.kernel with now := now₁ }, delta := delta₁, stats := stats₁ } := by
  subst nows
  obtain ⟨hook, link, staffed, marks, tracks⟩ := kin.guides
  obtain ⟨ledger₁, hook₁, link₁, staffed₁, marks₁, tracks₁⟩ := kin.guides₁
  have committed := congrArg (fun k : Kernel => { k with now := now₁ }) kin.alike.committed
  exact {
    rested := kin.rested
    lineal := kin.lineal
    guides := ⟨hook, link, staffed, marks, tracks.of_books rfl rfl rfl rfl⟩
    guides₁ := ⟨ledger₁, hook₁, link₁, staffed₁, marks₁, tracks₁.of_books rfl rfl rfl rfl⟩
    alike := ⟨committed, kin.alike.stopRequest, kin.alike.proposed, kin.alike.pending⟩
    table := kin.table
    delta := deltas
    maxDeltas := kin.maxDeltas
    stats := counts }

/-! ## Committing -/

/-- Kin stay kin where the marks of signals are taken away. -/
theorem unmark : Kin ledger r { s with kernel := { s.kernel with pending := [] } }
    { s₁ with kernel := { s₁.kernel with pending := [] } } := by
  obtain ⟨hook, link, staffed, marks, tracks⟩ := kin.guides
  obtain ⟨ledger₁, hook₁, link₁, staffed₁, marks₁, tracks₁⟩ := kin.guides₁
  exact {
    rested := kin.rested
    lineal := kin.lineal
    guides := ⟨hook, link, staffed, marks, tracks.of_books rfl rfl rfl rfl⟩
    guides₁ := ⟨ledger₁, hook₁, link₁, staffed₁, marks₁, tracks₁.of_books rfl rfl rfl rfl⟩
    alike := ⟨kin.alike.committed, kin.alike.stopRequest, kin.alike.proposed, .refl _⟩
    table := kin.table
    delta := kin.delta
    maxDeltas := kin.maxDeltas
    stats := kin.stats }

/-- Kin commit the same changes of each signal. -/
theorem commitPending (committed : s.commitPending = (s', .ok ())) :
    ∃ s₁', s₁.commitPending = (s₁', .ok ()) ∧ Kin ledger (r.advance s.commits none) s' s₁' ∧
      ∀ id, changesOf id s₁.commits = changesOf id s.commits := by
  obtain ⟨views, shows, shows₁⟩ := kin.shows
  obtain ⟨ledger₁, guides₁⟩ := kin.guides₁
  obtain ⟨shown, changes, fits⟩ := shows.commitPending kin.guides.hook
  obtain ⟨shown₁, changes₁, fits₁⟩ := shows₁.commitPending guides₁.hook
  simp only [kin.now, kin.alike.pending.count_eq] at shown₁ changes₁ fits₁
  have same (id : SignalId) : changesOf id s₁.commits = changesOf id s.commits :=
    (changes₁ id).trans (changes id).symm
  have perm := perm_of_changesOf same
  have counts : s₁.commitPending.1.stats.commits = s.commitPending.1.stats.commits := by
    rw [count_of_commitPending, count_of_commitPending, kin.stats, perm.length_eq]
  have kin' := kin.unmark.moved (moved_updateAll _ (.ok ()) s.kernel.pending.reverse)
    (moved_updateAll _ (.ok ()) s₁.kernel.pending.reverse) shown shown₁ counts
    (fun marks tracks => tracks.updateAll _ _)
    (fun ledger₁ marks tracks => by
      have tracked := tracks.updateAll s₁.kernel.pending.reverse (.ok ())
      rwa [show Simulation.updates _ _ = s₁.commits from rfl, r.advance_perm perm] at tracked)
  have fine : s₁.commitPending.2 = .ok () := fits₁.mpr (fits.mp (congrArg Prod.snd committed))
  refine ⟨s₁.commitPending.1, Prod.ext rfl fine, ?_, same⟩
  rw [← show s.commitPending.1 = s' from congrArg Prod.fst committed]
  exact kin'

/-! ## A round -/

/-- Kin take the same turns in a round, in some order, if no two waiters touch the proposed value of
the same signal. -/
theorem round {fuel : Nat} (ran : Simulation.runReady B fuel s (.ok ()) = .ok (s', .ok ()))
    (running : s'.kernel.stopRequest = none) (single : OneWriter (s.turns B fuel ledger)) :
    ∃ r' enough s₁',
      (∀ more ≥ enough, Simulation.runReady B more s₁ (.ok ()) = .ok (s₁', .ok ())) ∧
      Kin (ledger ++ (s.turns B fuel ledger).flatMap Turn.issues) r' s' s₁' := by
  obtain ⟨marks, tracks⟩ := kin.guides.tracks
  obtain ⟨ledger₁, guides₁⟩ := kin.guides₁
  obtain ⟨marks₁, tracks₁⟩ := guides₁.tracks
  obtain ⟨marks', r', k', tracks', enacts, alike, quiet⟩ :=
    tracks.enacts kin.rested kin.guides.link ran running
  obtain ⟨enough, s₁', failure, ledger₁', marks₁', ran₁, perm, tracks₁', alike₁⟩ :=
    enacts.rerun quiet kin.lineal kin.rested single tracks₁ guides₁.link kin.alike (.ok ())
  obtain ⟨-, -, -, -, -, -, resumes, failures⟩ :=
    tracks.runReady kin.rested (known_of_alone kin.guides.link) ran
  obtain ⟨-, -, -, -, -, -, resumes₁, failures₁⟩ :=
    tracks₁.runReady kin.rested (known_of_alone guides₁.link) ran₁
  obtain rfl : failure = .ok () := failures₁.mpr ⟨rfl, fun turn listed =>
    (failures.mp rfl).2 turn (perm.mem_iff.mp listed)⟩
  obtain ⟨count, same⟩ := surroundings_runReady ran
  obtain ⟨count₁, same₁⟩ := surroundings_runReady ran₁
  have delta : s'.delta = s.delta := congrArg Surroundings.delta same
  have delta₁ : s₁'.delta = s₁.delta := congrArg Surroundings.delta same₁
  have maxDeltas : s'.maxDeltas = s.maxDeltas := congrArg Surroundings.maxDeltas same
  have maxDeltas₁ : s₁'.maxDeltas = s₁.maxDeltas := congrArg Surroundings.maxDeltas same₁
  have stats : s'.stats = { s.stats with resumes := count } := congrArg Surroundings.stats same
  have stats₁ : s₁'.stats = { s₁.stats with resumes := count₁ } :=
    congrArg Surroundings.stats same₁
  obtain ⟨table, keeps, keeps₁⟩ := kin.table
  refine ⟨r', enough, s₁', fun more le => Outlasts.mono
    (fun fuel => runReady_outlasts fuel s₁ (.ok ())) ran₁ nofun le, ?_⟩
  exact {
    rested := enacts.rested kin.rested
    lineal := enacts.lineal kin.lineal
    guides := kin.guides.resumed ran tracks'
    guides₁ := ⟨ledger₁', guides₁.resumed ran₁ tracks₁'⟩
    alike := alike.symm.trans alike₁
    table := ⟨table, (does_runReady kin.guides.staffed ran).goes.keeps_timetable keeps,
      (does_runReady guides₁.staffed ran₁).goes.keeps_timetable keeps₁⟩
    delta := by rw [delta₁, kin.delta, delta]
    maxDeltas := by rw [maxDeltas₁, kin.maxDeltas, maxDeltas]
    stats := by
      have counts : count₁ = count := by
        rw [stats] at resumes
        rw [stats₁, kin.stats, perm.length_eq] at resumes₁
        exact resumes₁.trans resumes.symm
      rw [stats₁, kin.stats, counts, stats] }

/-! ## From round to round -/

theorem purge : Kin ledger r s.purge s₁.purge := by
  obtain ⟨hook, link, staffed, marks, tracks⟩ := kin.guides
  obtain ⟨ledger₁, hook₁, link₁, staffed₁, marks₁, tracks₁⟩ := kin.guides₁
  have purged (s : Simulation σ Unit) : Alike s.kernel s.purge.kernel := by
    rw [purge_eq]
    exact alike_purged _ _ _
  exact {
    rested := kin.rested
    lineal := kin.lineal
    guides := ⟨hook, link, s.does_purge.staffed staffed, marks, tracks.purge⟩
    guides₁ := ⟨ledger₁, hook₁, link₁, s₁.does_purge.staffed staffed₁, marks₁, tracks₁.purge⟩
    alike := (purged s).symm.trans (kin.alike.trans (purged s₁))
    table := kin.table
    delta := kin.delta
    maxDeltas := kin.maxDeltas
    stats := kin.stats }

theorem nextDelta (entered : s.nextDelta = (s', .ok ())) :
    ∃ s₁', s₁.nextDelta = (s₁', .ok ()) ∧ Kin ledger r s' s₁' := by
  unfold Simulation.nextDelta at entered ⊢
  dsimp only at entered ⊢
  split at entered
  · cases entered
  · next within =>
      cases entered
      rw [← kin.maxDeltas, ← kin.delta] at within
      exact ⟨_, if_neg within, kin.clocked kin.now (by rw [kin.delta]) (by rw [kin.stats])⟩

theorem moveClock {time : Nat} (moved : s.moveClock time = (s', .ok ())) :
    ∃ s₁', s₁.moveClock time = (s₁', .ok ()) ∧ Kin ledger r s' s₁' := by
  unfold Simulation.moveClock at moved ⊢
  rw [kin.now]
  split at moved
  · next later =>
      cases moved
      rw [if_pos later]
      exact ⟨_, rfl, kin.clocked rfl rfl (by rw [kin.stats])⟩
  · next here =>
      rw [if_neg here]
      cases entered : s.nextDelta with
      | mk m result =>
          obtain e | ⟨⟩ := result
          · simp [entered] at moved
          · obtain ⟨m₁, entered₁, kin'⟩ := kin.nextDelta entered
            simp only [entered] at moved
            cases moved
            rw [entered₁]
            exact ⟨_, rfl, kin'.clocked rfl kin'.delta kin'.stats⟩

/-- The earliest events of kin come at the same tick. -/
theorem nextTime? : s₁.queue.nextTime? = s.queue.nextTime? := by
  obtain ⟨table, keeps, keeps₁⟩ := kin.table
  obtain ⟨marks, tracks⟩ := kin.guides.tracks
  obtain ⟨ledger₁, guides₁⟩ := kin.guides₁
  obtain ⟨marks₁, tracks₁⟩ := guides₁.tracks
  refine EventQueue.nextTime?_congr fun time => ?_
  rw [keeps.exists_entry_iff, keeps₁.exists_entry_iff, tracks.awaited.exists_iff,
    tracks₁.awaited.exists_iff]

/-- What is due at the tick of the earliest event changes each signal of kin in the same way. -/
theorem drain {time : Nat} (next : s.queue.nextTime? = some time) :
    ∃ s' s₁' r', s.drain time = (s', .ok ()) ∧ s₁.drain time = (s₁', .ok ()) ∧
      Kin ledger r' s' s₁' ∧
      ∀ id, changesOf id (s₁.drained s₁.queue.size time) =
        changesOf id (s.drained s.queue.size time) := by
  obtain ⟨views, shows, shows₁⟩ := kin.shows
  obtain ⟨ledger₁, guides₁⟩ := kin.guides₁
  have ahead : ∀ e ∈ s.queue.toList, time ≤ e.time := fun e => EventQueue.le_of_nextTime? next
  have ahead₁ : ∀ e ∈ s₁.queue.toList, time ≤ e.time := fun e =>
    EventQueue.le_of_nextTime? (kin.nextTime?.trans next)
  obtain ⟨fine, shown, changes, drains⟩ := shows.drainUpTo kin.guides.hook (Nat.le_refl _) ahead
  obtain ⟨fine₁, shown₁, changes₁, drains₁⟩ :=
    shows₁.drainUpTo guides₁.hook (Nat.le_refl _) ahead₁
  simp only [kin.now] at changes₁
  have same (id : SignalId) : changesOf id (s₁.arrivals s₁.queue.size time) =
      changesOf id (s.arrivals s.queue.size time) := (changes₁ id).trans (changes id).symm
  have perm := perm_of_changesOf same
  have drained : s.drain time = ((drainUpTo s.queue.size s time).1, .ok ()) := Prod.ext rfl fine
  have drained₁ : s₁.drain time = ((drainUpTo s₁.queue.size s₁ time).1, .ok ()) :=
    Prod.ext rfl fine₁
  have counts : (drainUpTo s₁.queue.size s₁ time).1.stats.commits =
      (drainUpTo s.queue.size s time).1.stats.commits := by
    rw [count_of_drainUpTo, count_of_drainUpTo, kin.stats, drains, drains₁, perm.length_eq]
  have kin' := kin.moved (moved_drainUpTo s s.queue.size time)
    (moved_drainUpTo s₁ s₁.queue.size time) shown shown₁ counts
    (fun marks tracks => tracks.drainUpTo (Nat.le_refl _) ahead drained)
    (fun ledger₁ marks tracks => by
      have tracked := tracks.drainUpTo (Nat.le_refl _) ahead₁ drained₁
      rwa [r.advance_perm perm] at tracked)
  refine ⟨_, _, _, drained, drained₁, kin', fun id => ?_⟩
  rw [drains, drains₁, same]

theorem advanceTo {time : Nat} (next : s.queue.nextTime? = some time)
    (advanced : s.advanceTo time = (s', .ok ())) :
    ∃ s₁' r', s₁.advanceTo time = (s₁', .ok ()) ∧ Kin ledger r' s' s₁' ∧
      ∀ id, changesOf id (s₁.arrived time) = changesOf id (s.arrived time) := by
  unfold Simulation.advanceTo at advanced ⊢
  unfold arrived
  have queue := queue_moveClock s time
  cases moved : s.moveClock time with
  | mk m result =>
      obtain e | ⟨⟩ := result
      · simp only [moved] at advanced
        cases advanced
      · obtain ⟨m₁, moved₁, kin'⟩ := kin.moveClock moved
        rw [moved] at queue
        have next' : m.queue.nextTime? = some time := by
          rw [queue]
          exact next
        obtain ⟨t, t₁, r', drained, drained₁, kin'', same⟩ := kin'.drain next'
        obtain ⟨_, guides₁⟩ := kin''.guides₁
        simp only [moved, drained, kin''.guides.openLink?] at advanced
        cases advanced
        simp only [moved₁, drained₁, guides₁.openLink?]
        exact ⟨t₁, r', rfl, kin'', same⟩

theorem leaveTick {cap : Option Nat} {verdict : Verdict}
    (left : s.leaveTick cap = (s', verdict)) (fine : ∀ e, verdict ≠ .ended (.error e)) :
    ∃ s₁' r', s₁.leaveTick cap = (s₁', verdict) ∧ Kin ledger r' s' s₁' ∧
      ∀ id, changesOf id (s₁.departures cap) = changesOf id (s.departures cap) := by
  have same : s₁.onward? cap = s.onward? cap := by rw [onward?, onward?, kin.now, kin.nextTime?]
  have way := way_of_leaveTick left
  rw [departures_eq, departures_eq, same]
  have now := congrArg some kin.now
  have queue := kin.nextTime?
  generalize s.onward? cap = onward at way
  cases way with
  | held here => exact ⟨s₁, r, leaveTick_of_way (.held (here.trans now.symm)), kin, fun _ => rfl⟩
  | exhausted elsewhere last =>
      have way : s₁.LeaveWay cap none s₁ (.ended (.ok (.finished .noMoreEvents))) :=
        .exhausted (now ▸ elsewhere) (queue.trans last)
      exact ⟨s₁, r, leaveTick_of_way way, kin, fun _ => rfl⟩
  | stopped elsewhere next present before =>
      exact ⟨_, r, leaveTick_of_way (.stopped (now ▸ elsewhere) (queue.trans next) present before),
        kin.clocked rfl rfl kin.stats, fun _ => rfl⟩
  | failed elsewhere next inTime advanced => exact absurd rfl (fine _)
  | advanced elsewhere next inTime advanced =>
      obtain ⟨s₁', r', advanced₁, kin', same⟩ := kin.advanceTo next advanced
      exact ⟨s₁', r', leaveTick_of_way (.advanced (now ▸ elsewhere) (queue.trans next) inTime advanced₁),
        kin', same⟩

/-- Kin do the same at the end of a cycle. -/
theorem proceed {cap : Option Nat} {verdict : Verdict} (went : s.proceed cap = (s', verdict))
    (fine : ∀ e, verdict ≠ .ended (.error e)) :
    ∃ s₁' r', s₁.proceed cap = (s₁', verdict) ∧ Kin ledger r' s' s₁' ∧
      ∀ id, changesOf id (s₁.partings cap) = changesOf id (s.partings cap) := by
  obtain ⟨ledger₁, guides₁⟩ := kin.guides₁
  have alone : s.exchange = (s, .ok false) := by rw [exchange, kin.guides.openLink?]
  have alone₁ : s₁.exchange = (s₁, .ok false) := by rw [exchange, guides₁.openLink?]
  have kin' := kin.purge
  have marked : s₁.purge.kernel.pending.isEmpty = s.purge.kernel.pending.isEmpty :=
    kin'.alike.pending.isEmpty_eq
  rw [proceed_eq, alone] at went
  rw [proceed_eq, alone₁]
  simp only [partings, settled?, alone, alone₁, marked, Bool.or_false] at went ⊢
  cases idle : s.purge.kernel.pending.isEmpty with
  | true =>
      simp only [idle, Bool.not_true, Bool.false_eq_true, if_false] at went ⊢
      obtain ⟨s₁', r', left₁, kin'', same⟩ := kin'.leaveTick went fine
      exact ⟨s₁', r', left₁, kin'', same⟩
  | false =>
      simp only [idle, Bool.not_false, if_true] at went ⊢
      cases entered : s.purge.nextDelta with
      | mk m result =>
          rw [entered] at went
          obtain e | ⟨⟩ := result
          · cases went
            exact absurd rfl (fine e)
          · cases went
            obtain ⟨m₁, entered₁, kin''⟩ := kin'.nextDelta entered
            rw [entered₁]
            exact ⟨m₁, r, rfl, kin'', fun _ => trivial⟩

/-- Kin go through a cycle in the same way. -/
theorem cycle {fuel : Nat} {cap : Option Nat} {verdict : Verdict}
    (turned : s.cycle B fuel cap = .ok (s', verdict)) (fine : ∀ e, verdict ≠ .ended (.error e))
    (unasked : ∀ reason, verdict ≠ .ended (.ok (.finished (.requested reason))))
    (single : OneWriter (s.commitPending.1.turns B fuel ledger)) :
    ∃ enough s₁' r',
      (∀ more ≥ enough, s₁.cycle B more cap = .ok (s₁', verdict) ∧
        ∀ id, changesOf id (s₁.cycleCommits B more cap) =
          changesOf id (s.cycleCommits B fuel cap)) ∧
      Kin (ledger ++ (s.commitPending.1.turns B fuel ledger).flatMap Turn.issues) r' s' s₁' := by
  obtain ⟨m, t, committed, ran, ends⟩ := round_of_cycle turned fine
  rcases ends with ⟨running, went⟩ | wrapped
  · obtain ⟨m₁, committed₁, kin₁, commits⟩ := kin.commitPending committed
    rw [committed] at single ⊢
    obtain ⟨r', enough, t₁, ran₁, kin₂⟩ := kin₁.round ran running single
    obtain ⟨s₁', r'', went₁, kin₃, partings⟩ := kin₂.proceed went fine
    have running₁ : t₁.kernel.stopRequest = none := kin₂.alike.stopRequest.trans running
    refine ⟨enough, s₁', r'', fun more le => ⟨?_, fun id => ?_⟩, kin₃⟩
    · rw [cycle_of_round committed₁ (ran₁ more le) running₁, went₁]
    · rw [cycleCommits_of_round committed₁ (ran₁ more le) running₁,
        cycleCommits_of_round committed ran running, changesOf_append, changesOf_append, commits,
        partings]
  · have asked := asked_of_wrapUp t (.ok ())
    rw [wrapped] at asked
    rcases asked with ⟨e, failed⟩ | ⟨reason, stopped⟩
    · exact absurd failed (fine e)
    · exact absurd stopped (unasked reason)

/-- Kin loop in the same way. -/
theorem loop {fuel : Nat} {cap : Option Nat} {outcome : Outcome} {way : Option Nat × List Change}
    (looped : Simulation.loop B fuel s cap = .ok (s', .ok outcome))
    (unasked : ∀ reason, outcome ≠ .finished (.requested reason))
    (single : OneWriter ((roundsOf B fuel ledger way s cap).flatMap Round.turns)) :
    ∃ enough s₁' ledger' r',
      (∀ more ≥ enough, Simulation.loop B more s₁ cap = .ok (s₁', .ok outcome) ∧
        ∀ id, changesOf id (loopCommits B more s₁ cap) =
          changesOf id (loopCommits B fuel s cap)) ∧
      Kin ledger' r' s' s₁' := by
  induction fuel generalizing s s₁ ledger r way with
  | zero => cases looped
  | succ fuel ih =>
      rw [Simulation.loop] at looped
      cases turned : s.cycle B (fuel + 1) cap with
      | error stuck => simp [turned] at looped
      | ok turn =>
          obtain ⟨t, verdict⟩ := turn
          simp only [turned] at looped
          have fine : ∀ e, verdict ≠ .ended (.error e) := by
            rintro e rfl
            cases looped
          have unasked' : ∀ reason, verdict ≠ .ended (.ok (.finished (.requested reason))) := by
            rintro reason rfl
            cases looped
            exact unasked reason rfl
          obtain ⟨m, u, committed, ran, -⟩ := round_of_cycle turned fine
          have played : s.playRound B (fuel + 1) ledger way =
              some (⟨s.kernel.now, way.1, way.2 ++ s.commits, m.turns B (fuel + 1) ledger⟩, u,
                .ok ()) := by
            simp only [playRound, committed, ran]
          simp only [roundsOf, played, turned, List.flatMap_cons] at single
          have first : OneWriter (m.turns B (fuel + 1) ledger) :=
            single.mono fun turn listed => List.mem_append_left _ listed
          obtain ⟨enough, t₁, r', turned₁, kin₁⟩ :=
            kin.cycle turned fine unasked' (by rw [committed]; exact first)
          rw [committed] at kin₁
          cases verdict with
          | ended result =>
              cases looped
              refine ⟨enough + 1, t₁, _, r', fun more le => ?_, kin₁⟩
              obtain ⟨more, rfl⟩ := Nat.exists_eq_add_of_lt (Nat.lt_of_succ_le le)
              obtain ⟨turned₁, same⟩ := turned₁ (enough + more + 1) (by omega)
              rw [Simulation.loop, loopCommits, loopCommits, turned, turned₁]
              refine ⟨rfl, fun id => ?_⟩
              rw [changesOf_append, changesOf_append, same]
          | again =>
              obtain ⟨enough', s₁', ledger', r'', looped₁, kin₂⟩ := ih kin₁ looped
                (single.mono fun turn listed => List.mem_append_right _ listed)
              refine ⟨enough + enough' + 1, s₁', ledger', r'', fun more le => ?_, kin₂⟩
              obtain ⟨more, rfl⟩ := Nat.exists_eq_add_of_lt (Nat.lt_of_succ_le le)
              obtain ⟨turned₁, same⟩ := turned₁ (enough + enough' + more + 1) (by omega)
              obtain ⟨looped₁, later⟩ := looped₁ (enough + enough' + more) (by omega)
              rw [Simulation.loop, loopCommits, loopCommits, turned, turned₁]
              refine ⟨looped₁, fun id => ?_⟩
              rw [changesOf_append, changesOf_append, same, later]

end Kin

end DeltaCycle
