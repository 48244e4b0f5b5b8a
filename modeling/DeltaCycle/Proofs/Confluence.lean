import DeltaCycle.Proofs.Crossing
import DeltaCycle.Proofs.Footprints

/-!
# Confluence of a round

Where no two waiters touch the proposed value of the same signal, the waiters that are ready may
be resumed in any order: whatever is resumed first, the same turns are taken, and the round ends
with the same roster and with kernels that are alike.
-/

set_option autoImplicit false

namespace DeltaCycle

open Roster Kernel

variable {σ : Type}

/-- No two waiters touch the proposed value of the same signal. -/
def OneWriter (turns : List (Turn σ)) : Prop :=
  ∀ u ∈ turns, ∀ v ∈ turns, u.tag.name ≠ v.tag.name → ∀ id ∈ u.touched, id ∉ v.touched

theorem OneWriter.mono {turns fewer : List (Turn σ)} (single : OneWriter turns)
    (subset : ∀ turn ∈ fewer, turn ∈ turns) : OneWriter fewer :=
  fun u listed v listed' => single u (subset u listed) v (subset v listed')

/-- A waiter takes a turn: its body does in the kernel what the turn says. -/
structure Performs (B : Behaviours σ Unit) (r : Roster σ) (k : Kernel) (turn : Turn σ)
    (k' : Kernel) : Prop where
  takes : r.Takes turn
  acts : ∃ body done, r.seat turn.tag.name = .alive turn.tag.count (some body) ∧
    Simulation.act B k () [] body = some (done, k', ()) ∧ turn.deed = done.deed k ∧
    turn.touched = Simulation.touched B k () body
  running : k'.stopRequest = none

/-- Waiters take turns one after the other. -/
inductive Enacts (B : Behaviours σ Unit) :
    Roster σ → Kernel → List (Turn σ) → Roster σ → Kernel → Prop where
  | nil (r : Roster σ) (k : Kernel) : Enacts B r k [] r k
  | cons {r r' : Roster σ} {k m k' : Kernel} {turn : Turn σ} {rest : List (Turn σ)}
      (performs : Performs B r k turn m)
      (enacts : Enacts B (r.turn k.now turn.tag turn.deed) m rest r' k') :
      Enacts B r k (turn :: rest) r' k'

variable {B : Behaviours σ Unit}

namespace Performs

variable {r : Roster σ} {k k' : Kernel} {turn : Turn σ} (performs : Performs B r k turn k')

include performs

theorem committed : k'.committed = k.committed := by
  obtain ⟨body, done, -, acted, -⟩ := performs.acts
  exact (Simulation.edits_act acted).committed

theorem running_before : k.stopRequest = none := by
  obtain ⟨body, done, -, acted, -⟩ := performs.acts
  exact (Simulation.edits_act acted).running performs.running

/-- A turn is taken in the same way in every kernel that agrees on what it touches. -/
theorem frame {k₁ : Kernel} (agree : AgreesOn turn.touched k k₁) :
    ∃ (f : Footprint) (k₁' : Kernel), f.touched = turn.touched ∧ f.Leads k k' ∧ f.Leads k₁ k₁' ∧
      Performs B r k₁ turn k₁' := by
  obtain ⟨body, done, alive, acted, deed, touched⟩ := performs.acts
  rw [touched] at agree ⊢
  obtain ⟨f, k₁', reach, leads, leads₁, acted₁, touched₁⟩ :=
    Simulation.act_frame acted performs.running agree
  refine ⟨f, k₁', reach, leads, leads₁, performs.takes, ⟨body, done, alive, acted₁, ?_, ?_⟩, ?_⟩
  · rw [deed, Act.deed_of_committed agree.committed]
  · rw [touched, touched₁]
  · exact leads₁.stopRequest.trans agree.running'

theorem alike {k₁ : Kernel} (alike : Alike k k₁) : ∃ k₁', Performs B r k₁ turn k₁' ∧ Alike k' k₁' := by
  obtain ⟨f, k₁', -, leads, leads₁, performs₁⟩ :=
    performs.frame (alike.agreesOn performs.running_before turn.touched)
  exact ⟨k₁', performs₁, leads.alike leads₁ alike⟩

/-- Where a waiter stands and what the kernel holds determine its turn. -/
theorem unique {turn' : Turn σ} {k'' : Kernel} (performs' : Performs B r k turn' k'')
    (same : turn'.tag = turn.tag) : turn' = turn ∧ k'' = k' := by
  obtain ⟨body, done, alive, acted, deed, touched⟩ := performs.acts
  obtain ⟨body', done', alive', acted', deed', touched'⟩ := performs'.acts
  rw [same, alive] at alive'
  cases alive'
  rw [acted] at acted'
  cases acted'
  obtain ⟨tag, d, t⟩ := turn
  obtain ⟨tag', d', t'⟩ := turn'
  dsimp only at same deed deed' touched touched'
  subst same deed deed' touched touched'
  exact ⟨rfl, rfl⟩

/-- The same waiter takes the same turn where the roster differs elsewhere. -/
theorem of_takes {r' : Roster σ} (takes : r'.Takes turn)
    (same : r'.seat turn.tag.name = r.seat turn.tag.name) : Performs B r' k turn k' := by
  obtain ⟨body, done, alive, acts⟩ := performs.acts
  exact ⟨takes, ⟨body, done, same.trans alive, acts⟩, performs.running⟩

/-- Turns of different waiters that touch different signals can be taken in either order. -/
theorem swap {next : Turn σ} {k'' : Kernel} (lineal : r.Lineal)
    (second : Performs B (r.turn k.now turn.tag turn.deed) k' next k'') (takes : r.Takes next)
    (apart : turn.tag.name ≠ next.tag.name)
    (disjoint : ∀ id ∈ turn.touched, id ∉ next.touched) :
    ∃ m k₁, Performs B r k next m ∧ Performs B (r.turn k.now next.tag next.deed) m turn k₁ ∧
      Alike k'' k₁ := by
  have both : Both r turn next := ⟨lineal, performs.takes, takes, apart⟩
  have running := performs.running_before
  obtain ⟨body, alive, -⟩ := performs.takes.alive
  obtain ⟨body', alive', -⟩ := takes.alive
  have stays := (lineal.stays performs.takes k.now alive' apart.symm).1
  have stays' := (lineal.stays takes k.now alive apart).1
  -- what the first turn leaves behind does not matter to the second one
  obtain ⟨f, -, reach, leads, -, -⟩ :=
    performs.frame ((Alike.refl k).agreesOn running turn.touched)
  have agree : AgreesOn next.touched k' k := by
    refine ⟨performs.committed.symm, performs.running, running, fun id listed => ?_⟩
    refine (leads.outside id fun inside => ?_).symm
    rw [reach] at inside
    exact disjoint id inside listed
  obtain ⟨g, m, reach', later, earlier, moved⟩ := second.frame agree
  have first : Performs B r k next m := moved.of_takes takes (alive'.trans stays.symm)
  -- nor does what the second one leaves behind matter to the first one
  have agree' : AgreesOn turn.touched k m := by
    refine ⟨first.committed, running, first.running, fun id listed => ?_⟩
    refine earlier.outside id fun inside => ?_
    rw [reach'] at inside
    exact disjoint id listed inside
  obtain ⟨h, k₁, reach'', leads', leads₁, moved'⟩ := performs.frame agree'
  refine ⟨m, k₁, first, moved'.of_takes (both.symm.takes k.now) (stays'.trans alive.symm), ?_, ?_,
    fun id => ?_, ?_⟩
  · rw [leads₁.committed, earlier.committed, later.committed, leads'.committed]
  · rw [leads₁.stopRequest, earlier.stopRequest, later.stopRequest, leads'.stopRequest]
  · by_cases inside : id ∈ turn.touched
    · have outside : id ∉ g.touched := by
        rw [reach']
        exact disjoint id inside
      rw [later.outside id outside, leads₁.inside id (by rwa [reach'']),
        leads'.inside id (by rwa [reach''])]
    · rw [leads₁.outside id (by rwa [reach''])]
      by_cases inside' : id ∈ g.touched
      · rw [later.inside id inside', earlier.inside id inside']
      · rw [later.outside id inside', earlier.outside id inside',
          leads'.outside id (by rwa [reach''])]
  · rw [leads₁.pending, earlier.pending, later.pending, leads'.pending, ← List.append_assoc,
      ← List.append_assoc]
    exact List.perm_append_comm.append_right _

end Performs

namespace Enacts

variable {r r' : Roster σ} {k k' : Kernel} {turns : List (Turn σ)}

theorem alike (enacts : Enacts B r k turns r' k') {k₁ : Kernel} (alike : Alike k k₁) :
    ∃ k₁', Enacts B r k₁ turns r' k₁' ∧ Alike k' k₁' := by
  induction enacts generalizing k₁ with
  | nil r k => exact ⟨k₁, .nil r k₁, alike⟩
  | cons performs _ ih =>
      obtain ⟨m₁, performs₁, alike₁⟩ := performs.alike alike
      obtain ⟨k₁', enacts₁, alike'⟩ := ih alike₁
      rw [← now_of_committed alike.committed] at enacts₁
      exact ⟨k₁', .cons performs₁ enacts₁, alike'⟩

/-- In a round that comes to its end, every waiter that is ready at the beginning takes a turn, and
it may take it before all others. -/
theorem pull (enacts : Enacts B r k turns r' k') (quiet : r'.Quiet) (lineal : r.Lineal)
    (single : OneWriter turns) {tag : Tag} {body : Body σ}
    (alive : r.seat tag.name = .alive tag.count (some body)) (fired : r.fired tag = true) :
    ∃ turn rest k₁, turn.tag = tag ∧ turns.Perm (turn :: rest) ∧
      Enacts B r k (turn :: rest) r' k₁ ∧ Alike k' k₁ := by
  induction enacts with
  | nil r k =>
      rw [quiet tag ⟨_, alive⟩] at fired
      cases fired
  | @cons r r' k m k' first rest performs enacts ih =>
      by_cases here : first.tag = tag
      · exact ⟨first, rest, k', here, .refl _, .cons performs enacts, .refl k'⟩
      · have other : tag.name ≠ first.tag.name := by
          intro same
          obtain ⟨body', alive', -⟩ := performs.takes.alive
          exact here (eq_of_alive alive' alive same.symm)
        obtain ⟨alive', fires⟩ := lineal.stays performs.takes k.now alive other
        obtain ⟨turn, rest', k₁, own, perm, enacts', alike⟩ := ih quiet
          (lineal.turn performs.takes k.now)
          (single.mono fun turn => List.mem_cons_of_mem first) alive' (fires fired)
        subst own
        obtain ⟨m', second, others⟩ : ∃ m',
            Performs B (r.turn k.now first.tag first.deed) m turn m' ∧
            Enacts B ((r.turn k.now first.tag first.deed).turn m.now turn.tag turn.deed) m' rest'
              r' k₁ := by
          cases enacts' with
          | cons second others => exact ⟨_, second, others⟩
        have listed : turn ∈ rest := perm.mem_iff.mpr (List.mem_cons_self ..)
        have takes : r.Takes turn := by
          obtain ⟨⟨body', alive'', follows⟩, -⟩ := second.takes
          rw [alive'] at alive''
          cases alive''
          exact ⟨⟨body, alive, follows⟩, fired⟩
        obtain ⟨m₁, k₂, performs₁, second₁, alike₁⟩ := performs.swap lineal second takes other.symm
          (single first (List.mem_cons_self ..) turn (List.mem_cons_of_mem _ listed) other.symm)
        obtain ⟨k₃, others₁, alike₂⟩ := others.alike alike₁
        have now : m.now = k.now := now_of_committed performs.committed
        have now₁ : m₁.now = k.now := now_of_committed performs₁.committed
        have both : Both r first turn := ⟨lineal, performs.takes, takes, other.symm⟩
        rw [now, both.turn_comm] at others₁
        refine ⟨turn, first :: rest', k₃, rfl, ?_, .cons performs₁ (.cons second₁ ?_),
          alike.trans alike₂⟩
        · exact (perm.cons first).trans (.swap ..)
        · rw [now₁]
          exact others₁

theorem running (enacts : Enacts B r k turns r' k') (running : k'.stopRequest = none) :
    k.stopRequest = none := by
  cases enacts with
  | nil => exact running
  | cons performs _ => exact performs.running_before

end Enacts

/-! ## Resuming waiters -/

theorem Kernel.alike_modify (k : Kernel) (id : SignalId) {f : Signal → Signal}
    (committed : ∀ s, (f s).committed = s.committed) (next : ∀ s, (f s).next = s.next) :
    Alike k (k.modify id f) := by
  refine ⟨committed_modify k id committed, rfl, fun id' => ?_, .refl _⟩
  unfold proposed?
  rw [signal?_modify]
  split
  · rw [Option.map_map]
    exact congrArg (Option.map · (k.signal? id')) (funext next)
  · rfl

namespace Simulation

variable {ω : Type}

theorem alike_armOn (B : Behaviours σ ω) (s : Simulation σ ω) (me : Arming)
    (alternative : Alternative σ) : Alike s.kernel (s.armOn B me alternative).1.kernel := by
  cases alternative with
  | trigger t =>
      simp only [armOn, watch]
      cases s.kernel.signal? t.signal with
      | none => exact .refl _
      | some signal => exact alike_modify s.kernel t.signal (fun _ => rfl) fun _ => rfl
  | delay ticks =>
      simp only [armOn, wakeAfter]
      cases s.after ticks <;> exact .refl _
  | noop => exact .refl _
  | spawn child => exact .refl _
  | join clauses =>
      simp only [armOn, kernel_foldl_addBranch]
      exact .refl _
  | refused e => exact .refl _

theorem alike_armOnAll (B : Behaviours σ ω) (s : Simulation σ ω) (me : Arming)
    (alternatives : List (Alternative σ)) :
    Alike s.kernel (s.armOnAll B me alternatives).1.kernel :=
  armOnAll_induction (P := fun t => Alike s.kernel t.kernel) (.refl _) fun t alternative _ alike =>
    alike.trans (alike_armOn B t me alternative)

/-- What the books make of an act makes no difference to those who run. -/
theorem alike_settle (B : Behaviours σ ω) (s : Simulation σ ω) (me : Arming) (done : Act σ) :
    Alike s.kernel (s.settle B me done).1.kernel := by
  cases done with
  | completes =>
      simp only [settle, kernel_complete]
      exact .refl _
  | fails e => exact ⟨rfl, rfl, fun _ => rfl, .refl _⟩
  | waits body alternatives =>
      exact rearm_induction (P := fun t => Alike s.kernel t.kernel) (.refl _)
        (fun t alike => alike.trans (alike_armOnAll B t me alternatives))
        fun t e alike => alike.trans ⟨rfl, rfl, fun _ => rfl, .refl _⟩

theorem alike_runWaiter {B : Behaviours σ ω} {s : Simulation σ ω} {a me : Arming} {body : Body σ}
    {stale : List SignalId} {waiters : WaiterTable (Body σ)} {done : Act σ} {k : Kernel} {w : ω}
    (claimed : s.waiters.consume a = (some (me, body, stale), waiters)) (known : s.OutputsKnown)
    (acted : act B s.kernel s.world s.outputs body = some (done, k, w)) :
    ∃ s' result, runWaiter B s a = some (s', result) ∧ Alike k s'.kernel := by
  have ran := runWaiter_eq (B := B) claimed known
  rw [acted, Option.map_some] at ran
  have settled (s' : Simulation σ ω) (same : s'.kernel = k) :
      Alike k (s'.settle B me done).1.kernel := by
    subst same
    exact alike_settle B s' me done
  refine ⟨_, _, ran, settled _ ?_⟩
  rfl

theorem link_of_runWaiter {B : Behaviours σ ω} {s s' : Simulation σ ω} {a : Arming}
    {result : Except SimError Unit} (alone : s.link = none)
    (ran : runWaiter B s a = some (s', result)) : s'.link = none := by
  have links := congrArg Surroundings.link (surroundings_runWaiter ran)
  change s'.link.map _ = s.link.map _ at links
  rwa [alone, Option.map_none, Option.map_eq_none_iff] at links

theorem outputs_of_alone {s : Simulation σ ω} (alone : s.link = none) : s.outputs = [] := by
  rw [outputs, alone]

theorem known_of_alone {s : Simulation σ ω} (alone : s.link = none) : s.OutputsKnown := by
  intro id output
  rw [outputs_of_alone alone] at output
  cases output

end Simulation

open Simulation

namespace Tracks

variable {ledger : List Tag} {s s' : Simulation σ Unit} {marks : Marks} {r : Roster σ}
  (h : Tracks ledger s marks r)

include h

/-- To resume a waiter is to perform its turn. -/
theorem performs {a : Arming} {ready : Fifo Arming} {turn : Turn σ}
    {result : Except SimError Unit} (alone : s.link = none)
    (popped : s.ready.pop? = some (a, ready)) (takes : r.Takes turn)
    (taken : s.turnOf? B ledger a = some turn)
    (ran : runWaiter B { s with ready } a = some (s', result))
    (running : s'.kernel.stopRequest = none) :
    ∃ k', Performs B r s.kernel turn k' ∧ Alike k' s'.kernel := by
  obtain ⟨me, body, stale, done, k, w, claimed, alive, acted, deed, touched⟩ :=
    h.acts popped takes taken
  have claim : s.waiters.consume a = (some (me, body, stale), (s.waiters.consume a).2) :=
    Prod.ext claimed rfl
  obtain ⟨s₁, result₁, ran₁, alike⟩ :=
    alike_runWaiter (s := { s with ready }) claim (known_of_alone alone) acted
  cases ran.symm.trans ran₁
  rw [outputs_of_alone alone] at acted
  exact ⟨k, ⟨takes, ⟨body, done, alive, acted, deed, touched⟩,
    alike.stopRequest.symm.trans running⟩, alike⟩

/-- The turn of an arming goes by the name of the arming. -/
theorem tag_of_taken {a : Arming} {tag : Tag} {turn : Turn σ}
    (tagged : marks.tag a = some tag) (taken : s.turnOf? B ledger a = some turn) :
    turn.tag = tag := by
  unfold turnOf? at taken
  cases claimed : (s.waiters.consume a).1 with
  | none => simp [claimed] at taken
  | some claim =>
      obtain ⟨me, body, stale⟩ := claim
      simp only [claimed, Option.map_eq_some_iff] at taken
      obtain ⟨-, -, rfl⟩ := taken
      dsimp only
      rw [(h.seats.entered tagged).2.1]
      rfl

/-- A round of resumes enacts its turns. -/
theorem enacts {fuel : Nat} {failure failure' : Except SimError Unit} (rested : r.Rested)
    (alone : s.link = none) (ran : Simulation.runReady B fuel s failure = .ok (s', failure'))
    (running : s'.kernel.stopRequest = none) :
    ∃ marks' r' k', Tracks (ledger ++ (s.turns B fuel ledger).flatMap Turn.issues) s' marks' r' ∧
      Enacts B r s.kernel (s.turns B fuel ledger) r' k' ∧ Alike k' s'.kernel ∧ r'.Quiet := by
  replace ran := way_of_runReady ran
  induction ran generalizing ledger marks r with
  | idle idle =>
      rw [turns_of_idle idle, List.flatMap_nil, List.append_nil]
      exact ⟨marks, r, _, h, .nil r _, .refl _, h.quiet idle⟩
  | @resumed fuel s s₁ _ _ a ready popped resumed further ih =>
      have alone₁ := link_of_runWaiter (s := { s with ready }) alone resumed
      rcases h.resume rested (known_of_alone alone) popped resumed with
        ⟨skipped, stale, -, tracks⟩ | ⟨turn, marks₁, taken, -, takes, -, tracks⟩
      · rw [turns_of_skipped popped resumed skipped]
        cases (runWaiter_of_stale B (s := { s with ready }) stale).symm.trans resumed
        exact ih tracks rested alone₁
      · obtain ⟨marks', r', k', tracks', enacts, alike, quiet⟩ :=
          ih tracks (rested.turn _ _ _) alone₁
        have running₁ := enacts.running (alike.stopRequest.symm.trans running)
        obtain ⟨k₁, performs, same⟩ := h.performs alone popped takes taken resumed running₁
        obtain ⟨k'', enacts', alike'⟩ := enacts.alike same.symm
        rw [turns_of_taken popped resumed taken, List.flatMap_cons, ← List.append_assoc]
        exact ⟨marks', r', k'', tracks', .cons performs enacts', alike'.symm.trans alike, quiet⟩

/-- Stale armings at the front of what is ready are passed over. -/
theorem skip (B : Behaviours σ Unit) :
    ∃ stale s₁, (∀ fuel failure, Simulation.runReady B (stale + fuel) s failure =
        Simulation.runReady B fuel s₁ failure) ∧
      (∀ fuel ledger, s.turns B (stale + fuel) ledger = s₁.turns B fuel ledger) ∧
      Tracks ledger s₁ marks r ∧ s₁.kernel = s.kernel ∧ s₁.link = s.link ∧
      (s₁.ready.pop? = none ∨ ∃ a ready tag, s₁.ready.pop? = some (a, ready) ∧
        marks.tag a = some tag ∧ Current r.seat tag ∧ r.fired tag = true) := by
  induction listed : s.ready.toList generalizing s with
  | nil =>
      refine ⟨0, s, fun fuel failure => ?_, fun fuel ledger => ?_, h, rfl, rfl,
        .inl (Fifo.pop?_eq_none_iff.mpr listed)⟩ <;> rw [Nat.zero_add]
  | cons first rest ih =>
      cases popped : s.ready.pop? with
      | none =>
          rw [Fifo.pop?_eq_none_iff.mp popped] at listed
          cases listed
      | some next =>
          obtain ⟨a, ready⟩ := next
          obtain ⟨tag, tagged, fires, skipped⟩ := h.pop popped
          by_cases current : Current r.seat tag
          · refine ⟨0, s, fun fuel failure => ?_, fun fuel ledger => ?_, h, rfl, rfl,
              .inr ⟨a, ready, tag, popped, tagged, current, fires current⟩⟩ <;> rw [Nat.zero_add]
          · have stale : s.waiters.isLive a = false :=
              Bool.eq_false_iff.mpr fun live => current ((h.seats.live_iff tagged).mp live)
            have claimed := WaiterTable.consume_of_stale stale
            have passed : runWaiter B { s with ready } a = some ({ s with ready }, .ok ()) := by
              rw [runWaiter, claimed]
            have shorter : ({ s with ready } : Simulation σ Unit).ready.toList = rest := by
              rw [Fifo.toList_of_pop? popped] at listed
              exact (List.cons.inj listed).2
            obtain ⟨stale', s₁, runs, taken, tracks, kernel, link, front⟩ :=
              ih (skipped current) shorter
            refine ⟨stale' + 1, s₁, fun fuel failure => ?_, fun fuel ledger => ?_, tracks, kernel,
              link, front⟩
            · have kept : firstError failure (.ok ()) = failure := by
                obtain e | ⟨⟩ := failure <;> rfl
              rw [Nat.add_right_comm, runReady_succ popped passed, kept, runs]
            · have nobody : s.turnOf? B ledger a = none := by rw [turnOf?, claimed]
              rw [Nat.add_right_comm, turns_of_skipped popped passed nobody]
              exact taken fuel ledger

end Tracks

/-- Whatever simulation the roster tracks takes the turns of a round in some order, and ends it in
the same way. -/
theorem Enacts.rerun {turns : List (Turn σ)} {r r' : Roster σ} {k k' : Kernel}
    (enacts : Enacts B r k turns r' k') (quiet : r'.Quiet) (lineal : r.Lineal)
    (rested : r.Rested) (single : OneWriter turns) {ledger : List Tag} {s : Simulation σ Unit}
    {marks : Marks} (h : Tracks ledger s marks r) (alone : s.link = none)
    (alike : Alike k s.kernel) (failure : Except SimError Unit) :
    ∃ fuel s' failure' ledger' marks', Simulation.runReady B fuel s failure = .ok (s', failure') ∧
      (s.turns B fuel ledger).Perm turns ∧ Tracks ledger' s' marks' r' ∧ Alike k' s'.kernel := by
  induction size : turns.length generalizing turns r k k' ledger s marks failure with
  | zero =>
      obtain rfl := List.length_eq_zero_iff.mp size
      cases enacts
      obtain ⟨stale, s₁, runs, taken, tracks, kernel, -, idle | front⟩ := h.skip B
      · refine ⟨stale + 1, s₁, failure, ledger, marks, ?_, ?_, tracks, by rwa [kernel]⟩
        · rw [runs, Simulation.runReady, idle]
        · rw [taken, Simulation.turns_of_idle idle]
      · obtain ⟨a, ready, tag, -, -, current, fired⟩ := front
        rw [quiet tag current] at fired
        cases fired
  | succ n ih =>
      obtain ⟨stale, s₁, runs, taken, tracks, kernel, link, idle | front⟩ := h.skip B
      · cases enacts with
        | nil => cases size
        | cons performs _ =>
            obtain ⟨⟨body, alive, -⟩, fired⟩ := performs.takes
            rw [tracks.quiet idle _ ⟨_, alive⟩] at fired
            cases fired
      · obtain ⟨a, ready, tag, popped, tagged, ⟨_ | body, alive⟩, fired⟩ := front
        · exact absurd alive (rested _ _)
        obtain ⟨turn, rest, k₁, rfl, perm, enacts', alike'⟩ :=
          enacts.pull quiet lineal single alive fired
        have length : rest.length = n := by
          rw [perm.length_eq, List.length_cons, Nat.add_right_cancel_iff] at size
          exact size
        obtain ⟨m, performs, others⟩ : ∃ m, Performs B r k turn m ∧
            Enacts B (r.turn k.now turn.tag turn.deed) m rest r' k₁ := by
          cases enacts' with
          | cons performs others => exact ⟨_, performs, others⟩
        rw [← kernel] at alike
        obtain ⟨m₁, performs₁, alike₁⟩ := performs.alike alike
        obtain ⟨body', done, alive', acted, -⟩ := performs₁.acts
        cases alive.symm.trans alive'
        -- the simulation resumes the waiter of that turn
        have alone₁ : s₁.link = none := link.trans alone
        obtain ⟨stale', waiters, marks₁, claimed, -⟩ := tracks.claim popped tagged alive
        rw [← outputs_of_alone alone₁] at acted
        obtain ⟨s₂, result, ran, alike₂⟩ :=
          alike_runWaiter (s := { s₁ with ready }) claimed (known_of_alone alone₁) acted
        have running := alike₂.stopRequest.trans performs₁.running
        rcases tracks.resume rested (known_of_alone alone₁) popped ran with
          ⟨-, skipped, -, -⟩ | ⟨turn', marks', resumed, -, takes, -, tracks'⟩
        · rw [claimed] at skipped
          cases skipped
        · obtain ⟨k₂, performs₂, -⟩ := tracks.performs alone₁ popped takes resumed ran running
          obtain ⟨rfl, -⟩ := performs₁.unique performs₂ (tracks.tag_of_taken tagged resumed)
          rw [now_of_committed alike.committed] at tracks'
          obtain ⟨fuel, s', failure', ledger', marks'', ran', perm', tracks'', alike₃⟩ :=
            ih others (lineal.turn performs.takes k.now) (rested.turn _ _ _)
              (single.mono fun turn listed => perm.mem_iff.mpr (List.mem_cons_of_mem _ listed))
              tracks' (link_of_runWaiter (s := { s₁ with ready }) alone₁ ran)
              (alike₁.trans alike₂) (firstError failure result) length
          refine ⟨stale + (fuel + 1), s', failure', ledger', marks'', ?_, ?_, tracks'',
            alike'.trans alike₃⟩
          · rw [runs, runReady_succ popped ran]
            exact ran'
          · rw [taken, Simulation.turns_of_taken popped ran resumed]
            exact (perm'.cons turn').trans perm.symm

end DeltaCycle
