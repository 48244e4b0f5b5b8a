import DeltaCycle.Proofs.Arming
import DeltaCycle.Proofs.Rest

/-!
# Turns

A turn of a waiter is one resume of it. What is made of a turn in the books is what the roster
makes of it, and so the roster keeps tracking the simulation while a round resumes the waiters
that are ready.
-/

set_option autoImplicit false

namespace DeltaCycle

open Roster

variable {σ ω : Type}

theorem Kernel.Edits.watchers {k k' : Kernel} (edits : Kernel.Edits k k') :
    k'.watchers = k.watchers := by
  induction edits with
  | refl => rfl
  | mark _ id ih => exact ih
  | propose _ id next ih =>
      exact (Kernel.watchers_modify _ id (f := fun s => { s with next }) fun _ _ => rfl).trans ih
  | finish _ reason ih => exact ih
  | emit _ other ih => exact ih

theorem Roster.current_of_drop {seat : Name → Seat σ} (name : Name) {tag : Tag}
    (current : Current (Function.update seat name .gone) tag) : Current seat tag := by
  obtain ⟨body, alive⟩ := current
  by_cases same : tag.name = name
  · rw [same, Function.update_self] at alive
    cases alive
  · rw [Function.update_of_ne same] at alive
    exact ⟨body, alive⟩

theorem Roster.settleGroup_of_last {r : Roster σ} {group : Group} {index : Nat}
    (last : (r.outstanding group).erase index = []) :
    r.settleGroup group index =
      { r with
        outstanding := Function.update r.outstanding group []
        fired := Function.update r.fired group.caller true } := by
  simp only [settleGroup, last, if_true, notify]

theorem Roster.settleGroup_of_more {r : Roster σ} {group : Group} {index : Nat}
    (more : (r.outstanding group).erase index ≠ []) :
    r.settleGroup group index =
      { r with
        outstanding :=
          Function.update r.outstanding group ((r.outstanding group).erase index) } := by
  simp only [settleGroup, more, if_false]

namespace Tracks

variable {B : Behaviours σ ω} {ledger : List Tag} {s : Simulation σ ω} {marks : Marks}
  {r : Roster σ} (h : Tracks ledger s marks r)

include h

/-! ## Leaving -/

theorem drop {slot : Nat} {waiter : Waiter (Body σ)} {tag : Tag}
    (found : s.waiters.waiter? slot = some waiter)
    (tagged : marks.tag ⟨slot, waiter.token⟩ = some tag) (e : SimError) :
    Tracks ledger (s.drop slot e) marks (r.drop tag.name) :=
  ⟨h.seats.drop found tagged, h.marked.mono fun _ => current_of_drop _,
    h.watched.mono (fun _ => current_of_drop _) fun _ => id, h.awaited⟩

theorem complete {slot : Nat} {waiter : Waiter (Body σ)} {tag : Tag}
    (found : s.waiters.waiter? slot = some waiter)
    (tagged : marks.tag ⟨slot, waiter.token⟩ = some tag) :
    Tracks ledger (s.complete slot) marks (r.complete tag.name) := by
  obtain ⟨alive, owes⟩ := h.seats.alive_of_found found tagged
  have seats := h.seats.drop found tagged
  have marked := h.marked.mono fun _ => current_of_drop tag.name
  have watched := h.watched.mono (fun _ => current_of_drop tag.name) fun _ => id
  have left : ∀ count body, Function.update r.seat tag.name .gone tag.name ≠ .alive count body := by
    intro count body alive
    rw [Function.update_self] at alive
    cases alive
  obtain ⟨name, count⟩ := tag
  have removed : s.waiters.remove slot = (waiter.parent, (s.waiters.remove slot).2) :=
    Prod.ext (WaiterTable.remove_fst found) rfl
  have joins := funext fun key => WaiterTable.join?_remove s.waiters slot key
  unfold Simulation.complete
  rw [removed]
  dsimp only at tagged alive seats marked watched left ⊢
  generalize waiter.parent = parent at owes
  cases owes with
  | nobody => exact ⟨seats, marked, watched, h.awaited⟩
  | @caller group index caller tagged' only =>
      have last : ((r.drop (group.member index)).outstanding group).erase index = [] := by
        rw [show (r.drop (group.member index)).outstanding group = [index] from only,
          List.erase_cons_head]
      change Tracks ledger (s.release (some caller, (s.waiters.remove slot).2)) marks
        ((r.drop (group.member index)).settleGroup group index)
      rw [settleGroup_of_last last]
      have marked' := marked.notify seats.injective tagged'
      rw [← Fifo.toList_push] at marked'
      exact ⟨seats.settle_caller only left, marked', watched.notify group.caller, h.awaited⟩
  | @join group index key open_ assigned found' tagged' counted listed =>
      rw [← joins] at found'
      obtain ⟨settled, given⟩ := seats.settle_join assigned found' counted listed left
      change Tracks ledger (s.release ((s.waiters.remove slot).2.completeBranch key)) marks
        ((r.drop (group.member index)).settleGroup group index)
      generalize (s.waiters.remove slot).2.completeBranch key = result at settled given
      obtain ⟨caller, waiters⟩ := result
      dsimp only at settled given
      subst given
      by_cases last : (r.outstanding group).erase index = []
      · rw [settleGroup_of_last (r := r.drop (group.member index)) last, if_pos last]
        rw [last] at settled
        have marked' := marked.notify seats.injective tagged'
        rw [← Fifo.toList_push] at marked'
        exact ⟨settled, marked', watched.notify group.caller, h.awaited⟩
      · rw [settleGroup_of_more (r := r.drop (group.member index)) last, if_neg last]
        exact ⟨settled, marked, watched, h.awaited⟩

/-! ## Resuming -/

/-- An arming that is current and ready is taken, and its waiter begins to run. -/
theorem claim {a : Arming} {ready : Fifo Arming} {tag : Tag} {body : Body σ}
    (popped : s.ready.pop? = some (a, ready)) (tagged : marks.tag a = some tag)
    (alive : r.seat tag.name = .alive tag.count (some body)) :
    ∃ stale waiters marks',
      s.waiters.consume a = (some (⟨a.slot, s.waiters.lastToken + 1⟩, body, stale), waiters) ∧
      Tracks (ledger ++ [tag.next]) { s with ready, waiters } marks' (r.claim tag) ∧
      Armed marks' (r.claim tag) ⟨a.slot, s.waiters.lastToken + 1⟩ tag.next 0 := by
  obtain ⟨waiter, found, token, present⟩ := h.seats.found_of_alive tagged alive
  have tagged' : marks.tag ⟨a.slot, waiter.token⟩ = some tag := by
    rw [token]
    exact tagged
  have bound := h.seats.token_le tagged
  have fresh : marks.tag ⟨a.slot, s.waiters.lastToken + 1⟩ = none := h.seats.tag_of_fresh
  have beyond : ¬Known r.seat tag.next := fun known =>
    absurd (known.2 _ _ alive) (Nat.not_succ_le_self _)
  have unknown : ∀ a', marks.tag a' ≠ some tag.next := fun a' tagged =>
    beyond (h.seats.entered tagged).2.2
  have fewer : ∀ tag', tag' ≠ tag.next →
      Current (Function.update r.seat tag.name (.alive (tag.count + 1) none)) tag' →
      Current r.seat tag' :=
    fun _ other current => current_of_update _ current other
  have unmade (p : Nat) : Unmade r.seat ⟨tag.next, p⟩ := fun index =>
    Classical.byContradiction fun born => beyond (h.seats.lineage _ index born)
  refine ⟨_, _, marks.issue ⟨a.slot, s.waiters.lastToken + 1⟩ tag.next,
    WaiterTable.consume_of_live found token present,
    ⟨h.seats.claim found tagged', ?_, h.watched.issue fresh unknown fewer false,
      h.awaited.extend h.seats.tag_issue⟩,
    Marks.tag_issue_self .., ⟨none, Function.update_self ..⟩, Function.update_self ..,
    fun p _ index => ?_, fun p _ key assigned => beyond (h.seats.groups assigned)⟩
  · have marked := h.marked
    rw [Fifo.toList_of_pop? popped] at marked
    refine (marked.issue fresh unknown fewer false).skip fun tag' tagged' current => ?_
    have other : a ≠ ⟨a.slot, s.waiters.lastToken + 1⟩ := by
      intro same
      have tokens := congrArg Arming.token same
      dsimp only at tokens
      omega
    rw [Function.update_of_ne other, tagged] at tagged'
    cases tagged'
    obtain ⟨body', alive'⟩ := current
    rw [Function.update_self] at alive'
    have counts := (Seat.alive.inj alive').1
    omega
  · have own : (⟨tag.next, p⟩ : Group).member index ≠ tag.name :=
      Group.member_ne_caller ⟨tag.next, p⟩ index
    exact (Function.update_of_ne own ..).trans (unmade p index)

theorem restore {me : Arming} {tag : Tag} (tagged : marks.tag me = some tag)
    (current : Current r.seat tag) (body : Body σ) :
    Tracks ledger { s with waiters := s.waiters.restore me.slot body } marks
      (r.restore tag body) := by
  obtain ⟨body', alive⟩ := current
  obtain ⟨waiter, found, token, -⟩ := h.seats.found_of_alive tagged alive
  have tagged' : marks.tag ⟨me.slot, waiter.token⟩ = some tag := by
    rw [token]
    exact tagged
  have fewer : ∀ tag', Current (r.restore tag body).seat tag' → Current r.seat tag' := by
    intro tag' current
    by_cases same : tag' = tag
    · subst same
      exact ⟨body', alive⟩
    · exact current_of_update _ current same
  exact ⟨h.seats.modify found tagged' (fun w => { w with body := some body }) rfl rfl,
    h.marked.mono fewer, h.watched.mono fewer fun _ => id, h.awaited⟩

/-- The waiter of a current arming. -/
theorem found {me : Arming} {tag : Tag} (tagged : marks.tag me = some tag)
    (current : Current r.seat tag) :
    ∃ waiter, s.waiters.waiter? me.slot = some waiter ∧
      marks.tag ⟨me.slot, waiter.token⟩ = some tag := by
  obtain ⟨body, alive⟩ := current
  obtain ⟨waiter, found, token, -⟩ := h.seats.found_of_alive tagged alive
  refine ⟨waiter, found, ?_⟩
  rw [token]
  exact tagged

/-- What the books make of an act is what the roster makes of the deed. -/
theorem settle {me : Arming} {tag : Tag} (armed : Armed marks r me tag 0) (done : Act σ) :
    ∃ s' marks' result, s.settle B me done = (s', result) ∧
      (if (done.deed s.kernel).isFailure then ∃ e, result = .error e else result = .ok ()) ∧
      Tracks
        (ledger ++ Alternative.issuesOfAll tag 0 (done.deed s.kernel).alternatives)
        s' marks' (r.settle s.kernel.now tag (done.deed s.kernel)) := by
  obtain ⟨waiter, found, tagged⟩ := h.found armed.tagged armed.current
  cases done with
  | completes =>
      refine ⟨_, marks, _, rfl, rfl, ?_⟩
      rw [show (Act.completes : Act σ).deed s.kernel = .completed from rfl, Deed.alternatives,
        Alternative.issuesOfAll, List.append_nil]
      exact h.complete found tagged
  | fails e =>
      refine ⟨_, marks, _, rfl, ⟨e, rfl⟩, ?_⟩
      rw [show (Act.fails e : Act σ).deed s.kernel = .failed [] from rfl, Deed.alternatives,
        Alternative.issuesOfAll, List.append_nil]
      exact h.drop found tagged e
  | waits body alternatives =>
      have restored := h.restore armed.tagged armed.current body
      have armed' : Armed marks (r.restore tag body) me tag 0 := by
        refine ⟨armed.tagged, ⟨some body, Function.update_self ..⟩, armed.idle, fun p le index => ?_,
          armed.unopened⟩
        exact (Function.update_of_ne (Group.member_ne_caller ⟨tag, p⟩ index) ..).trans
          (armed.unmade p le index)
      obtain ⟨s', marks', result, arming, outcome, tracks, place, armed''⟩ :=
        restored.armOnAll (B := B) armed' alternatives
      dsimp only at outcome tracks armed''
      cases accepted : alternatives.all (·.isAccepted s.kernel) with
      | true =>
          have all := List.takeWhile_eq_self_iff.mpr (List.all_eq_true.mp accepted)
          rw [accepted, if_pos rfl] at outcome
          subst outcome
          have settled : s.settle B me (.waits body alternatives) = (s', .ok ()) := by
            simp only [Simulation.settle, Simulation.rearm, arming]
          rw [show (Act.waits body alternatives).deed s.kernel = .waiting body alternatives from
            if_pos accepted]
          rw [all] at tracks
          exact ⟨s', marks', .ok (), settled, rfl, tracks⟩
      | false =>
          rw [accepted, if_neg Bool.false_ne_true] at outcome
          obtain ⟨e, rfl⟩ := outcome
          have settled : s.settle B me (.waits body alternatives) =
              (s'.drop me.slot e, .error e) := by
            simp only [Simulation.settle, Simulation.rearm, arming]
          obtain ⟨waiter, found, tagged⟩ := tracks.found armed''.tagged armed''.current
          have dropped := tracks.drop found tagged e
          have forgotten : (r.restore tag body).drop tag.name = r.drop tag.name := by
            simp only [Roster.restore, Roster.drop, Function.update_idem]
          rw [drop_armOnAll, forgotten, ← drop_armOnAll] at dropped
          rw [show (Act.waits body alternatives).deed s.kernel =
            .failed (alternatives.takeWhile (·.isAccepted s.kernel)) from
              if_neg (by rw [accepted]; exact Bool.false_ne_true)]
          exact ⟨s'.drop me.slot e, marks', .error e, settled, ⟨e, rfl⟩, dropped⟩

end Tracks

theorem Act.deed_of_committed {k k' : Kernel} (same : k'.committed = k.committed)
    (done : Act σ) : done.deed k' = done.deed k := by
  have accepts : (fun a : Alternative σ => a.isAccepted k') = fun a => a.isAccepted k :=
    funext fun a => Alternative.isAccepted_of_committed same a
  cases done with
  | completes => rfl
  | fails e => rfl
  | waits body alternatives => simp only [deed, accepts]

/-- The waiter for a branch of a join follows its body. -/
theorem Act.deed_follows {B : Behaviours σ ω} {k k' k'' : Kernel} {w w' : ω}
    {outputs : List SignalId} {body : Body σ} {done : Act σ}
    (acted : Simulation.act B k w outputs body = some (done, k', w')) :
    (done.deed k'').Follows body := by
  cases body with
  | branch clause =>
      cases clause with
      | none =>
          cases acted
          rfl
      | some clause =>
          cases acted
          rw [deed]
          split
          · exact .inr rfl
          · exact .inl rfl
  | process state => trivial
  | shadow shadow => trivial
  | always block started => trivial
  | outputs => trivial

namespace Simulation

variable {B : Behaviours σ ω}

theorem firstError_eq_ok {a b : Except SimError Unit} :
    firstError a b = .ok () ↔ a = .ok () ∧ b = .ok () := by
  obtain e | ⟨⟩ := a <;> simp [firstError]

/-- The turn that a waiter takes if the arming is resumed now. The ledger lists the armings by
their tokens. -/
def turnOf? (B : Behaviours σ ω) (ledger : List Tag) (s : Simulation σ ω) (a : Arming) :
    Option (Turn σ) :=
  match (s.waiters.consume a).1 with
  | none => none
  | some (_, body, _) =>
      (act B s.kernel s.world s.outputs body).map fun turn =>
        { tag := ledger[a.token - 1]?.getD default
          deed := turn.1.deed s.kernel
          touched := touched B s.kernel s.world body }

/-- The turns that waiters take until none is ready. -/
def turns (B : Behaviours σ ω) : Nat → List Tag → Simulation σ ω → List (Turn σ)
  | 0, _, _ => []
  | fuel + 1, ledger, s =>
      match s.ready.pop? with
      | none => []
      | some (a, ready) =>
          match runWaiter B { s with ready } a with
          | none => []
          | some (s', _) =>
              match s.turnOf? B ledger a with
              | none => turns B fuel ledger s'
              | some turn => turn :: turns B fuel (ledger ++ turn.issues) s'

theorem turns_of_idle {s : Simulation σ ω} (idle : s.ready.pop? = none) (fuel : Nat)
    (ledger : List Tag) : s.turns B fuel ledger = [] := by
  cases fuel with
  | zero => rfl
  | succ fuel => rw [turns, idle]

section Succ

variable {s s₁ : Simulation σ ω} {a : Arming} {ready : Fifo Arming}
  {result : Except SimError Unit} {ledger : List Tag} (popped : s.ready.pop? = some (a, ready))
  (resumed : runWaiter B { s with ready } a = some (s₁, result))

include popped resumed

theorem turns_of_skipped (skipped : s.turnOf? B ledger a = none) (fuel : Nat) :
    s.turns B (fuel + 1) ledger = s₁.turns B fuel ledger := by
  simp only [turns, popped, resumed, skipped]

theorem turns_of_taken {turn : Turn σ} (taken : s.turnOf? B ledger a = some turn) (fuel : Nat) :
    s.turns B (fuel + 1) ledger = turn :: s₁.turns B fuel (ledger ++ turn.issues) := by
  simp only [turns, popped, resumed, taken]

end Succ

/-- Resuming a waiter is one act, settled in the books. -/
theorem runWaiter_eq {s : Simulation σ ω} {a me : Arming} {body : Body σ} {stale : List SignalId}
    {waiters : WaiterTable (Body σ)}
    (claimed : s.waiters.consume a = (some (me, body, stale), waiters)) (known : s.OutputsKnown) :
    runWaiter B s a =
      (act B s.kernel s.world s.outputs body).map fun turn =>
        ({ s with
            waiters
            stats := { s.stats with resumes := s.stats.resumes + 1 }
            stale := s.stale.insertMany stale
            kernel := turn.2.1
            world := turn.2.2
            link := noted s.link body } : Simulation σ ω).settle B me turn.1 := by
  rw [runWaiter, claimed]
  exact runBody_eq me body known

/-- The simulation when the waiter of an arming was claimed and has acted, before that is settled. -/
def afterAct (s : Simulation σ ω) (waiters : WaiterTable (Body σ)) (stale : List SignalId)
    (body : Body σ) (k : Kernel) (w : ω) : Simulation σ ω :=
  { s with
    waiters
    stats := { s.stats with resumes := s.stats.resumes + 1 }
    stale := s.stale.insertMany stale
    kernel := k
    world := w
    link := noted s.link body }

/-- The ways of a resume: there is nothing to claim, or the waiter acts and that is settled. -/
inductive ResumeWay (B : Behaviours σ ω) (s : Simulation σ ω) (a : Arming) :
    Simulation σ ω → Except SimError Unit → Prop where
  | skipped {waiters : WaiterTable (Body σ)} (unclaimed : s.waiters.consume a = (none, waiters)) :
      ResumeWay B s a { s with waiters } (.ok ())
  | acted {me : Arming} {body : Body σ} {stale : List SignalId} {waiters : WaiterTable (Body σ)}
      {done : Act σ} {k : Kernel} {w : ω} {s' : Simulation σ ω} {result : Except SimError Unit}
      (claimed : s.waiters.consume a = (some (me, body, stale), waiters))
      (acted : act B s.kernel s.world s.outputs body = some (done, k, w))
      (settled : (s.afterAct waiters stale body k w).settle B me done = (s', result)) :
      ResumeWay B s a s' result

theorem way_of_runWaiter {s s' : Simulation σ ω} {a : Arming} {result : Except SimError Unit}
    (known : s.OutputsKnown) (ran : runWaiter B s a = some (s', result)) :
    ResumeWay B s a s' result := by
  cases claimed : s.waiters.consume a with
  | mk claim waiters =>
      cases claim with
      | none =>
          rw [runWaiter, claimed] at ran
          cases ran
          exact .skipped claimed
      | some claim =>
          obtain ⟨me, body, stale⟩ := claim
          rw [runWaiter_eq claimed known] at ran
          obtain ⟨⟨done, k, w⟩, acted, settled⟩ := Option.map_eq_some_iff.mp ran
          exact .acted claimed acted settled

theorem runWaiter_of_stale (B : Behaviours σ ω) {s : Simulation σ ω} {a : Arming}
    (stale : (s.waiters.consume a).1.isSome = false) :
    runWaiter B s a = some ({ s with waiters := (s.waiters.consume a).2 }, .ok ()) := by
  rw [runWaiter]
  generalize s.waiters.consume a = claim at stale ⊢
  obtain ⟨_ | claimed, waiters⟩ := claim
  · rfl
  · cases stale

theorem outputs_of_surroundings {s s' : Simulation σ ω} {stats : RunStats}
    (same : s'.surroundings = { s.surroundings with stats }) : s'.outputs = s.outputs := by
  have links := congrArg Surroundings.link same
  simp only [surroundings] at links
  unfold outputs
  cases linked : s.link with
  | none =>
      rw [linked, Option.map_none, Option.map_eq_none_iff] at links
      rw [links]
  | some l =>
      rw [linked, Option.map_some, Option.map_eq_some_iff] at links
      obtain ⟨l', linked', same⟩ := links
      rw [linked']
      exact congrArg (·.bridge.outputs) same

theorem OutputsKnown.of_surroundings {s s' : Simulation σ ω} {stats : RunStats}
    (known : s.OutputsKnown) (same : s'.surroundings = { s.surroundings with stats }) :
    s'.OutputsKnown := by
  intro id output
  rw [outputs_of_surroundings same] at output
  rw [Kernel.isSome_signal?_of_committed (committed_of_surroundings same)]
  exact known id output

end Simulation

namespace Tracks

variable {B : Behaviours σ ω} {ledger : List Tag} {s s' : Simulation σ ω} {marks : Marks}
  {r : Roster σ} (h : Tracks ledger s marks r)

include h

theorem pop {a : Arming} {ready : Fifo Arming} (popped : s.ready.pop? = some (a, ready)) :
    ∃ tag, marks.tag a = some tag ∧
      (Current r.seat tag → r.fired tag = true) ∧
      (¬Current r.seat tag → Tracks ledger { s with ready } marks r) := by
  have listed := Fifo.toList_of_pop? popped
  have first : a ∈ s.ready.toList := by
    rw [listed]
    exact List.mem_cons_self
  obtain ⟨tag, tagged⟩ := h.marked.tagged a first
  refine ⟨tag, tagged, fun current => (h.marked.exact tagged current).mpr first, fun stale => ?_⟩
  have marked := h.marked
  rw [listed] at marked
  refine ⟨h.seats, marked.skip fun tag' tagged' => ?_, h.watched, h.awaited⟩
  cases tagged.symm.trans tagged'
  exact stale

/-- To resume an arming is a turn, or nothing if the arming is stale. -/
theorem resume {a : Arming} {ready : Fifo Arming} {result : Except SimError Unit}
    (rested : r.Rested) (known : s.OutputsKnown) (popped : s.ready.pop? = some (a, ready))
    (ran : Simulation.runWaiter B { s with ready } a = some (s', result)) :
    (s.turnOf? B ledger a = none ∧ (s.waiters.consume a).1.isSome = false ∧ result = .ok () ∧
        Tracks ledger s' marks r) ∨
      ∃ turn marks', s.turnOf? B ledger a = some turn ∧ (s.waiters.consume a).1.isSome = true ∧
        r.Takes turn ∧
        (if turn.deed.isFailure then ∃ e, result = .error e else result = .ok ()) ∧
        Tracks (ledger ++ turn.issues) s' marks' (r.turn s.kernel.now turn.tag turn.deed) := by
  obtain ⟨tag, tagged, ready_fired, skipped⟩ := h.pop popped
  by_cases current : Current r.seat tag
  · obtain ⟨_ | body, alive⟩ := current
    · exact absurd alive (rested _ _)
    · obtain ⟨stale, waiters, marks₁, claimed, tracks, armed⟩ := h.claim popped tagged alive
      rw [Simulation.runWaiter_eq (s := { s with ready }) claimed known] at ran
      have outputs : ({ s with ready } : Simulation σ ω).outputs = s.outputs := rfl
      rw [outputs] at ran
      dsimp only at ran
      cases acted : Simulation.act B s.kernel s.world s.outputs body with
      | none => simp [acted] at ran
      | some turn =>
          obtain ⟨done, k, w⟩ := turn
          rw [acted, Option.map_some, Option.some.injEq] at ran
          have edits := Simulation.edits_act acted
          have moved : Tracks (ledger ++ [tag.next])
              ({ s with
                  ready
                  waiters
                  stats := { s.stats with resumes := s.stats.resumes + 1 }
                  stale := s.stale.insertMany stale
                  kernel := k
                  world := w
                  link := Simulation.noted s.link body } : Simulation σ ω)
              marks₁ (r.claim tag) := by
            refine ⟨tracks.seats, tracks.marked, ?_, tracks.awaited⟩
            rw [show Kernel.watchers _ = Kernel.watchers _ from edits.watchers]
            exact tracks.watched
          obtain ⟨s₁, marks₂, result₁, settled, outcome, tracks'⟩ := moved.settle (B := B) armed done
          rw [settled] at ran
          cases ran
          rw [Act.deed_of_committed edits.committed] at outcome tracks'
          rw [show Kernel.now _ = s.kernel.now from Kernel.now_of_committed edits.committed] at tracks'
          rw [List.append_assoc] at tracks'
          have entry : ledger[a.token - 1]?.getD default = tag := by
            rw [(h.seats.entered tagged).2.1]
            rfl
          refine .inr ⟨⟨tag, done.deed s.kernel, Simulation.touched B s.kernel s.world body⟩, marks₂,
            ?_, by rw [claimed]; rfl, ⟨⟨body, alive, Act.deed_follows acted⟩,
            ready_fired ⟨some body, alive⟩⟩, outcome, tracks'⟩
          rw [Simulation.turnOf?, claimed]
          dsimp only
          rw [acted, Option.map_some, entry]
  · have stale : s.waiters.isLive a = false :=
      Bool.eq_false_iff.mpr fun live => current ((h.seats.live_iff tagged).mp live)
    have claimed := WaiterTable.consume_of_stale stale
    simp only [Simulation.runWaiter, claimed, Option.some.injEq, Prod.mk.injEq] at ran
    obtain ⟨rfl, rfl⟩ := ran
    refine .inl ⟨?_, by rw [claimed]; rfl, rfl, skipped current⟩
    rw [Simulation.turnOf?, claimed]

/-- A waiter takes a turn by the act of its body. -/
theorem acts {a : Arming} {ready : Fifo Arming} {turn : Turn σ}
    (popped : s.ready.pop? = some (a, ready)) (takes : r.Takes turn)
    (taken : s.turnOf? B ledger a = some turn) :
    ∃ me body stale done k w, (s.waiters.consume a).1 = some (me, body, stale) ∧
      r.seat turn.tag.name = .alive turn.tag.count (some body) ∧
      Simulation.act B s.kernel s.world s.outputs body = some (done, k, w) ∧
      turn.deed = done.deed s.kernel ∧
      turn.touched = Simulation.touched B s.kernel s.world body := by
  obtain ⟨tag, tagged, -⟩ := h.pop popped
  obtain ⟨body, alive, -⟩ := takes.alive
  unfold Simulation.turnOf? at taken
  cases claimed : (s.waiters.consume a).1 with
  | none => simp [claimed] at taken
  | some claim =>
      obtain ⟨me, body', stale⟩ := claim
      simp only [claimed, Option.map_eq_some_iff] at taken
      obtain ⟨⟨done, k, w⟩, acted, rfl⟩ := taken
      have entry : ledger[a.token - 1]?.getD default = tag := by
        rw [(h.seats.entered tagged).2.1]
        rfl
      rw [entry] at alive ⊢
      obtain ⟨waiter, found, token, present⟩ := h.seats.found_of_alive tagged alive
      rw [WaiterTable.consume_of_live found token present] at claimed
      cases claimed
      exact ⟨_, _, _, done, k, w, rfl, alive, acted, rfl, rfl⟩

/-- Where nothing is ready, no current arming has fired. -/
theorem quiet (idle : s.ready.pop? = none) : r.Quiet := by
  intro tag current
  obtain ⟨body, alive⟩ := current
  obtain ⟨slot, waiter, -, tagged⟩ := h.seats.seated alive
  have exact := h.marked.exact tagged ⟨body, alive⟩
  rw [Fifo.pop?_eq_none_iff.mp idle] at exact
  exact Bool.eq_false_iff.mpr fun fired => List.not_mem_nil (exact.mp fired)

/-- A round of resumes is a play of the roster. -/
theorem runReady {fuel : Nat} {failure failure' : Except SimError Unit} (rested : r.Rested)
    (known : s.OutputsKnown) (ran : Simulation.runReady B fuel s failure = .ok (s', failure')) :
    ∃ marks' r',
      Tracks (ledger ++ (s.turns B fuel ledger).flatMap Turn.issues) s' marks' r' ∧
      Plays s.kernel.now r (s.turns B fuel ledger) r' ∧ r'.Rested ∧ r'.Quiet ∧
      s'.stats.resumes = s.stats.resumes + (s.turns B fuel ledger).length ∧
      (failure' = .ok () ↔
        failure = .ok () ∧ ∀ turn ∈ s.turns B fuel ledger, turn.deed.isFailure = false) := by
  replace ran := Simulation.way_of_runReady ran
  induction ran generalizing ledger marks r with
  | idle idle =>
      rw [Simulation.turns_of_idle idle, List.flatMap_nil, List.append_nil]
      exact ⟨marks, r, h, .nil r, rested, h.quiet idle, rfl, by simp⟩
  | @resumed fuel s s₁ _ _ a ready popped resumed further ih =>
      have same := Simulation.surroundings_runWaiter resumed
      have known₁ := known.of_surroundings same
      have now : s₁.kernel.now = s.kernel.now := Simulation.now_of_surroundings same
      have stats := congrArg Simulation.Surroundings.stats same
      change s₁.stats = _ at stats
      have counted := congrArg RunStats.resumes stats
      change s₁.stats.resumes =
        s.stats.resumes + (s.waiters.consume a).1.isSome.toNat at counted
      rcases h.resume rested known popped resumed with
        ⟨skipped, stale, rfl, tracks⟩ |
        ⟨turn, marks₁, taken, live, takes, outcome, tracks⟩
      · obtain ⟨marks', r', tracks', plays, rested', quiet, resumes, failures⟩ :=
          ih tracks rested known₁
        rw [Simulation.firstError_eq_ok, and_iff_left rfl] at failures
        rw [counted, stale, Bool.toNat_false, Nat.add_zero] at resumes
        rw [Simulation.turns_of_skipped popped resumed skipped, ← now]
        exact ⟨marks', r', tracks', plays, rested', quiet, resumes, failures⟩
      · obtain ⟨marks', r', tracks', plays, rested', quiet, resumes, failures⟩ :=
          ih tracks (rested.turn _ _ _) known₁
        rw [Simulation.turns_of_taken popped resumed taken]
        refine ⟨marks', r', ?_, .cons takes ?_, rested', quiet, ?_, ?_⟩
        · rw [List.flatMap_cons, ← List.append_assoc]
          exact tracks'
        · rw [now] at plays
          exact plays
        · rw [resumes, counted, live, List.length_cons, Bool.toNat_true]
          omega
        · rw [failures, Simulation.firstError_eq_ok, and_assoc, List.forall_mem_cons]
          refine and_congr_right fun _ => and_congr_left fun _ => ?_
          cases failed : turn.deed.isFailure with
          | true =>
              rw [failed, if_pos rfl] at outcome
              obtain ⟨e, rfl⟩ := outcome
              simp
          | false =>
              rw [failed, if_neg Bool.false_ne_true] at outcome
              simp [outcome]

end Tracks

end DeltaCycle
