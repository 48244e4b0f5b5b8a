import DeltaCycle.Proofs.Fuel
import DeltaCycle.Proofs.Turns

/-!
# The length of a round

A waiter that is resumed a second time in a round is resumed because others completed that it made.
So what a round has left to do climbs from the waiters to those that made them, as long as nobody
spawns a child. The waiters that stand for branches of joins only add to it what their clauses hold.
A round in which finitely many children are spawned comes to an end.
-/

set_option autoImplicit false

namespace DeltaCycle

variable {σ ω : Type}

/-! ## Measures -/

/-- The number of waiters above a waiter. -/
def Name.depth : Name → Nat
  | .root _ => 0
  | .member caller _ _ _ => caller.depth + 1

namespace Clause

mutual

/-- The number of waiters that stand for branches of a clause, for branches of branches and so on. -/
def branches : Clause σ → Nat
  | any clauses => branchesOfAll clauses
  | join clauses => clauses.length + branchesOfAll clauses
  | _ => 0

/-- The number of waiters that stand for branches of clauses. -/
def branchesOfAll : List (Clause σ) → Nat
  | [] => 0
  | clause :: rest => clause.branches + branchesOfAll rest

end

end Clause

namespace Body

/-- The number of waiters that a waiter for a branch makes, itself included, and those that these
make and so on. -/
def branches : Body σ → Nat
  | .branch (some clause) => clause.branches + 1
  | _ => 0

/-- Whether the body is that of a process. -/
def isProcess : Body σ → Bool
  | .process _ => true
  | _ => false

end Body

/-- The number of waiters that the waiters of an alternative make, themselves included. -/
def Alternative.branches (alternative : Alternative σ) : Nat :=
  (alternative.bodies.map Body.branches).sum

namespace Deed

/-- The number of children that a deed spawns. -/
def children (deed : Deed σ) : Nat :=
  (deed.alternatives.flatMap Alternative.bodies).countP Body.isProcess

/-- The waiter for a branch is armed, and makes no more than its clause holds. -/
def Within (body : Body σ) (deed : Deed σ) : Prop :=
  ∀ clause, body = .branch (some clause) → deed ≠ .completed ∧
    (deed.alternatives.map Alternative.branches).sum ≤ clause.branches

end Deed

theorem Clause.branches_branchBody (clause : Clause σ) :
    clause.branchBody.branches ≤ clause.branches + 1 := by
  cases clause <;> simp [branchBody, Body.branches]

theorem Clause.sum_branchBody (clauses : List (Clause σ)) :
    ((clauses.map branchBody).map Body.branches).sum ≤ clauses.length + branchesOfAll clauses := by
  induction clauses with
  | nil => exact Nat.le_refl 0
  | cons clause rest ih =>
      have first := clause.branches_branchBody
      simp only [List.map_cons, List.sum_cons, List.length_cons, branchesOfAll]
      omega

mutual

/-- What the alternatives of a clause make is no more than the clause holds. -/
theorem Clause.sum_alternatives (clause : Clause σ) :
    (clause.alternatives.map Alternative.branches).sum ≤ clause.branches := by
  cases clause with
  | event signal => exact Nat.le_refl 0
  | edge e => exact Nat.le_refl 0
  | delay ticks => exact Nat.le_refl 0
  | noop => exact Nat.le_refl 0
  | spawn child => exact Nat.le_refl 0
  | any clauses =>
      cases clauses with
      | nil => exact Nat.le_refl 0
      | cons clause rest => exact sum_alternativesOfAll (clause :: rest)
  | join clauses =>
      cases clauses with
      | nil => exact Nat.le_refl 0
      | cons clause rest => exact sum_branchBody (clause :: rest)

theorem Clause.sum_alternativesOfAll (clauses : List (Clause σ)) :
    ((alternativesOfAll clauses).map Alternative.branches).sum ≤ branchesOfAll clauses := by
  cases clauses with
  | nil => exact Nat.le_refl 0
  | cons clause rest =>
      rw [alternativesOfAll, branchesOfAll, List.map_append, List.sum_append]
      exact Nat.add_le_add (sum_alternatives clause) (sum_alternativesOfAll rest)

end

theorem Act.deed_within {B : Behaviours σ ω} {k k' k'' : Kernel} {w w' : ω}
    {outputs : List SignalId} {body : Body σ} {done : Act σ}
    (acted : Simulation.act B k w outputs body = some (done, k', w')) :
    (done.deed k'').Within body := by
  rintro clause rfl
  cases acted
  have whole := clause.sum_alternatives
  rw [deed]
  split
  · refine ⟨fun same => ?_, whole⟩
    cases same
  · refine ⟨fun same => ?_, Nat.le_trans ?_ whole⟩
    · cases same
    · exact ((List.takeWhile_prefix _).sublist.map _).sum_le_sum fun _ _ => Nat.zero_le _

namespace Alternative

/-- The waiters that alternatives make, summed up. -/
theorem sum_issuesOfAll {f : Tag → Nat} {me : Tag} {place : Nat}
    {alternatives : List (Alternative σ)}
    (bound : ∀ p i body, bodyAt alternatives p i = some body →
      f ⟨Group.member ⟨me, place + p⟩ i, 0⟩ = body.branches) :
    ((issuesOfAll me place alternatives).map f).sum = (alternatives.map branches).sum := by
  induction alternatives generalizing place with
  | nil => rfl
  | cons alternative rest ih =>
      rw [issuesOfAll, List.map_append, List.sum_append, List.map_cons, List.sum_cons]
      congr 1
      · have each : ((List.range alternative.bodies.length).map fun i =>
            f ⟨Group.member ⟨me, place⟩ i, 0⟩) = alternative.bodies.map Body.branches := by
          refine List.ext_getElem (by simp) fun i here _ => ?_
          rw [List.length_map, List.length_range] at here
          rw [List.getElem_map, List.getElem_map, List.getElem_range]
          refine bound 0 i alternative.bodies[i] ?_
          rw [bodyAt_cons_zero, List.getElem?_eq_getElem here]
        rw [issues, List.map_map, branches, ← each]
        rfl
      · refine ih fun p i body made => ?_
        rw [Nat.add_assoc, Nat.add_comm 1 p]
        exact bound (p + 1) i body made

/-- Where no child is spawned, all bodies are those of branches. -/
theorem branch_of_bodyAt {deed : Deed σ} (childless : deed.children = 0) {p i : Nat} {body : Body σ}
    (made : bodyAt deed.alternatives p i = some body) :
    ∃ clause, body = .branch (some clause) := by
  obtain ⟨alternative, listed, found⟩ := Option.bind_eq_some_iff.mp made
  have member : body ∈ deed.alternatives.flatMap bodies :=
    List.mem_flatMap.mpr ⟨alternative, List.mem_of_getElem? listed, List.mem_of_getElem? found⟩
  have other := List.countP_eq_zero.mp childless body member
  have kind := List.mem_of_getElem? found
  cases alternative with
  | spawn child =>
      cases List.mem_singleton.mp kind
      exact absurd rfl other
  | join clauses =>
      obtain ⟨clause, -, rfl⟩ := List.mem_map.mp kind
      cases clause with
      | spawn child => exact absurd rfl other
      | _ => exact ⟨_, rfl⟩
  | _ => exact absurd kind List.not_mem_nil

end Alternative

namespace Roster

/-- The clause of a waiter for a branch that was not resumed yet. -/
def branch? (r : Roster σ) (tag : Tag) : Option (Clause σ) :=
  match tag.count, r.seat tag.name with
  | 0, .alive _ (some (.branch (some clause))) => some clause
  | _, _ => none

/-- How far an arming may climb. -/
def climb (r : Roster σ) (tag : Tag) : Nat :=
  match r.branch? tag with
  | some _ => 0
  | none => tag.name.depth + 1

/-- How many waiters an arming may make before anybody climbs, itself included. -/
def spread (r : Roster σ) (tag : Tag) : Nat :=
  match r.branch? tag with
  | some clause => clause.branches + 1
  | none => 0

/-- The armings that are to be resumed are these. -/
def Awaits (r : Roster σ) (tags : Finset Tag) : Prop :=
  ∀ tag, tag ∈ tags ↔ Current r.seat tag ∧ r.fired tag = true

theorem branch?_of_seat {r r' : Roster σ} {tag : Tag}
    (same : r'.seat tag.name = r.seat tag.name) : r'.branch? tag = r.branch? tag := by
  rw [branch?, branch?, same]

theorem climb_le (r : Roster σ) (tag : Tag) : r.climb tag ≤ tag.name.depth + 1 := by
  unfold climb
  split
  · exact Nat.zero_le _
  · exact Nat.le_refl _

/-- What is to be resumed after a turn was made in it, was to be resumed before, or made the waiter
that completed. -/
theorem awaits_turn {r : Roster σ} {now : Nat} {tag t : Tag} {deed : Deed σ}
    (current : Current (r.turn now tag deed).seat t)
    (fired : (r.turn now tag deed).fired t = true) :
    t ∈ Alternative.issuesOfAll tag.next 0 deed.alternatives ∨
      t.name ≠ tag.name ∧ (r.turn now tag deed).seat t.name = r.seat t.name ∧
        (r.fired t = true ∨
          deed = .completed ∧ ∃ group index, tag.name = Group.member group index ∧
            group.caller = t) := by
  obtain ⟨name, count⟩ := t
  obtain ⟨body, alive⟩ := current
  rcases seat_turn_cases r now tag deed name with
    ⟨rfl, seat⟩ | ⟨p, i, body', made, rfl, seat⟩ | ⟨other, unmade, seat⟩
  · have same : count = tag.count + 1 := by
      rw [seat] at alive
      cases deed <;> cases alive
      rfl
    subst same
    have unfired : (r.turn now tag deed).fired tag.next = false := fired_turn_self r
    exact absurd (unfired.symm.trans fired) Bool.false_ne_true
  · rw [seat] at alive
    cases alive
    refine .inl (Alternative.mem_issuesOfAll.mpr ⟨p, i, ?_, ?_⟩)
    · rw [made]
      rfl
    · rw [Nat.zero_add]
  · refine .inr ⟨other, seat, ?_⟩
    have apart : (⟨name, count⟩ : Tag) ≠ tag.next := fun same => other (congrArg Tag.name same)
    have unmade' : ∀ p i, (Alternative.bodyAt deed.alternatives p i).isSome = true →
        (⟨name, count⟩ : Tag) ≠ ⟨Group.member ⟨tag.next, p⟩ i, 0⟩ := fun p i made same =>
      unmade p i made (congrArg Tag.name same)
    rcases (fired_turn r apart unmade').mp fired with before | ⟨completes, group, index, member, same, -⟩
    · exact .inl before
    · exact .inr ⟨completes, group, index, member, same⟩

theorem sum_toFinset_le (tags : List Tag) (f : Tag → Nat) :
    ∑ tag ∈ tags.toFinset, f tag ≤ (tags.map f).sum := by
  induction tags with
  | nil => exact Nat.le_refl 0
  | cons tag rest ih =>
      rw [List.toFinset_cons, List.map_cons, List.sum_cons]
      by_cases again : tag ∈ rest.toFinset
      · rw [Finset.insert_eq_of_mem again]
        exact Nat.le_trans ih (Nat.le_add_left ..)
      · rw [Finset.sum_insert again]
        exact Nat.add_le_add_left ih _

section Turn

variable {r : Roster σ} {now : Nat} {tag : Tag} {body : Body σ} {deed : Deed σ}
  {tags tags' : Finset Tag} (awaits : r.Awaits tags) (awaits' : (r.turn now tag deed).Awaits tags')

include awaits awaits'

/-- Unless a waiter completes, what its turn adds to what is to be resumed is what it makes. -/
theorem sum_awaits_le (stays : deed ≠ .completed) {f g : Tag → Nat}
    (kept : ∀ t : Tag, (r.turn now tag deed).seat t.name = r.seat t.name → g t = f t) :
    ∑ t ∈ tags', g t ≤
      ((Alternative.issuesOfAll tag.next 0 deed.alternatives).map g).sum +
        ∑ t ∈ tags.erase tag, f t := by
  have outside : ∀ t ∈ tags' \ (Alternative.issuesOfAll tag.next 0 deed.alternatives).toFinset,
      t ∈ tags.erase tag ∧ g t = f t := by
    intro t listed
    rw [Finset.mem_sdiff, List.mem_toFinset] at listed
    obtain ⟨current, fired⟩ := (awaits' t).mp listed.1
    obtain ⟨other, seat, before⟩ := (awaits_turn current fired).resolve_left listed.2
    have fired' := before.resolve_right fun completes => stays completes.1
    have current' : Current r.seat t := by
      obtain ⟨body, alive⟩ := current
      exact ⟨body, seat.symm.trans alive⟩
    refine ⟨Finset.mem_erase.mpr ⟨fun same => other (congrArg Tag.name same), ?_⟩, kept t seat⟩
    exact (awaits t).mpr ⟨current', fired'⟩
  rw [← Finset.sum_inter_add_sum_sdiff tags'
    (Alternative.issuesOfAll tag.next 0 deed.alternatives).toFinset]
  refine Nat.add_le_add ?_ ?_
  · exact Nat.le_trans (Finset.sum_le_sum_of_subset Finset.inter_subset_right)
      (sum_toFinset_le _ g)
  · rw [Finset.sum_congr rfl fun t listed => (outside t listed).2]
    exact Finset.sum_le_sum_of_subset fun t listed => (outside t listed).1

/-- Where a waiter completes, nobody is to be resumed that was not before, but for the one that made
it. -/
theorem climb_completed (completes : deed = .completed) :
    ∑ t ∈ tags', (r.turn now tag deed).climb t ≤
      tag.name.depth + ∑ t ∈ tags.erase tag, r.climb t := by
  have inside : ∀ t ∈ tags', (r.turn now tag deed).climb t = r.climb t ∧
      (t ∈ tags.erase tag ∨ ∃ group index, tag.name = Group.member group index ∧
        group.caller = t) := by
    intro t listed
    obtain ⟨current, fired⟩ := (awaits' t).mp listed
    have unmade : t ∉ Alternative.issuesOfAll tag.next 0 deed.alternatives := by
      rw [completes]
      exact List.not_mem_nil
    obtain ⟨other, seat, before⟩ := (awaits_turn current fired).resolve_left unmade
    refine ⟨by rw [climb, climb, branch?_of_seat seat], before.imp (fun fired' => ?_) And.right⟩
    have current' : Current r.seat t := by
      obtain ⟨body, alive⟩ := current
      exact ⟨body, seat.symm.trans alive⟩
    exact Finset.mem_erase.mpr
      ⟨fun same => other (congrArg Tag.name same), (awaits t).mpr ⟨current', fired'⟩⟩
  rw [Finset.sum_congr rfl fun t listed => (inside t listed).1]
  cases name : tag.name with
  | root index =>
      refine Nat.le_trans (Finset.sum_le_sum_of_subset fun t listed => ?_) (Nat.le_add_left ..)
      refine (inside t listed).2.resolve_right ?_
      rintro ⟨group, index', member, -⟩
      rw [name] at member
      cases member
  | member caller count place index =>
      have subset : tags' ⊆ insert ⟨caller, count⟩ (tags.erase tag) := by
        intro t listed
        rcases (inside t listed).2 with before | ⟨group, index', member, rfl⟩
        · exact Finset.mem_insert_of_mem before
        · rw [name] at member
          cases member
          exact Finset.mem_insert_self ..
      refine Nat.le_trans (Finset.sum_le_sum_of_subset subset) ?_
      have caller_climb := r.climb_le ⟨caller, count⟩
      by_cases listed : (⟨caller, count⟩ : Tag) ∈ tags.erase tag
      · rw [Finset.insert_eq_of_mem listed]
        exact Nat.le_add_left ..
      · rw [Finset.sum_insert listed]
        exact Nat.add_le_add_right caller_climb _

/-- Where no child is spawned, a turn leaves less to climb, or as much and fewer waiters to make. -/
theorem descends_turn (alive : r.seat tag.name = .alive tag.count (some body))
    (fired : r.fired tag = true) (childless : deed.children = 0) (within : deed.Within body) :
    ∑ t ∈ tags', (r.turn now tag deed).climb t < ∑ t ∈ tags, r.climb t ∨
      ∑ t ∈ tags', (r.turn now tag deed).climb t ≤ ∑ t ∈ tags, r.climb t ∧
        ∑ t ∈ tags', (r.turn now tag deed).spread t < ∑ t ∈ tags, r.spread t := by
  have listed : tag ∈ tags := (awaits tag).mpr ⟨⟨some body, alive⟩, fired⟩
  have newborn : ∀ p i body', Alternative.bodyAt deed.alternatives p i = some body' →
      ∃ clause, body' = .branch (some clause) ∧
        (r.turn now tag deed).branch? ⟨Group.member ⟨tag.next, p⟩ i, 0⟩ = some clause := by
    intro p i body' made
    obtain ⟨clause, rfl⟩ := Alternative.branch_of_bodyAt childless made
    refine ⟨clause, rfl, ?_⟩
    rw [branch?, seat_turn_of_some r made]
    rfl
  have climbs : deed ≠ .completed → ∑ t ∈ tags', (r.turn now tag deed).climb t ≤
      ∑ t ∈ tags.erase tag, r.climb t := by
    intro stays
    have kept : ∀ t : Tag, (r.turn now tag deed).seat t.name = r.seat t.name →
        (r.turn now tag deed).climb t = r.climb t := fun t seat => by
      rw [climb, climb, branch?_of_seat seat]
    refine Nat.le_trans (sum_awaits_le awaits awaits' stays kept) (Nat.le_of_eq ?_)
    rw [Nat.add_eq_right, List.sum_eq_zero_iff]
    intro n summand
    obtain ⟨t, issued, rfl⟩ := List.mem_map.mp summand
    obtain ⟨p, i, present, rfl⟩ := Alternative.mem_issuesOfAll.mp issued
    obtain ⟨body', made⟩ := Option.isSome_iff_exists.mp present
    obtain ⟨clause, -, first⟩ := newborn p i body' made
    rw [Nat.zero_add, climb, first]
  have split_climb := Finset.add_sum_erase tags r.climb listed
  have split_spread := Finset.add_sum_erase tags r.spread listed
  cases first : r.branch? tag with
  | none =>
      -- The waiter climbs: at most the one that made it is to be resumed in its place.
      left
      have own : r.climb tag = tag.name.depth + 1 := by rw [climb, first]
      by_cases completes : deed = .completed
      · have rest := climb_completed awaits awaits' completes
        omega
      · have rest := climbs completes
        omega
  | some clause =>
      -- The waiter for a branch is armed, and leaves to its own branches what its clause holds.
      right
      have branch : body = .branch (some clause) := by
        unfold branch? at first
        rw [alive] at first
        split at first
        · next seated =>
            cases seated
            cases first
            rfl
        · cases first
      obtain ⟨stays, holds⟩ := within clause branch
      have own : r.spread tag = clause.branches + 1 := by rw [spread, first]
      have rest := climbs stays
      have kept : ∀ t : Tag, (r.turn now tag deed).seat t.name = r.seat t.name →
          (r.turn now tag deed).spread t = r.spread t := fun t seat => by
        rw [spread, spread, branch?_of_seat seat]
      have spreads := sum_awaits_le awaits awaits' stays kept
      rw [Alternative.sum_issuesOfAll fun p i body' made => ?_] at spreads
      · omega
      · obtain ⟨clause', rfl, first'⟩ := newborn p i body' made
        rw [Nat.zero_add, spread, first']
        rfl

end Turn

/-- What is left to do in a round, if nobody spawns a child. -/
def remains (r : Roster σ) (tags : Finset Tag) (ready : Fifo Arming) : ℕ ×ₗ ℕ ×ₗ ℕ :=
  toLex (∑ tag ∈ tags, r.climb tag, toLex (∑ tag ∈ tags, r.spread tag, ready.toList.length))

end Roster

/-! ## The end of a round -/

namespace Simulation

/-- The number of children that are spawned in the first resumes of a round. -/
def spawned (B : Behaviours σ ω) : Nat → Simulation σ ω → Nat
  | 0, _ => 0
  | fuel + 1, s =>
      match s.ready.pop? with
      | none => 0
      | some (a, ready) =>
          match runWaiter B { s with ready } a with
          | none => 0
          | some (s', _) =>
              ((s.turnOf? B [] a).elim 0 fun turn => turn.deed.children) + spawned B fuel s'

variable {B : Behaviours σ ω}

theorem spawned_succ {s s' : Simulation σ ω} {a : Arming} {ready : Fifo Arming}
    {result : Except SimError Unit} (popped : s.ready.pop? = some (a, ready))
    (resumed : runWaiter B { s with ready } a = some (s', result)) (ledger : List Tag) (fuel : Nat) :
    s.spawned B (fuel + 1) =
      ((s.turnOf? B ledger a).elim 0 fun turn => turn.deed.children) + s'.spawned B fuel := by
  rw [spawned, popped]
  dsimp only
  rw [resumed]
  unfold turnOf?
  rcases (s.waiters.consume a).1 with _ | ⟨me, body, stale⟩
  · rfl
  · dsimp only
    cases act B s.kernel s.world s.outputs body <;> rfl

end Simulation

namespace Tracks

variable {B : Behaviours σ ω} {ledger : List Tag} {s : Simulation σ ω} {marks : Marks}
  {r : Roster σ}

theorem exists_awaits (h : Tracks ledger s marks r) : ∃ tags, r.Awaits tags := by
  classical
  refine ⟨(s.ready.toList.filterMap marks.tag).toFinset.filter fun tag =>
    Roster.Current r.seat tag ∧ r.fired tag = true, fun tag => ?_⟩
  rw [Finset.mem_filter, and_iff_right_iff_imp]
  rintro ⟨⟨body, alive⟩, fired⟩
  obtain ⟨slot, waiter, -, tagged⟩ := h.seats.seated alive
  have ready := (h.marked.exact tagged ⟨body, alive⟩).mp fired
  exact List.mem_toFinset.mpr (List.mem_filterMap.mpr ⟨_, ready, tagged⟩)

/-- To resume an arming leaves less to do, unless it spawns children. -/
theorem descends (h : Tracks ledger s marks r) (rested : r.Rested) (known : s.OutputsKnown)
    {a : Arming} {ready : Fifo Arming} {s' : Simulation σ ω} {result : Except SimError Unit}
    (popped : s.ready.pop? = some (a, ready))
    (resumed : Simulation.runWaiter B { s with ready } a = some (s', result)) {tags : Finset Tag}
    (awaits : r.Awaits tags) :
    ∃ ledger' marks' r' tags', Tracks ledger' s' marks' r' ∧ r'.Rested ∧ r'.Awaits tags' ∧
      (((s.turnOf? B ledger a).elim 0 fun turn => turn.deed.children) = 0 →
        r'.remains tags' s'.ready < r.remains tags s.ready) := by
  rcases h.resume rested known popped resumed with ⟨-, stale, -, tracks⟩ |
    ⟨turn, marks', taken, -, takes, -, tracks⟩
  · refine ⟨ledger, marks, r, tags, tracks, rested, awaits, fun _ => ?_⟩
    have kept : s'.ready = ready := by
      rw [Simulation.runWaiter_of_stale B (s := { s with ready }) stale] at resumed
      cases resumed
      rfl
    have shorter : ready.toList.length < s.ready.toList.length := by
      rw [Fifo.toList_of_pop? popped]
      exact Nat.lt_succ_self _
    rw [kept]
    exact Prod.Lex.toLex_lt_toLex.mpr
      (.inr ⟨rfl, Prod.Lex.toLex_lt_toLex.mpr (.inr ⟨rfl, shorter⟩)⟩)
  · obtain ⟨tags', awaits'⟩ := tracks.exists_awaits
    refine ⟨_, marks', _, tags', tracks, rested.turn _ _ _, awaits', fun childless => ?_⟩
    rw [taken] at childless
    obtain ⟨me, body, stale, done, k, w, -, alive, acted, deed, -⟩ := h.acts popped takes taken
    have within : turn.deed.Within body := by
      rw [deed]
      exact Act.deed_within acted
    have lower := Roster.descends_turn awaits awaits' alive takes.fired childless within
    simp only [Roster.remains, Prod.Lex.toLex_lt_toLex]
    omega

/-- A round in which finitely many children are spawned comes to an end. -/
theorem ends {ledger : List Tag} {s : Simulation σ ω} {marks : Marks} {r : Roster σ}
    (h : Tracks ledger s marks r) (rested : r.Rested) (known : s.OutputsKnown)
    (failure : Except SimError Unit) {tags : Finset Tag} (awaits : r.Awaits tags) {bound : Nat}
    (few : ∀ fuel, s.spawned B fuel ≤ bound) :
    ∃ fuel, Simulation.runReady B fuel s failure ≠ .error .outOfFuel := by
  cases popped : s.ready.pop? with
  | none => exact ⟨1, by simp [Simulation.runReady, popped]⟩
  | some next =>
      obtain ⟨a, ready⟩ := next
      cases resumed : Simulation.runWaiter B { s with ready } a with
      | none => exact ⟨1, by simp [Simulation.runReady, popped, resumed]⟩
      | some turn =>
          obtain ⟨s', result⟩ := turn
          have same := Simulation.surroundings_runWaiter resumed
          have known' := known.of_surroundings same
          obtain ⟨ledger', marks', r', tags', tracks, rested', awaits', lower⟩ :=
            h.descends rested known popped resumed awaits
          have counted := fun fuel =>
            (Simulation.spawned_succ popped resumed ledger fuel).symm.trans_le (few (fuel + 1))
          generalize ((s.turnOf? B ledger a).elim 0 fun turn => turn.deed.children) = children
            at lower counted
          have few' : ∀ fuel, s'.spawned B fuel ≤ bound - children := fun fuel => by
            have total := counted fuel
            omega
          have descent : bound - children < bound ∨
              bound - children = bound ∧ r'.remains tags' s'.ready < r.remains tags s.ready := by
            have total := counted 0
            by_cases childless : children = 0
            · exact .inr ⟨by omega, lower childless⟩
            · exact .inl (by omega)
          obtain ⟨fuel, enough⟩ :=
            tracks.ends rested' known' (Simulation.firstError failure result) awaits' few'
          exact ⟨fuel + 1, by simpa only [Simulation.runReady, popped, resumed] using enough⟩
termination_by (bound, r.remains tags s.ready)
decreasing_by
  rcases descent with fewer | ⟨level, lower⟩
  · exact .left _ _ fewer
  · exact Prod.Lex.right' _ (Nat.le_of_eq level) lower

end Tracks

end DeltaCycle
