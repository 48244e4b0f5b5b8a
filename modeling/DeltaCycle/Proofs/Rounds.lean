import DeltaCycle.Proofs.Seats

/-!
# Rounds of the roster

In a round, changes and entries of the queue come about first, and then waiters take turns
until no current arming is left that fired.
-/

set_option autoImplicit false

namespace DeltaCycle

variable {σ : Type}

theorem Tag.next_inj {tag tag' : Tag} (same : tag.next = tag'.next) : tag = tag' := by
  obtain ⟨name, count⟩ := tag
  obtain ⟨name', count'⟩ := tag'
  simpa only [next, mk.injEq, Nat.add_right_cancel_iff] using same

/-- One resume of a waiter: the arming under which it was resumed, what it did, and the signals
whose proposed values it read or wrote. -/
structure Turn (σ : Type) where
  tag : Tag
  deed : Deed σ
  touched : List SignalId

/-- The armings that a turn issues, in the order of their tokens. -/
def Turn.issues (turn : Turn σ) : List Tag :=
  turn.tag.next :: Alternative.issuesOfAll turn.tag.next 0 turn.deed.alternatives

/-- What happened in a round and on the way to it. -/
structure Round (σ : Type) where
  now : Nat := 0
  /-- The tick whose entries were taken from the queue. -/
  drained : Option Nat := none
  changes : List Change := []
  turns : List (Turn σ) := []

/-- The waiter for a branch of a join is armed on the alternatives of the branch once, and
completes when it is resumed again. -/
def Deed.Follows : Body σ → Deed σ → Prop
  | .branch (some clause), deed =>
      deed.isFailure = true ∨ deed = .waiting (.branch none) clause.alternatives
  | .branch none, deed => deed = .completed
  | _, _ => True

/-- Where a waiter stands after the deed that it did in its turn number `count`. -/
def Deed.seat (count : Nat) : Deed σ → Seat σ
  | .waiting body _ => .alive (count + 1) (some body)
  | _ => .gone

/-- The body of a waiter that the alternatives make. -/
def Alternative.bodyAt (alternatives : List (Alternative σ)) (place index : Nat) :
    Option (Body σ) :=
  (alternatives[place]?).bind fun alternative => alternative.bodies[index]?

namespace Roster

/-- Every waiter that is alive has a body. -/
def Rested (r : Roster σ) : Prop := ∀ name count, r.seat name ≠ .alive count none

/-- No current arming has fired. -/
def Quiet (r : Roster σ) : Prop := ∀ tag, Current r.seat tag → r.fired tag = false

/-- The roster after changes, and after the entries of a tick were taken from the queue. -/
def advance (r : Roster σ) (changes : List Change) (drained : Option Nat) : Roster σ :=
  { r with
    fired := fun tag =>
      r.fired tag ||
        (isCurrent r.seat tag && (r.triggers tag).any fun t => changes.any fun c => t.firedBy c) ||
        drained.any fun time => decide ((time, tag) ∈ r.wakes)
    wakes := r.wakes.filter fun e => drained ≠ some e.1 }

/-- A turn that a waiter may take. -/
structure Takes (r : Roster σ) (turn : Turn σ) : Prop where
  alive : ∃ body, r.seat turn.tag.name = .alive turn.tag.count (some body) ∧
    turn.deed.Follows body
  fired : r.fired turn.tag = true

/-- Waiters take turns at a tick. -/
inductive Plays (now : Nat) : Roster σ → List (Turn σ) → Roster σ → Prop where
  | nil (r : Roster σ) : Plays now r [] r
  | cons {r r' : Roster σ} {turn : Turn σ} {rest : List (Turn σ)} (takes : r.Takes turn)
      (plays : Plays now (r.turn now turn.tag turn.deed) rest r') : Plays now r (turn :: rest) r'

/-- The roster plays rounds, each until no current arming is left that fired. -/
inductive Replays (r₀ : Roster σ) : List (Round σ) → Roster σ → Prop where
  | nil : Replays r₀ [] r₀
  | concat {rounds : List (Round σ)} {round : Round σ} {r r' : Roster σ}
      (replays : Replays r₀ rounds r)
      (plays : Plays round.now (r.advance round.changes round.drained) round.turns r')
      (quiet : r'.Quiet) : Replays r₀ (rounds ++ [round]) r'

/-- Nobody was armed again yet, nobody made another waiter, and nothing is awaited. -/
structure Begins (r : Roster σ) : Prop where
  first : ∀ {name count body}, r.seat name = .alive count body → count = 0
  roots : ∀ (group : Group) b, r.seat (group.member b) = .unborn
  newborn : ∀ {name}, Current r.seat ⟨name, 0⟩ → r.fired ⟨name, 0⟩ = true
  wakes : r.wakes = 0

end Roster

/-! ## Making waiters -/

theorem Group.member_ne_caller (group : Group) (index : Nat) :
    group.member index ≠ group.caller.name := by
  intro same
  have sizes := congrArg sizeOf same
  simp only [member, Name.member.sizeOf_spec] at sizes
  omega

theorem Group.member_ne_of_ne {group group' : Group} (apart : group' ≠ group) (index : Nat)
    (index' : Nat) : group'.member index ≠ group.member index' :=
  fun same => apart (Group.member_inj same).1

namespace Roster

variable (r : Roster σ)

/-- What making each of the waiters leaves alone stays as it is when all of them are made. -/
theorem bearAll_frame {β : Sort*} (f : Roster σ → β) {group : Group} {start : Nat}
    {bodies : List (Body σ)}
    (kept : ∀ (r : Roster σ) body, ∀ i < bodies.length,
      f (r.bear (group.member (start + i)) body) = f r) :
    f (r.bearAll group start bodies) = f r := by
  induction bodies generalizing r start with
  | nil => rfl
  | cons body rest ih =>
      refine (ih (r.bear (group.member start) body) fun r body' i lt => ?_).trans
        (kept r body 0 (Nat.succ_pos _))
      rw [Nat.add_assoc, Nat.add_comm 1 i]
      exact kept r body' (i + 1) (Nat.succ_lt_succ lt)

theorem seat_bearAll {group : Group} {start : Nat} {bodies : List (Body σ)} {name : Name}
    (other : ∀ i < bodies.length, name ≠ group.member (start + i)) :
    (r.bearAll group start bodies).seat name = r.seat name :=
  bearAll_frame r (·.seat name) fun _ _ i lt => Function.update_of_ne (other i lt) ..

/-- What making one of the waiters sets, and making those after it leaves alone, is set when all of
them are made. -/
theorem bearAll_made {β : Sort*} (f : Roster σ → β) {group : Group} {start i : Nat}
    {bodies : List (Body σ)} {body : Body σ} (listed : bodies[i]? = some body) {made : β}
    (sets : ∀ r : Roster σ, f (r.bear (group.member (start + i)) body) = made)
    (kept : ∀ (r : Roster σ) body', ∀ j > i, f (r.bear (group.member (start + j)) body') = f r) :
    f (r.bearAll group start bodies) = made := by
  induction bodies generalizing r start i with
  | nil => cases listed
  | cons first rest ih =>
      cases i with
      | zero =>
          cases listed
          refine (bearAll_frame (r.bear (group.member start) body) f fun r body' j _ => ?_).trans
            (sets r)
          rw [Nat.add_assoc, Nat.add_comm 1 j]
          exact kept r body' (j + 1) (Nat.succ_pos j)
      | succ i =>
          refine ih (r.bear (group.member start) first) listed (fun r => ?_) fun r body' j later => ?_
          · rw [Nat.add_assoc, Nat.add_comm 1 i]
            exact sets r
          · rw [Nat.add_assoc, Nat.add_comm 1 j]
            exact kept r body' (j + 1) (Nat.succ_lt_succ later)

/-- Members of a group that were made at different places are different. -/
theorem member_add_ne {group : Group} {i j : Nat} (start : Nat) (later : i < j) :
    group.member (start + i) ≠ group.member (start + j) := by
  intro same
  have equal := (Group.member_inj same).2
  omega

theorem seat_bearAll_of_some (group : Group) (start : Nat) {i : Nat} {bodies : List (Body σ)}
    {body : Body σ} (listed : bodies[i]? = some body) :
    (r.bearAll group start bodies).seat (group.member (start + i)) = .alive 0 (some body) :=
  bearAll_made r (·.seat (group.member (start + i))) listed (fun _ => Function.update_self ..)
    fun _ _ _ later => Function.update_of_ne (member_add_ne start later) ..

theorem fired_bearAll {group : Group} {start : Nat} {bodies : List (Body σ)} {tag : Tag}
    (other : ∀ i < bodies.length, tag ≠ ⟨group.member (start + i), 0⟩) :
    (r.bearAll group start bodies).fired tag = r.fired tag :=
  bearAll_frame r (·.fired tag) fun _ _ i lt => Function.update_of_ne (other i lt) ..

theorem fired_bearAll_of_lt (group : Group) (start : Nat) {i : Nat} {bodies : List (Body σ)}
    (lt : i < bodies.length) :
    (r.bearAll group start bodies).fired ⟨group.member (start + i), 0⟩ = true :=
  bearAll_made r (·.fired ⟨group.member (start + i), 0⟩) (List.getElem?_eq_getElem lt)
    (fun _ => Function.update_self ..) fun _ _ _ later =>
      Function.update_of_ne (fun same => member_add_ne start later (congrArg Tag.name same)) ..

theorem triggers_bearAll {group : Group} {start : Nat} {bodies : List (Body σ)} {tag : Tag}
    (other : ∀ i < bodies.length, tag ≠ ⟨group.member (start + i), 0⟩) :
    (r.bearAll group start bodies).triggers tag = r.triggers tag :=
  bearAll_frame r (·.triggers tag) fun _ _ i lt => Function.update_of_ne (other i lt) ..

theorem outstanding_bearAll (group : Group) (start : Nat) (bodies : List (Body σ)) :
    (r.bearAll group start bodies).outstanding = r.outstanding :=
  bearAll_frame r outstanding fun _ _ _ _ => rfl

theorem wakes_bearAll (group : Group) (start : Nat) (bodies : List (Body σ)) :
    (r.bearAll group start bodies).wakes = r.wakes :=
  bearAll_frame r wakes fun _ _ _ _ => rfl

theorem drop_bearAll {group : Group} {name : Name} (other : ∀ index, group.member index ≠ name)
    (start : Nat) (bodies : List (Body σ)) :
    (r.bearAll group start bodies).drop name = (r.drop name).bearAll group start bodies := by
  induction bodies generalizing r start with
  | nil => rfl
  | cons body rest ih =>
      have apart : (r.bear (group.member start) body).drop name =
          (r.drop name).bear (group.member start) body := by
        simp only [bear, drop, Function.update_comm (other start)]
      rw [bearAll, bearAll, ih, apart]

end Roster

namespace Alternative

theorem bodyAt_cons_zero (alternative : Alternative σ) (rest : List (Alternative σ))
    (index : Nat) : bodyAt (alternative :: rest) 0 index = alternative.bodies[index]? := rfl

theorem bodyAt_of_lt {alternatives : List (Alternative σ)} {place index : Nat}
    {alternative : Alternative σ} (listed : alternatives[place]? = some alternative)
    (lt : index < alternative.bodies.length) :
    bodyAt alternatives place index = some alternative.bodies[index] := by
  rw [bodyAt, listed, Option.bind_some, List.getElem?_eq_getElem lt]

theorem mem_issuesOfAll {me tag : Tag} {place : Nat} {alternatives : List (Alternative σ)} :
    tag ∈ issuesOfAll me place alternatives ↔
      ∃ p i, (bodyAt alternatives p i).isSome = true ∧
        tag = ⟨Group.member ⟨me, place + p⟩ i, 0⟩ := by
  induction alternatives generalizing place with
  | nil =>
      constructor
      · exact fun listed => absurd listed List.not_mem_nil
      · rintro ⟨p, i, made, -⟩
        cases made
  | cons alternative rest ih =>
      rw [issuesOfAll, List.mem_append, ih, issues, List.mem_map]
      constructor
      · rintro (⟨i, bound, rfl⟩ | ⟨p, i, made, rfl⟩)
        · refine ⟨0, i, ?_, rfl⟩
          rw [bodyAt_cons_zero, List.getElem?_eq_getElem (List.mem_range.mp bound)]
          rfl
        · refine ⟨p + 1, i, made, ?_⟩
          rw [Nat.add_assoc, Nat.add_comm 1 p]
      · rintro ⟨p, i, made, rfl⟩
        cases p with
        | zero =>
            rw [bodyAt_cons_zero] at made
            obtain ⟨body, found⟩ := Option.isSome_iff_exists.mp made
            obtain ⟨bound, -⟩ := List.getElem?_eq_some_iff.mp found
            exact .inl ⟨i, List.mem_range.mpr bound, rfl⟩
        | succ p =>
            refine .inr ⟨p, i, made, ?_⟩
            rw [Nat.add_assoc, Nat.add_comm 1 p]

end Alternative

theorem Turn.mem_issues_iff {turn : Turn σ} {tag : Tag} :
    tag ∈ turn.issues ↔ tag = turn.tag.next ∨
      ∃ p i, (Alternative.bodyAt turn.deed.alternatives p i).isSome = true ∧
        tag = ⟨Group.member ⟨turn.tag.next, p⟩ i, 0⟩ := by
  rw [issues, List.mem_cons, Alternative.mem_issuesOfAll]
  simp only [Nat.zero_add]

namespace Roster

variable (r : Roster σ) {now place : Nat} {me : Tag}

/-! ## Arming -/

theorem seat_armOn (now place : Nat) (me : Tag) (alternative : Alternative σ) :
    (r.armOn now me place alternative).seat =
      (r.openGroup ⟨me, place⟩ alternative.bodies).seat := by
  cases alternative <;> rfl

theorem fired_armOn (now place : Nat) (me : Tag) (alternative : Alternative σ) :
    (r.armOn now me place alternative).fired =
      (r.openGroup ⟨me, place⟩ alternative.bodies).fired := by
  cases alternative <;> rfl

theorem seat_armOn_of_ne {alternative : Alternative σ} {name : Name}
    (other : ∀ i, name ≠ Group.member ⟨me, place⟩ i) :
    (r.armOn now me place alternative).seat name = r.seat name := by
  rw [seat_armOn]
  exact seat_bearAll _ fun i _ => other (0 + i)

theorem fired_armOn_of_ne {alternative : Alternative σ} {tag : Tag}
    (other : ∀ i, tag.name ≠ Group.member ⟨me, place⟩ i) :
    (r.armOn now me place alternative).fired tag = r.fired tag := by
  rw [fired_armOn]
  refine fired_bearAll _ fun i _ => ?_
  rintro rfl
  exact other (0 + i) rfl

theorem triggers_armOn {alternative : Alternative σ} {tag : Tag} (other : tag ≠ me) :
    (r.armOn now me place alternative).triggers tag =
      (r.openGroup ⟨me, place⟩ alternative.bodies).triggers tag := by
  cases alternative with
  | trigger t => exact Function.update_of_ne other ..
  | delay ticks => rfl
  | noop => rfl
  | spawn child => rfl
  | join clauses => rfl
  | refused e => rfl

theorem triggers_armOn_self (alternative : Alternative σ) :
    (r.armOn now me place alternative).triggers me =
      r.triggers me ++ alternative.trigger?.toList := by
  have own (index : Nat) : me ≠ ⟨Group.member ⟨me, place⟩ index, 0⟩ := fun same =>
    Group.member_ne_caller ⟨me, place⟩ index (congrArg Tag.name same).symm
  cases alternative with
  | trigger t => exact Function.update_self ..
  | delay ticks => exact (List.append_nil _).symm
  | noop => exact (List.append_nil _).symm
  | refused e => exact (List.append_nil _).symm
  | spawn child =>
      exact (triggers_bearAll _ fun i _ => own (0 + i)).trans (List.append_nil _).symm
  | join clauses =>
      exact (triggers_bearAll _ fun i _ => own (0 + i)).trans (List.append_nil _).symm

theorem outstanding_armOn {alternative : Alternative σ} {group : Group}
    (other : group ≠ ⟨me, place⟩) :
    (r.armOn now me place alternative).outstanding group = r.outstanding group := by
  cases alternative with
  | trigger t => rfl
  | delay ticks => rfl
  | noop => rfl
  | refused e => rfl
  | spawn child =>
      exact (congrFun (outstanding_bearAll _ _ 0 _) group).trans (Function.update_of_ne other ..)
  | join clauses =>
      exact (congrFun (outstanding_bearAll _ _ 0 _) group).trans (Function.update_of_ne other ..)

theorem outstanding_armOn_self {alternative : Alternative σ} (makes : alternative.bodies ≠ []) :
    (r.armOn now me place alternative).outstanding ⟨me, place⟩ =
      List.range alternative.bodies.length := by
  cases alternative with
  | trigger t => exact absurd rfl makes
  | delay ticks => exact absurd rfl makes
  | noop => exact absurd rfl makes
  | refused e => exact absurd rfl makes
  | spawn child =>
      exact (congrFun (outstanding_bearAll _ _ 0 _) _).trans (Function.update_self ..)
  | join clauses =>
      exact (congrFun (outstanding_bearAll _ _ 0 _) _).trans (Function.update_self ..)

theorem wakes_armOn (alternative : Alternative σ) :
    (r.armOn now me place alternative).wakes =
      ((alternative.due? now).map (·, me)).toList + r.wakes := by
  cases alternative with
  | trigger t => exact (zero_add _).symm
  | delay ticks => exact (Multiset.singleton_add ..).symm
  | noop => exact (Multiset.singleton_add ..).symm
  | refused e => exact (zero_add _).symm
  | spawn child => exact (wakes_bearAll _ _ 0 _).trans (zero_add _).symm
  | join clauses => exact (wakes_bearAll _ _ 0 _).trans (zero_add _).symm

/-- What arming on each of the alternatives leaves alone stays as it is when a waiter is armed on
all of them. -/
theorem armOnAll_frame {β : Sort*} (f : Roster σ → β) {alternatives : List (Alternative σ)}
    (kept : ∀ (r : Roster σ) p alternative, alternatives[p]? = some alternative →
      f (r.armOn now me (place + p) alternative) = f r) :
    f (r.armOnAll now me place alternatives) = f r := by
  induction alternatives generalizing r place with
  | nil => rfl
  | cons alternative rest ih =>
      refine (ih (r.armOn now me place alternative) fun r p alternative' listed => ?_).trans
        (kept r 0 alternative rfl)
      rw [Nat.add_assoc, Nat.add_comm 1 p]
      exact kept r (p + 1) alternative' listed

theorem seat_armOnAll {alternatives : List (Alternative σ)} {name : Name}
    (other : ∀ p i, (Alternative.bodyAt alternatives p i).isSome = true →
      name ≠ Group.member ⟨me, place + p⟩ i) :
    (r.armOnAll now me place alternatives).seat name = r.seat name := by
  refine armOnAll_frame r (·.seat name) fun r p alternative listed => ?_
  rw [seat_armOn, openGroup]
  refine seat_bearAll _ fun i lt => ?_
  rw [Nat.zero_add]
  exact other p i (by rw [Alternative.bodyAt_of_lt listed lt]; rfl)

/-- What arming on one of the alternatives sets, and arming on those after it leaves alone, is set
when a waiter is armed on all of them. -/
theorem armOnAll_made {β : Sort*} (f : Roster σ → β) {alternatives : List (Alternative σ)} {p : Nat}
    {alternative : Alternative σ} (listed : alternatives[p]? = some alternative) {made : β}
    (sets : ∀ r : Roster σ, f (r.armOn now me (place + p) alternative) = made)
    (kept : ∀ (r : Roster σ) alternative', ∀ q > p,
      f (r.armOn now me (place + q) alternative') = f r) :
    f (r.armOnAll now me place alternatives) = made := by
  induction alternatives generalizing r place p with
  | nil => cases listed
  | cons first rest ih =>
      cases p with
      | zero =>
          cases listed
          refine (armOnAll_frame (r.armOn now me place alternative) f
            fun r q alternative' _ => ?_).trans (sets r)
          rw [Nat.add_assoc, Nat.add_comm 1 q]
          exact kept r alternative' (q + 1) (Nat.succ_pos q)
      | succ p =>
          refine ih (r.armOn now me place first) listed (fun r => ?_)
            fun r alternative' q later => ?_
          · rw [Nat.add_assoc, Nat.add_comm 1 p]
            exact sets r
          · rw [Nat.add_assoc, Nat.add_comm 1 q]
            exact kept r alternative' (q + 1) (Nat.succ_lt_succ later)

/-- The groups that an arming opens at different places are different. -/
theorem group_add_ne (me : Tag) (place : Nat) {p q : Nat} (later : p < q) :
    (⟨me, place + p⟩ : Group) ≠ ⟨me, place + q⟩ := by
  intro same
  have places := congrArg Group.place same
  dsimp only at places
  omega

theorem seat_armOnAll_of_some {alternatives : List (Alternative σ)} {p i : Nat} {body : Body σ}
    (made : Alternative.bodyAt alternatives p i = some body) :
    (r.armOnAll now me place alternatives).seat (Group.member ⟨me, place + p⟩ i) =
      .alive 0 (some body) := by
  obtain ⟨alternative, listed, found⟩ := Option.bind_eq_some_iff.mp made
  refine armOnAll_made r (·.seat (Group.member ⟨me, place + p⟩ i)) listed (fun r => ?_)
    fun r alternative' q later =>
      seat_armOn_of_ne r fun j => Group.member_ne_of_ne (group_add_ne me place later) i j
  rw [seat_armOn, openGroup]
  have born := seat_bearAll_of_some
    { r with
      outstanding := Function.update r.outstanding ⟨me, place + p⟩
        (List.range alternative.bodies.length) } ⟨me, place + p⟩ 0 found
  rwa [Nat.zero_add] at born

theorem fired_armOnAll {alternatives : List (Alternative σ)} {tag : Tag}
    (other : ∀ p i, (Alternative.bodyAt alternatives p i).isSome = true →
      tag ≠ ⟨Group.member ⟨me, place + p⟩ i, 0⟩) :
    (r.armOnAll now me place alternatives).fired tag = r.fired tag := by
  refine armOnAll_frame r (·.fired tag) fun r p alternative listed => ?_
  rw [fired_armOn, openGroup]
  refine fired_bearAll _ fun i lt => ?_
  rw [Nat.zero_add]
  exact other p i (by rw [Alternative.bodyAt_of_lt listed lt]; rfl)

theorem fired_armOnAll_of_isSome {alternatives : List (Alternative σ)} {p i : Nat}
    (made : (Alternative.bodyAt alternatives p i).isSome = true) :
    (r.armOnAll now me place alternatives).fired ⟨Group.member ⟨me, place + p⟩ i, 0⟩ = true := by
  obtain ⟨body, made⟩ := Option.isSome_iff_exists.mp made
  obtain ⟨alternative, listed, found⟩ := Option.bind_eq_some_iff.mp made
  obtain ⟨lt, -⟩ := List.getElem?_eq_some_iff.mp found
  refine armOnAll_made r (·.fired ⟨Group.member ⟨me, place + p⟩ i, 0⟩) listed (fun r => ?_)
    fun r alternative' q later =>
      fired_armOn_of_ne r fun j => Group.member_ne_of_ne (group_add_ne me place later) i j
  rw [fired_armOn, openGroup]
  have born := fired_bearAll_of_lt
    { r with
      outstanding := Function.update r.outstanding ⟨me, place + p⟩
        (List.range alternative.bodies.length) } ⟨me, place + p⟩ 0 lt
  rwa [Nat.zero_add] at born

theorem triggers_armOnAll {alternatives : List (Alternative σ)} {tag : Tag} (apart : tag ≠ me)
    (other : ∀ p i, (Alternative.bodyAt alternatives p i).isSome = true →
      tag ≠ ⟨Group.member ⟨me, place + p⟩ i, 0⟩) :
    (r.armOnAll now me place alternatives).triggers tag = r.triggers tag := by
  refine armOnAll_frame r (·.triggers tag) fun r p alternative listed => ?_
  rw [triggers_armOn r apart, openGroup]
  refine triggers_bearAll _ fun i lt => ?_
  rw [Nat.zero_add]
  exact other p i (by rw [Alternative.bodyAt_of_lt listed lt]; rfl)

theorem triggers_armOnAll_self (alternatives : List (Alternative σ)) :
    (r.armOnAll now me place alternatives).triggers me =
      r.triggers me ++ alternatives.filterMap Alternative.trigger? := by
  induction alternatives generalizing r place with
  | nil => exact (List.append_nil _).symm
  | cons alternative rest ih =>
      rw [armOnAll, ih, triggers_armOn_self, List.append_assoc, List.filterMap_cons]
      cases alternative.trigger? <;> rfl

theorem outstanding_armOnAll {alternatives : List (Alternative σ)} {group : Group}
    (other : ∀ p, group ≠ ⟨me, place + p⟩) :
    (r.armOnAll now me place alternatives).outstanding group = r.outstanding group :=
  armOnAll_frame r (·.outstanding group) fun r p _ _ => outstanding_armOn r (other p)

theorem outstanding_armOnAll_self {alternatives : List (Alternative σ)} {p : Nat}
    {alternative : Alternative σ} (listed : alternatives[p]? = some alternative)
    (makes : alternative.bodies ≠ []) :
    (r.armOnAll now me place alternatives).outstanding ⟨me, place + p⟩ =
      List.range alternative.bodies.length :=
  armOnAll_made r (·.outstanding ⟨me, place + p⟩) listed (fun r => outstanding_armOn_self r makes)
    fun r _ _ later => outstanding_armOn r (group_add_ne me place later)

theorem wakes_armOnAll (alternatives : List (Alternative σ)) :
    (r.armOnAll now me place alternatives).wakes =
      (alternatives.filterMap fun a => (a.due? now).map (·, me) : List (Nat × Tag)) + r.wakes := by
  induction alternatives generalizing r place with
  | nil => exact (zero_add _).symm
  | cons alternative rest ih =>
      rw [armOnAll, ih, wakes_armOn, List.filterMap_cons]
      cases alternative.due? now with
      | none => exact congrArg _ (zero_add _)
      | some time =>
          simp only [Option.map_some, Option.toList_some, ← Multiset.cons_coe, Multiset.coe_nil,
            Multiset.cons_add, Multiset.add_cons, zero_add]

/-- What a waiter is armed on does not depend on whether it stays. -/
theorem drop_armOnAll (now : Nat) (me : Tag) (place : Nat) (alternatives : List (Alternative σ)) :
    (r.armOnAll now me place alternatives).drop me.name =
      (r.drop me.name).armOnAll now me place alternatives := by
  induction alternatives generalizing r place with
  | nil => rfl
  | cons alternative rest ih =>
      have other (index : Nat) : Group.member ⟨me, place⟩ index ≠ me.name :=
        Group.member_ne_caller ⟨me, place⟩ index
      rw [armOnAll, armOnAll, ih]
      congr 1
      cases alternative with
      | spawn child => exact drop_bearAll _ other 0 _
      | join clauses => exact drop_bearAll _ other 0 _
      | trigger t => rfl
      | delay ticks => rfl
      | noop => rfl
      | refused e => rfl

/-! ## Completing -/

theorem seat_settleGroup (group : Group) (index : Nat) :
    (r.settleGroup group index).seat = r.seat := by
  unfold settleGroup
  dsimp only
  split <;> rfl

theorem seat_complete (name : Name) :
    (r.complete name).seat = Function.update r.seat name .gone := by
  cases name with
  | root index => rfl
  | member caller count place index => exact seat_settleGroup _ _ _

theorem triggers_complete (name : Name) : (r.complete name).triggers = r.triggers := by
  cases name with
  | root index => rfl
  | member caller count place index =>
      unfold complete settleGroup
      dsimp only
      split <;> rfl

theorem wakes_complete (name : Name) : (r.complete name).wakes = r.wakes := by
  cases name with
  | root index => rfl
  | member caller count place index =>
      unfold complete settleGroup
      dsimp only
      split <;> rfl

theorem fired_complete {name : Name} {tag : Tag} :
    (r.complete name).fired tag = true ↔ r.fired tag = true ∨
      ∃ group index, name = Group.member group index ∧ group.caller = tag ∧
        (r.outstanding group).erase index = [] := by
  cases name with
  | root index =>
      refine (or_iff_left ?_).symm
      rintro ⟨group, index', same, -⟩
      cases same
  | member caller count place index =>
      have groupOf : ∀ group index', Name.member caller count place index = Group.member group index' →
          group = ⟨⟨caller, count⟩, place⟩ ∧ index' = index := fun group index' same =>
        Group.member_inj (show group.member index' = Group.member ⟨⟨caller, count⟩, place⟩ index from
          same.symm)
      change ((r.drop (.member caller count place index)).settleGroup ⟨⟨caller, count⟩, place⟩
        index).fired tag = true ↔ _
      unfold settleGroup
      dsimp only
      split
      · next last =>
          change Function.update r.fired ⟨caller, count⟩ true tag = true ↔ _
          by_cases same : tag = ⟨caller, count⟩
          · subst same
            rw [Function.update_self]
            exact iff_of_true rfl (.inr ⟨⟨⟨caller, count⟩, place⟩, index, rfl, rfl, last⟩)
          · rw [Function.update_of_ne same]
            refine (or_iff_left ?_).symm
            rintro ⟨group, index', member, rfl, -⟩
            obtain ⟨rfl, rfl⟩ := groupOf group index' member
            exact same rfl
      · next more =>
          refine (or_iff_left ?_).symm
          rintro ⟨group, index', member, -, last⟩
          obtain ⟨rfl, rfl⟩ := groupOf group index' member
          exact more last

theorem outstanding_complete_self (group : Group) (index : Nat) :
    (r.complete (group.member index)).outstanding group = (r.outstanding group).erase index := by
  change ((r.drop (group.member index)).settleGroup group index).outstanding group = _
  unfold settleGroup
  dsimp only
  split <;> exact Function.update_self ..

theorem outstanding_complete {name : Name} {group : Group}
    (other : ∀ index, name ≠ Group.member group index) :
    (r.complete name).outstanding group = r.outstanding group := by
  cases name with
  | root index => rfl
  | member caller count place index =>
      have apart : group ≠ ⟨⟨caller, count⟩, place⟩ := by
        rintro rfl
        exact other index rfl
      unfold complete settleGroup
      dsimp only
      split <;> exact Function.update_of_ne apart ..

/-! ## Turns -/

section Turn

variable {tag : Tag} {deed : Deed σ}

theorem seat_turn_self : (r.turn now tag deed).seat tag.name = deed.seat tag.count := by
  cases deed with
  | completed =>
      refine (congrFun (seat_complete _ _) tag.name).trans (Function.update_self ..)
  | waiting body alternatives =>
      refine (seat_armOnAll _ fun p i _ same => ?_).trans (Function.update_self ..)
      exact Group.member_ne_caller ⟨tag.next, 0 + p⟩ i same.symm
  | failed alternatives => exact Function.update_self ..

theorem seat_turn_of_some {p i : Nat} {body : Body σ}
    (made : Alternative.bodyAt deed.alternatives p i = some body) :
    (r.turn now tag deed).seat (Group.member ⟨tag.next, p⟩ i) = .alive 0 (some body) := by
  cases deed with
  | completed => cases made
  | waiting body' alternatives =>
      have born : (((r.claim tag).restore tag.next body').armOnAll now tag.next 0 alternatives).seat
          (Group.member ⟨tag.next, 0 + p⟩ i) = .alive 0 (some body) := seat_armOnAll_of_some _ made
      rwa [Nat.zero_add] at born
  | failed alternatives =>
      have born : ((r.claim tag).armOnAll now tag.next 0 alternatives).seat
          (Group.member ⟨tag.next, 0 + p⟩ i) = .alive 0 (some body) := seat_armOnAll_of_some _ made
      rw [Nat.zero_add] at born
      exact (Function.update_of_ne (Group.member_ne_caller ⟨tag.next, p⟩ i) ..).trans born

theorem seat_turn {name : Name} (other : name ≠ tag.name)
    (unmade : ∀ p i, (Alternative.bodyAt deed.alternatives p i).isSome = true →
      name ≠ Group.member ⟨tag.next, p⟩ i) :
    (r.turn now tag deed).seat name = r.seat name := by
  have claimed : (r.claim tag).seat name = r.seat name := Function.update_of_ne other ..
  cases deed with
  | completed =>
      refine (congrFun (seat_complete _ _) name).trans ?_
      exact (Function.update_of_ne other ..).trans claimed
  | waiting body alternatives =>
      refine (seat_armOnAll _ fun p i made => ?_).trans
        ((Function.update_of_ne other ..).trans claimed)
      rw [Nat.zero_add]
      exact unmade p i made
  | failed alternatives =>
      refine (Function.update_of_ne other ..).trans ((seat_armOnAll _ fun p i made => ?_).trans claimed)
      rw [Nat.zero_add]
      exact unmade p i made

theorem fired_turn_self : (r.turn now tag deed).fired tag.next = false := by
  have claimed : (r.claim tag).fired tag.next = false := Function.update_self ..
  have unmade : ∀ p i, tag.next ≠ ⟨Group.member ⟨tag.next, p⟩ i, 0⟩ := fun p i same =>
    Group.member_ne_caller ⟨tag.next, p⟩ i (congrArg Tag.name same).symm
  cases deed with
  | completed =>
      refine Bool.eq_false_iff.mpr fun fired => ?_
      rcases (fired_complete _).mp fired with fired | ⟨group, index, member, caller, -⟩
      · exact Bool.false_ne_true (claimed.symm.trans fired)
      · refine Group.member_ne_caller group index (member.symm.trans ?_)
        rw [caller]
  | waiting body alternatives => exact (fired_armOnAll _ fun p i _ => unmade (0 + p) i).trans claimed
  | failed alternatives => exact (fired_armOnAll _ fun p i _ => unmade (0 + p) i).trans claimed

theorem fired_turn_of_isSome {p i : Nat}
    (made : (Alternative.bodyAt deed.alternatives p i).isSome = true) :
    (r.turn now tag deed).fired ⟨Group.member ⟨tag.next, p⟩ i, 0⟩ = true := by
  cases deed with
  | completed => cases made
  | waiting body alternatives =>
      have born : (((r.claim tag).restore tag.next body).armOnAll now tag.next 0 alternatives).fired
          ⟨Group.member ⟨tag.next, 0 + p⟩ i, 0⟩ = true := fired_armOnAll_of_isSome _ made
      rwa [Nat.zero_add] at born
  | failed alternatives =>
      have born : ((r.claim tag).armOnAll now tag.next 0 alternatives).fired
          ⟨Group.member ⟨tag.next, 0 + p⟩ i, 0⟩ = true := fired_armOnAll_of_isSome _ made
      rwa [Nat.zero_add] at born

theorem fired_turn {t : Tag} (other : t ≠ tag.next)
    (unmade : ∀ p i, (Alternative.bodyAt deed.alternatives p i).isSome = true →
      t ≠ ⟨Group.member ⟨tag.next, p⟩ i, 0⟩) :
    (r.turn now tag deed).fired t = true ↔ r.fired t = true ∨
      deed = .completed ∧ ∃ group index, tag.name = Group.member group index ∧
        group.caller = t ∧ (r.outstanding group).erase index = [] := by
  have claimed : (r.claim tag).fired t = r.fired t := Function.update_of_ne other ..
  have unmade' : ∀ p i, (Alternative.bodyAt deed.alternatives p i).isSome = true →
      t ≠ ⟨Group.member ⟨tag.next, 0 + p⟩ i, 0⟩ := by
    intro p i made
    rw [Nat.zero_add]
    exact unmade p i made
  cases deed with
  | completed =>
      refine (fired_complete _).trans ?_
      rw [claimed]
      exact or_congr_right (and_iff_right rfl).symm
  | waiting body alternatives =>
      rw [show (r.turn now tag (.waiting body alternatives)).fired t = r.fired t from
        (fired_armOnAll ((r.claim tag).restore tag.next body) unmade').trans claimed]
      refine (or_iff_left ?_).symm
      rintro ⟨completes, -⟩
      cases completes
  | failed alternatives =>
      rw [show (r.turn now tag (.failed alternatives)).fired t = r.fired t from
        (fired_armOnAll (r.claim tag) unmade').trans claimed]
      refine (or_iff_left ?_).symm
      rintro ⟨completes, -⟩
      cases completes

theorem triggers_turn_self :
    (r.turn now tag deed).triggers tag.next =
      deed.alternatives.filterMap Alternative.trigger? := by
  have claimed : (r.claim tag).triggers tag.next = [] := Function.update_self ..
  cases deed with
  | completed => exact (congrFun (triggers_complete _ _) _).trans claimed
  | waiting body alternatives =>
      refine (triggers_armOnAll_self _ alternatives).trans ?_
      exact congrArg (· ++ alternatives.filterMap Alternative.trigger?) claimed
  | failed alternatives =>
      refine (triggers_armOnAll_self _ alternatives).trans ?_
      exact congrArg (· ++ alternatives.filterMap Alternative.trigger?) claimed

theorem triggers_turn {t : Tag} (other : t ≠ tag.next)
    (unmade : ∀ p i, (Alternative.bodyAt deed.alternatives p i).isSome = true →
      t ≠ ⟨Group.member ⟨tag.next, p⟩ i, 0⟩) :
    (r.turn now tag deed).triggers t = r.triggers t := by
  have claimed : (r.claim tag).triggers t = r.triggers t := Function.update_of_ne other ..
  have unmade' : ∀ p i, (Alternative.bodyAt deed.alternatives p i).isSome = true →
      t ≠ ⟨Group.member ⟨tag.next, 0 + p⟩ i, 0⟩ := by
    intro p i made
    rw [Nat.zero_add]
    exact unmade p i made
  cases deed with
  | completed => exact (congrFun (triggers_complete _ _) _).trans claimed
  | waiting body alternatives => exact (triggers_armOnAll _ other unmade').trans claimed
  | failed alternatives => exact (triggers_armOnAll _ other unmade').trans claimed

theorem outstanding_turn_self {p : Nat} {alternative : Alternative σ}
    (listed : deed.alternatives[p]? = some alternative) (makes : alternative.bodies ≠ []) :
    (r.turn now tag deed).outstanding ⟨tag.next, p⟩ = List.range alternative.bodies.length := by
  cases deed with
  | completed => cases listed
  | waiting body alternatives =>
      have opened : (((r.claim tag).restore tag.next body).armOnAll now tag.next 0
          alternatives).outstanding ⟨tag.next, 0 + p⟩ = List.range alternative.bodies.length :=
        outstanding_armOnAll_self _ listed makes
      rwa [Nat.zero_add] at opened
  | failed alternatives =>
      have opened : ((r.claim tag).armOnAll now tag.next 0 alternatives).outstanding
          ⟨tag.next, 0 + p⟩ = List.range alternative.bodies.length :=
        outstanding_armOnAll_self _ listed makes
      rwa [Nat.zero_add] at opened

theorem outstanding_turn_of_completed {group : Group} {index : Nat} (completes : deed = .completed)
    (member : tag.name = group.member index) :
    (r.turn now tag deed).outstanding group = (r.outstanding group).erase index := by
  subst completes
  change ((r.claim tag).complete tag.name).outstanding group = _
  rw [member, outstanding_complete_self]
  rfl

theorem outstanding_turn {group : Group} (other : group.caller ≠ tag.next)
    (elsewhere : deed = .completed → ∀ index, tag.name ≠ group.member index) :
    (r.turn now tag deed).outstanding group = r.outstanding group := by
  have apart : ∀ p, group ≠ ⟨tag.next, 0 + p⟩ := by
    rintro p rfl
    exact other rfl
  cases deed with
  | completed => exact outstanding_complete _ (elsewhere rfl)
  | waiting body alternatives => exact outstanding_armOnAll _ apart
  | failed alternatives => exact outstanding_armOnAll _ apart

theorem wakes_turn :
    (r.turn now tag deed).wakes =
      (deed.alternatives.filterMap fun a => (a.due? now).map (·, tag.next) :
        List (Nat × Tag)) + r.wakes := by
  cases deed with
  | completed => exact (wakes_complete _ _).trans (zero_add _).symm
  | waiting body alternatives => exact wakes_armOnAll _ alternatives
  | failed alternatives => exact wakes_armOnAll _ alternatives

/-- A waiter takes the turn, is made in it, or stays where it is. -/
theorem seat_turn_cases (r : Roster σ) (now : Nat) (tag : Tag) (deed : Deed σ) (name : Name) :
    (name = tag.name ∧ (r.turn now tag deed).seat name = deed.seat tag.count) ∨
      (∃ p i body, Alternative.bodyAt deed.alternatives p i = some body ∧
        name = Group.member ⟨tag.next, p⟩ i ∧
        (r.turn now tag deed).seat name = .alive 0 (some body)) ∨
      (name ≠ tag.name ∧
        (∀ p i, (Alternative.bodyAt deed.alternatives p i).isSome = true →
          name ≠ Group.member ⟨tag.next, p⟩ i) ∧
        (r.turn now tag deed).seat name = r.seat name) := by
  by_cases own : name = tag.name
  · subst own
    exact .inl ⟨rfl, seat_turn_self r⟩
  · by_cases made : ∃ p i, (Alternative.bodyAt deed.alternatives p i).isSome = true ∧
        name = Group.member ⟨tag.next, p⟩ i
    · obtain ⟨p, i, present, rfl⟩ := made
      obtain ⟨body, found⟩ := Option.isSome_iff_exists.mp present
      exact .inr (.inl ⟨p, i, body, found, rfl, seat_turn_of_some r found⟩)
    · have unmade : ∀ p i, (Alternative.bodyAt deed.alternatives p i).isSome = true →
          name ≠ Group.member ⟨tag.next, p⟩ i := fun p i present same =>
        made ⟨p, i, present, same⟩
      exact .inr (.inr ⟨own, unmade, seat_turn r own unmade⟩)

theorem Rested.turn {r : Roster σ} (rested : r.Rested) (now : Nat) (tag : Tag) (deed : Deed σ) :
    (r.turn now tag deed).Rested := by
  intro name count alive
  rcases seat_turn_cases r now tag deed name with ⟨-, seat⟩ | ⟨p, i, body, -, -, seat⟩ |
    ⟨-, -, seat⟩
  · rw [seat] at alive
    cases deed <;> cases alive
  · rw [seat] at alive
    cases alive
  · rw [seat] at alive
    exact rested name count alive

end Turn

/-! ## Advancing -/

theorem any_or_eq {α : Type} (list : List α) (p q : α → Bool) :
    (list.any fun a => p a || q a) = (list.any p || list.any q) := by
  induction list with
  | nil => rfl
  | cons a rest ih =>
      simp only [List.any_cons, ih]
      cases p a <;> cases q a <;> simp

theorem advance_nil : r.advance [] none = r := by
  simp only [advance, List.any_nil, List.any_eq_false.mpr fun _ _ => Bool.false_ne_true,
    Bool.and_false, Bool.or_false, Option.any_none]
  congr
  exact Multiset.filter_eq_self.mpr fun _ _ => nofun

theorem advance_of_forall {time : Nat} (changes : List Change)
    (undue : ∀ tag, (time, tag) ∉ r.wakes) :
    r.advance changes (some time) = r.advance changes none := by
  unfold advance
  congr 1
  · funext tag
    simp only [Option.any_some, Option.any_none, decide_eq_false (undue tag)]
  · refine Multiset.filter_congr fun e listed => iff_of_true (fun same => ?_) nofun
    cases same
    exact undue e.2 listed

theorem advance_fire (change : Change) (changes : List Change) (drained : Option Nat) :
    (r.fire change).advance changes drained = r.advance (change :: changes) drained := by
  unfold advance fire
  congr 1
  funext tag
  have split_ : (r.triggers tag).any (fun t => (change :: changes).any fun c => t.firedBy c) =
      ((r.triggers tag).any (·.firedBy change) ||
        (r.triggers tag).any fun t => changes.any fun c => t.firedBy c) := by
    simp only [List.any_cons, any_or_eq]
  dsimp only
  rw [split_, Bool.and_or_distrib_left, Bool.or_assoc (r.fired tag)]

theorem advance_wake {time : Nat} {tag : Tag} (listed : (time, tag) ∈ r.wakes)
    (changes : List Change) :
    (r.wake time tag).advance changes (some time) = r.advance changes (some time) := by
  obtain ⟨rest, wakes⟩ := Multiset.exists_cons_of_mem listed
  unfold advance wake notify
  congr 1
  · funext tag'
    dsimp only
    rw [wakes, Multiset.erase_cons_head]
    by_cases same : tag' = tag
    · subst same
      simp
    · rw [Function.update_of_ne same]
      simp [same]
  · rw [wakes, Multiset.erase_cons_head, Multiset.filter_cons_of_neg]
    exact fun apart => apart rfl

theorem advance_append (changes later : List Change) (drained : Option Nat) :
    (r.advance changes none).advance later drained = r.advance (changes ++ later) drained := by
  induction changes generalizing r with
  | nil => rw [advance_nil, List.nil_append]
  | cons change rest ih => rw [← advance_fire, ih, List.cons_append, advance_fire]

theorem advance_advance (changes later : List Change) (drained : Option Nat) :
    (r.advance changes drained).advance later none = r.advance (changes ++ later) drained := by
  unfold advance
  congr 1
  · funext tag
    have split_ : (r.triggers tag).any (fun t => (changes ++ later).any fun c => t.firedBy c) =
        ((r.triggers tag).any (fun t => changes.any fun c => t.firedBy c) ||
          (r.triggers tag).any fun t => later.any fun c => t.firedBy c) := by
      simp only [List.any_append, any_or_eq]
    dsimp only
    rw [split_, Bool.and_or_distrib_left, Option.any_none, Bool.or_false, Bool.or_right_comm,
      Bool.or_assoc (r.fired tag)]
  · exact Multiset.filter_eq_self.mpr fun _ _ => nofun

end Roster

end DeltaCycle
