import DeltaCycle.Proofs.Rounds

/-!
# Turns of different waiters

Two waiters that may both take a turn can take them in either order: the roster comes out the same.
What one of them makes, the other cannot have made, and cannot be, since nobody is made by an
arming before that arming is issued.
-/

set_option autoImplicit false

namespace DeltaCycle

variable {σ : Type}

attribute [ext] Roster

namespace Roster

/-- Nobody was made by an arming that was not issued. -/
def Lineal (r : Roster σ) : Prop :=
  ∀ (group : Group) index, r.seat (group.member index) ≠ .unborn → Known r.seat group.caller

/-! ## Triggers and groups after a turn -/

theorem triggers_bearAll_of_lt (r : Roster σ) (group : Group) (start : Nat) {i : Nat}
    {bodies : List (Body σ)} (lt : i < bodies.length) :
    (r.bearAll group start bodies).triggers ⟨group.member (start + i), 0⟩ = [] :=
  bearAll_made r (·.triggers ⟨group.member (start + i), 0⟩) (List.getElem?_eq_getElem lt)
    (fun _ => Function.update_self ..) fun _ _ _ later =>
      Function.update_of_ne (fun same => member_add_ne start later (congrArg Tag.name same)) ..

theorem triggers_armOnAll_of_isSome (r : Roster σ) {now place : Nat} {me : Tag}
    {alternatives : List (Alternative σ)} {p i : Nat}
    (made : (Alternative.bodyAt alternatives p i).isSome = true) :
    (r.armOnAll now me place alternatives).triggers ⟨Group.member ⟨me, place + p⟩ i, 0⟩ = [] := by
  have own : (⟨Group.member ⟨me, place + p⟩ i, 0⟩ : Tag) ≠ me := fun same =>
    Group.member_ne_caller ⟨me, place + p⟩ i (congrArg Tag.name same)
  obtain ⟨body, made⟩ := Option.isSome_iff_exists.mp made
  obtain ⟨alternative, listed, found⟩ := Option.bind_eq_some_iff.mp made
  obtain ⟨lt, -⟩ := List.getElem?_eq_some_iff.mp found
  refine armOnAll_made r (·.triggers ⟨Group.member ⟨me, place + p⟩ i, 0⟩) listed (fun r => ?_)
    fun r alternative' q later => ?_
  · rw [triggers_armOn r own, openGroup]
    have born := triggers_bearAll_of_lt
      { r with
        outstanding := Function.update r.outstanding ⟨me, place + p⟩
          (List.range alternative.bodies.length) } ⟨me, place + p⟩ 0 lt
    rwa [Nat.zero_add] at born
  · rw [triggers_armOn r own, openGroup]
    refine triggers_bearAll _ fun j _ same => ?_
    exact Group.member_ne_of_ne (group_add_ne me place later) i (0 + j) (congrArg Tag.name same)

theorem triggers_turn_of_isSome (r : Roster σ) {now : Nat} {tag : Tag} {deed : Deed σ} {p i : Nat}
    (made : (Alternative.bodyAt deed.alternatives p i).isSome = true) :
    (r.turn now tag deed).triggers ⟨Group.member ⟨tag.next, p⟩ i, 0⟩ = [] := by
  rw [← Nat.zero_add p]
  cases deed with
  | completed => cases made
  | waiting body alternatives => exact triggers_armOnAll_of_isSome _ made
  | failed alternatives => exact triggers_armOnAll_of_isSome (r.claim tag) made

/-- A turn leaves what others are armed on alone. -/
theorem triggers_turn_of_old (r : Roster σ) (now : Nat) {turn : Turn σ} {t : Tag}
    (old : t ∉ turn.issues) : (r.turn now turn.tag turn.deed).triggers t = r.triggers t := by
  rw [Turn.mem_issues_iff, not_or] at old
  exact triggers_turn r old.1 fun p i made same => old.2 ⟨p, i, made, same⟩

/-- The turn completes the last waiter of a group that the arming made. -/
def Releases (r : Roster σ) (turn : Turn σ) (t : Tag) : Prop :=
  turn.deed = .completed ∧ ∃ group index, turn.tag.name = Group.member group index ∧
    group.caller = t ∧ (r.outstanding group).erase index = []

/-- Of those that were issued before, a turn fires at most the one that it releases. -/
theorem fired_turn_of_old (r : Roster σ) (now : Nat) {turn : Turn σ} {t : Tag}
    (old : t ∉ turn.issues) :
    (r.turn now turn.tag turn.deed).fired t = true ↔ r.fired t = true ∨ r.Releases turn t := by
  rw [Turn.mem_issues_iff, not_or] at old
  exact fired_turn r old.1 fun p i made same => old.2 ⟨p, i, made, same⟩

theorem outstanding_armOnAll_congr {r r' : Roster σ} {group : Group}
    (same : r'.outstanding group = r.outstanding group) (now : Nat) (me : Tag) (place : Nat)
    (alternatives : List (Alternative σ)) :
    (r'.armOnAll now me place alternatives).outstanding group =
      (r.armOnAll now me place alternatives).outstanding group := by
  induction alternatives generalizing r r' place with
  | nil => exact same
  | cons alternative rest ih =>
      refine ih ?_ (place + 1)
      have opened (bodies : List (Body σ)) :
          (r'.openGroup ⟨me, place⟩ bodies).outstanding group =
            (r.openGroup ⟨me, place⟩ bodies).outstanding group := by
        rw [openGroup, openGroup, outstanding_bearAll, outstanding_bearAll]
        simp only [Function.update_apply, same]
      cases alternative with
      | trigger t => exact same
      | delay ticks => exact same
      | noop => exact same
      | spawn child => exact opened _
      | join clauses => exact opened _
      | refused e => exact same

/-- What a turn makes of a group depends on that group alone. -/
theorem outstanding_turn_congr {r r' : Roster σ} {group : Group}
    (same : r'.outstanding group = r.outstanding group) (now : Nat) (tag : Tag) (deed : Deed σ) :
    (r'.turn now tag deed).outstanding group = (r.turn now tag deed).outstanding group := by
  cases deed with
  | waiting body alternatives =>
      have restored : ((r'.claim tag).restore tag.next body).outstanding group =
          ((r.claim tag).restore tag.next body).outstanding group := same
      exact outstanding_armOnAll_congr restored now tag.next 0 alternatives
  | failed alternatives =>
      have claimed : (r'.claim tag).outstanding group = (r.claim tag).outstanding group := same
      exact outstanding_armOnAll_congr claimed now tag.next 0 alternatives
  | completed =>
      by_cases member : ∃ index, tag.name = group.member index
      · obtain ⟨index, member⟩ := member
        rw [outstanding_turn_of_completed r' rfl member, outstanding_turn_of_completed r rfl member,
          same]
      · have elsewhere (index : Nat) : tag.name ≠ group.member index := fun own => member ⟨index, own⟩
        exact (outstanding_complete _ elsewhere).trans
          (same.trans (outstanding_complete (r.claim tag) elsewhere).symm)

/-! ## Lineage -/

/-- The next arming of a waiter is not issued before its turn. -/
theorem Takes.fresh {r : Roster σ} {turn : Turn σ} (takes : r.Takes turn) :
    ¬Known r.seat turn.tag.next := by
  obtain ⟨⟨body, alive, -⟩, -⟩ := takes
  exact fun known => absurd (known.2 _ _ alive) (Nat.not_succ_le_self _)

theorem Takes.born {r : Roster σ} {turn : Turn σ} (takes : r.Takes turn) :
    r.seat turn.tag.name ≠ .unborn := by
  obtain ⟨⟨body, alive, -⟩, -⟩ := takes
  intro unborn
  cases alive.symm.trans unborn

/-- Nobody is there yet whom a turn makes. -/
theorem Lineal.unborn {r : Roster σ} (lineal : r.Lineal) {turn : Turn σ} (takes : r.Takes turn)
    (p i : Nat) : r.seat (Group.member ⟨turn.tag.next, p⟩ i) = .unborn :=
  Classical.byContradiction fun born => takes.fresh (lineal ⟨turn.tag.next, p⟩ i born)

theorem Lineal.grows {r : Roster σ} (lineal : r.Lineal) {turn : Turn σ} (takes : r.Takes turn)
    (now : Nat) : Grows r.seat (r.turn now turn.tag turn.deed).seat := by
  obtain ⟨body, alive, -⟩ := takes.alive
  intro name born
  rcases seat_turn_cases r now turn.tag turn.deed name with ⟨rfl, seat⟩ | ⟨p, i, body', -, rfl, -⟩ |
    ⟨-, -, seat⟩
  · rw [seat]
    refine ⟨?_, fun count' body' alive' => ⟨turn.tag.count, _, alive, ?_⟩⟩
    · cases turn.deed <;> exact nofun
    · cases deed : turn.deed with
      | waiting b alternatives =>
          rw [deed] at alive'
          cases alive'
          exact Nat.le_succ _
      | completed =>
          rw [deed] at alive'
          cases alive'
      | failed alternatives =>
          rw [deed] at alive'
          cases alive'
  · exact absurd (lineal.unborn takes p i) born
  · rw [seat]
    exact ⟨born, fun count body' alive' => ⟨count, body', alive', Nat.le_refl _⟩⟩

/-- The waiter that takes a turn has been issued the arming that it goes on with. -/
theorem known_turn (r : Roster σ) (now : Nat) (tag : Tag) (deed : Deed σ) :
    Known (r.turn now tag deed).seat tag.next := by
  have seat : (r.turn now tag deed).seat tag.next.name = deed.seat tag.count := seat_turn_self r
  refine ⟨?_, fun count body alive => ?_⟩
  · rw [seat]
    cases deed <;> exact nofun
  · rw [seat] at alive
    cases deed <;> cases alive
    exact Nat.le_refl _

theorem Lineal.turn {r : Roster σ} (lineal : r.Lineal) {turn : Turn σ} (takes : r.Takes turn)
    (now : Nat) : (r.turn now turn.tag turn.deed).Lineal := by
  have grows := lineal.grows takes now
  intro group index born
  rcases seat_turn_cases r now turn.tag turn.deed (group.member index) with ⟨same, -⟩ |
    ⟨p, i, body, -, same, -⟩ | ⟨-, -, seat⟩
  · exact (lineal group index (by rw [same]; exact takes.born)).mono grows
  · obtain ⟨rfl, -⟩ := Group.member_inj same
    exact known_turn r now turn.tag turn.deed
  · rw [seat] at born
    exact (lineal group index born).mono grows

/-- A waiter that does not take the turn stays where it is, and what fired for it stays fired. -/
theorem Lineal.stays {r : Roster σ} (lineal : r.Lineal) {turn : Turn σ} (takes : r.Takes turn)
    (now : Nat) {tag : Tag} {body : Option (Body σ)}
    (alive : r.seat tag.name = .alive tag.count body) (other : tag.name ≠ turn.tag.name) :
    (r.turn now turn.tag turn.deed).seat tag.name = .alive tag.count body ∧
      (r.fired tag = true → (r.turn now turn.tag turn.deed).fired tag = true) := by
  have unmade (p i : Nat) : tag.name ≠ Group.member ⟨turn.tag.next, p⟩ i := by
    intro same
    have unborn := lineal.unborn takes p i
    rw [← same, alive] at unborn
    cases unborn
  refine ⟨?_, fun fired => (fired_turn r (fun same => ?_) fun p i _ same => ?_).mpr (.inl fired)⟩
  · rw [seat_turn r other fun p i _ => unmade p i]
    exact alive
  · have names : tag.name = turn.tag.next.name := congrArg Tag.name same
    exact other names
  · exact unmade p i (congrArg Tag.name same)

/-! ## Turns in either order -/

/-- Two different waiters may both take a turn. -/
structure Both (r : Roster σ) (u v : Turn σ) : Prop where
  lineal : r.Lineal
  first : r.Takes u
  second : r.Takes v
  apart : u.tag.name ≠ v.tag.name

namespace Both

variable {r : Roster σ} {u v : Turn σ} (both : Both r u v)

include both

theorem symm : Both r v u := ⟨both.lineal, both.second, both.first, both.apart.symm⟩

theorem next_ne : u.tag.next ≠ v.tag.next := fun same =>
  both.apart (congrArg Tag.name (Tag.next_inj same))

theorem name_ne_member (p i : Nat) : u.tag.name ≠ Group.member ⟨v.tag.next, p⟩ i := by
  intro same
  have unborn := both.lineal.unborn both.second p i
  rw [← same] at unborn
  exact both.first.born unborn

theorem member_ne_member (p i q j : Nat) :
    Group.member ⟨u.tag.next, p⟩ i ≠ Group.member ⟨v.tag.next, q⟩ j := fun same =>
  both.next_ne (congrArg Group.caller (Group.member_inj same).1)

/-- The group of a waiter was not opened by an arming that is still to be issued. -/
theorem caller_ne {group : Group} {index : Nat} (member : u.tag.name = group.member index) :
    group.caller ≠ v.tag.next := by
  intro same
  have known := both.lineal group index (by rw [← member]; exact both.first.born)
  rw [same] at known
  exact both.second.fresh known

theorem seat (now : Nat) :
    ((r.turn now u.tag u.deed).turn now v.tag v.deed).seat =
      ((r.turn now v.tag v.deed).turn now u.tag u.deed).seat := by
  funext name
  rcases seat_turn_cases (r.turn now u.tag u.deed) now v.tag v.deed name with ⟨rfl, seat⟩ |
    ⟨p, i, body, made, rfl, seat⟩ | ⟨ne, unmade, seat⟩
  · rw [seat, seat_turn _ both.apart.symm fun p i _ => both.symm.name_ne_member p i, seat_turn_self]
  · rw [seat, seat_turn _ (both.name_ne_member p i).symm
      fun q j _ => (both.member_ne_member q j p i).symm, seat_turn_of_some r made]
  · rw [seat]
    rcases seat_turn_cases (r.turn now v.tag v.deed) now u.tag u.deed name with ⟨rfl, seat'⟩ |
      ⟨p, i, body, made, rfl, seat'⟩ | ⟨ne', unmade', seat'⟩
    · rw [seat', seat_turn_self]
    · rw [seat', seat_turn_of_some r made]
    · rw [seat', seat_turn r ne' unmade', seat_turn r ne unmade]

/-- What `v` issues is left alone by `u`, in whichever order they come. -/
theorem triggers_of_issued (now : Nat) {t : Tag} (issued : t ∈ v.issues) :
    ((r.turn now u.tag u.deed).turn now v.tag v.deed).triggers t =
      ((r.turn now v.tag v.deed).turn now u.tag u.deed).triggers t := by
  obtain rfl | ⟨p, i, made, rfl⟩ := Turn.mem_issues_iff.mp issued
  · rw [triggers_turn_self, triggers_turn _ both.next_ne.symm, triggers_turn_self]
    exact fun p i _ same => Nat.succ_ne_zero _ (congrArg Tag.count same)
  · rw [triggers_turn_of_isSome _ made, triggers_turn, triggers_turn_of_isSome r made]
    · exact fun same => Nat.succ_ne_zero _ (congrArg Tag.count same).symm
    · exact fun q j _ same => both.member_ne_member q j p i (congrArg Tag.name same).symm

theorem triggers (now : Nat) :
    ((r.turn now u.tag u.deed).turn now v.tag v.deed).triggers =
      ((r.turn now v.tag v.deed).turn now u.tag u.deed).triggers := by
  funext t
  by_cases ofV : t ∈ v.issues
  · exact both.triggers_of_issued now ofV
  · by_cases ofU : t ∈ u.issues
    · exact (both.symm.triggers_of_issued now ofU).symm
    · rw [triggers_turn_of_old _ now ofV, triggers_turn_of_old _ now ofU,
        triggers_turn_of_old _ now ofU, triggers_turn_of_old _ now ofV]

/-- What the turn of another waiter makes of the group of a waiter: the other one completes in the
same group, or does not matter. -/
theorem outstanding_cases (now : Nat) {group : Group} {index : Nat}
    (member : u.tag.name = group.member index) :
    (v.deed = .completed ∧ ∃ index', v.tag.name = group.member index' ∧
      (r.turn now v.tag v.deed).outstanding group = (r.outstanding group).erase index') ∨
    (¬(v.deed = .completed ∧ ∃ index', v.tag.name = group.member index') ∧
      (r.turn now v.tag v.deed).outstanding group = r.outstanding group) := by
  by_cases sibling : v.deed = .completed ∧ ∃ index', v.tag.name = group.member index'
  · obtain ⟨completes, index', member'⟩ := sibling
    exact .inl ⟨completes, index', member', outstanding_turn_of_completed r completes member'⟩
  · refine .inr ⟨sibling, outstanding_turn r (both.caller_ne member) fun completes index' own => ?_⟩
    exact sibling ⟨completes, index', own⟩

theorem outstanding (now : Nat) :
    ((r.turn now u.tag u.deed).turn now v.tag v.deed).outstanding =
      ((r.turn now v.tag v.deed).turn now u.tag u.deed).outstanding := by
  funext group
  -- a turn that does not matter to the group comes first or last
  have half {u v : Turn σ} (caller : group.caller ≠ v.tag.next)
      (elsewhere : v.deed = .completed → ∀ index, v.tag.name ≠ group.member index) :
      ((r.turn now u.tag u.deed).turn now v.tag v.deed).outstanding group =
        ((r.turn now v.tag v.deed).turn now u.tag u.deed).outstanding group := by
    rw [outstanding_turn _ caller elsewhere]
    exact (outstanding_turn_congr (outstanding_turn r caller elsewhere) now u.tag u.deed).symm
  by_cases ofV : group.caller ≠ v.tag.next ∧
      (v.deed = .completed → ∀ index, v.tag.name ≠ group.member index)
  · exact half ofV.1 ofV.2
  · by_cases ofU : group.caller ≠ u.tag.next ∧
        (u.deed = .completed → ∀ index, u.tag.name ≠ group.member index)
    · exact (half ofU.1 ofU.2).symm
    · have matters {u v : Turn σ} (both : Both r u v)
          (ofU : ¬(group.caller ≠ u.tag.next ∧
            (u.deed = .completed → ∀ index, u.tag.name ≠ group.member index)))
          (ofV : ¬(group.caller ≠ v.tag.next ∧
            (v.deed = .completed → ∀ index, v.tag.name ≠ group.member index))) :
          u.deed = .completed ∧ ∃ index, u.tag.name = group.member index := by
        by_contra apart
        have elsewhere : u.deed = .completed → ∀ index, u.tag.name ≠ group.member index :=
          fun completes index own => apart ⟨completes, index, own⟩
        have caller : group.caller = u.tag.next :=
          Classical.byContradiction fun other => ofU ⟨other, elsewhere⟩
        refine ofV ⟨fun caller' => both.next_ne (caller.symm.trans caller'),
          fun _ index own => both.symm.caller_ne own caller⟩
      obtain ⟨completes, i, member⟩ := matters both ofU ofV
      obtain ⟨completes', j, member'⟩ := matters both.symm ofV ofU
      rw [outstanding_turn_of_completed _ completes' member',
        outstanding_turn_of_completed _ completes member,
        outstanding_turn_of_completed _ completes member,
        outstanding_turn_of_completed _ completes' member', List.erase_comm]

/-- What `v` issues is left alone by `u`, in whichever order they come. -/
theorem fired_of_issued (now : Nat) {t : Tag} (issued : t ∈ v.issues) :
    ((r.turn now u.tag u.deed).turn now v.tag v.deed).fired t =
      ((r.turn now v.tag v.deed).turn now u.tag u.deed).fired t := by
  obtain rfl | ⟨p, i, made, rfl⟩ := Turn.mem_issues_iff.mp issued
  · rw [fired_turn_self, eq_comm, Bool.eq_false_iff]
    intro fired
    rcases (fired_turn _ both.next_ne.symm fun p i _ same =>
      Nat.succ_ne_zero _ (congrArg Tag.count same)).mp fired with
        fired | ⟨-, group, index, member, caller, -⟩
    · rw [fired_turn_self] at fired
      cases fired
    · exact both.caller_ne member caller
  · rw [fired_turn_of_isSome _ made, eq_comm]
    refine (fired_turn _ (fun same => ?_) fun q j _ same => ?_).mpr
      (.inl (fired_turn_of_isSome r made))
    · exact Nat.succ_ne_zero _ (congrArg Tag.count same).symm
    · exact both.member_ne_member q j p i (congrArg Tag.name same).symm

/-- The last of the two that completes a group fires its caller. -/
theorem releases (now : Nat) {t : Tag}
    (released : r.Releases u t ∨ (r.turn now u.tag u.deed).Releases v t) :
    r.Releases v t ∨ (r.turn now v.tag v.deed).Releases u t := by
  rcases released with ⟨completes, group, index, member, caller, empty⟩ |
    ⟨completes, group, index, member, caller, empty⟩
  · refine .inr ⟨completes, group, index, member, caller, ?_⟩
    rcases both.outstanding_cases now member with ⟨-, index', -, erased⟩ | ⟨-, same⟩
    · rw [erased, List.erase_comm, empty, List.erase_nil]
    · rw [same, empty]
  · rcases both.symm.outstanding_cases now member with ⟨completes', index', member', erased⟩ |
      ⟨-, same⟩
    · refine .inr ⟨completes', group, index', member', caller, ?_⟩
      rw [erased, List.erase_comm] at empty
      rwa [outstanding_turn_of_completed r completes member]
    · rw [same] at empty
      exact .inl ⟨completes, group, index, member, caller, empty⟩

theorem fired (now : Nat) :
    ((r.turn now u.tag u.deed).turn now v.tag v.deed).fired =
      ((r.turn now v.tag v.deed).turn now u.tag u.deed).fired := by
  funext t
  by_cases ofV : t ∈ v.issues
  · exact both.fired_of_issued now ofV
  · by_cases ofU : t ∈ u.issues
    · exact (both.symm.fired_of_issued now ofU).symm
    · rw [Bool.eq_iff_iff, fired_turn_of_old _ now ofV, fired_turn_of_old _ now ofU,
        fired_turn_of_old _ now ofU, fired_turn_of_old _ now ofV, or_assoc, or_assoc]
      exact or_congr_right ⟨both.releases now, both.symm.releases now⟩

/-- Turns of different waiters can be taken in either order. -/
theorem turn_comm (now : Nat) :
    (r.turn now u.tag u.deed).turn now v.tag v.deed =
      (r.turn now v.tag v.deed).turn now u.tag u.deed := by
  refine Roster.ext (both.seat now) (both.fired now) (both.triggers now) (both.outstanding now) ?_
  simp only [wakes_turn]
  exact add_left_comm ..

/-- Whoever may take a turn may still take it after the turn of another waiter. -/
theorem takes (now : Nat) : (r.turn now u.tag u.deed).Takes v := by
  obtain ⟨⟨body, alive, follows⟩, fired⟩ := both.second
  obtain ⟨alive', fires⟩ := both.lineal.stays both.first now alive both.apart.symm
  exact ⟨⟨body, alive', follows⟩, fires fired⟩

end Both

end Roster

end DeltaCycle
