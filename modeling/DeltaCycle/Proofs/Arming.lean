import DeltaCycle.Proofs.Rounds
import DeltaCycle.Proofs.Tracks
import DeltaCycle.Proofs.Surroundings

/-!
# Arming a waiter

To arm a waiter on alternatives is to do the same on the roster. The waiters that are made on
the way get names that nobody had, since nobody can have been made by an arming that has only
just been issued.
-/

set_option autoImplicit false

namespace DeltaCycle

open Roster

variable {σ ω : Type}

theorem Alternative.issues_of_bodies {alternative : Alternative σ} {me : Tag} {place : Nat}
    (childless : alternative.bodies = []) : alternative.issues me place = [] := by
  rw [issues, childless]
  rfl

/-- A waiter is about to be armed on the alternative at a place. -/
structure Armed (marks : Marks) (r : Roster σ) (me : Arming) (tag : Tag) (place : Nat) : Prop where
  tagged : marks.tag me = some tag
  current : Current r.seat tag
  idle : r.fired tag = false
  unmade : ∀ p, place ≤ p → Unmade r.seat ⟨tag, p⟩
  unopened : ∀ p, place ≤ p → ∀ key, marks.group key ≠ some ⟨tag, p⟩

/-- Nothing is left undone for the waiter by the arming on an alternative. -/
theorem Armed.step {marks marks' : Marks} {r : Roster σ} {me : Arming} {tag : Tag} {place : Nat}
    (armed : Armed marks r me tag place) (now : Nat) (alternative : Alternative σ)
    (tagged : marks'.tag me = some tag)
    (unopened : ∀ group, group ≠ ⟨tag, place⟩ → ∀ key, marks.group key ≠ some group →
      marks'.group key ≠ some group) :
    Armed marks' (r.armOn now tag place alternative) me tag (place + 1) := by
  have own (index : Nat) : tag.name ≠ Group.member ⟨tag, place⟩ index :=
    (Group.member_ne_caller ⟨tag, place⟩ index).symm
  refine ⟨tagged, ?_, ?_, fun p le index => ?_, fun p le key => ?_⟩
  · obtain ⟨body, alive⟩ := armed.current
    exact ⟨body, (r.seat_armOn_of_ne own).trans alive⟩
  · exact (r.fired_armOn_of_ne own).trans armed.idle
  · have apart : (⟨tag, p⟩ : Group) ≠ ⟨tag, place⟩ := by
      intro same
      cases same
      exact Nat.not_succ_le_self _ le
    exact (r.seat_armOn_of_ne (Group.member_ne_of_ne apart index)).trans
      (armed.unmade p (Nat.le_of_succ_le le) index)
  · have apart : (⟨tag, p⟩ : Group) ≠ ⟨tag, place⟩ := by
      intro same
      cases same
      exact Nat.not_succ_le_self _ le
    exact unopened _ apart key (armed.unopened p (Nat.le_of_succ_le le) key)

theorem Simulation.addBranch_eq {B : Behaviours σ ω} (s : Simulation σ ω) (group : Nat)
    (clause : Clause σ) :
    ∃ title, s.addBranch B group clause =
      s.addWaiter title clause.branchBody (some (.join group)) := by
  cases clause <;> exact ⟨_, rfl⟩

theorem Simulation.kernel_foldl_addBranch (B : Behaviours σ ω) (s : Simulation σ ω) (group : Nat)
    (clauses : List (Clause σ)) : (clauses.foldl (addBranch B group) s).kernel = s.kernel := by
  obtain ⟨waiters, ready, same⟩ := addBranches_spec B s group clauses
  rw [same]

theorem Alternative.isAccepted_of_committed {k k' : Kernel} (same : k'.committed = k.committed)
    (alternative : Alternative σ) : alternative.isAccepted k' = alternative.isAccepted k := by
  cases alternative with
  | trigger t => exact Kernel.isSome_signal?_of_committed same t.signal
  | delay ticks => simp only [isAccepted, Kernel.now_of_committed same]
  | noop => rfl
  | spawn child => rfl
  | join clauses => rfl
  | refused e => rfl

theorem Simulation.armOn_of_refused {B : Behaviours σ ω} {s : Simulation σ ω} {me : Arming}
    {alternative : Alternative σ} (refused : alternative.isAccepted s.kernel = false) :
    ∃ e, s.armOn B me alternative = (s, .error e) := by
  cases alternative with
  | trigger t =>
      have unknown : s.kernel.signal? t.signal = none := by
        rwa [Alternative.isAccepted, Option.isSome_eq_false_iff, Option.isNone_iff_eq_none] at refused
      exact ⟨.unknownSignal t.signal.index, by simp only [armOn, watch, unknown]⟩
  | delay ticks =>
      have beyond : ¬s.kernel.now + ticks ≤ lastTick := of_decide_eq_false refused
      exact ⟨.timeOverflow s.kernel.now ticks, by simp only [armOn, wakeAfter, after, if_neg beyond]⟩
  | noop => cases refused
  | spawn child => cases refused
  | join clauses => cases refused
  | refused e => exact ⟨e, rfl⟩

theorem Simulation.armOn_of_accepted {B : Behaviours σ ω} {s : Simulation σ ω} {me : Arming}
    {alternative : Alternative σ} (accepted : alternative.isAccepted s.kernel = true) :
    ∃ s', s.armOn B me alternative = (s', .ok ()) := by
  cases alternative with
  | trigger t =>
      obtain ⟨signal, found⟩ := Option.isSome_iff_exists.mp accepted
      simp only [armOn, watch, found]
      exact ⟨_, rfl⟩
  | delay ticks =>
      have inRange : s.kernel.now + ticks ≤ lastTick := of_decide_eq_true accepted
      simp only [armOn, wakeAfter, after, if_pos inRange]
      exact ⟨_, rfl⟩
  | noop => exact ⟨_, rfl⟩
  | spawn child => exact ⟨_, rfl⟩
  | join clauses => exact ⟨_, rfl⟩
  | refused e => cases accepted

/-- A waiter is armed up to the first alternative that is refused. -/
theorem Simulation.armOnAll_of_refused (B : Behaviours σ ω) {s : Simulation σ ω} (me : Arming)
    {alternative : Alternative σ} (refused : alternative.isAccepted s.kernel = false)
    (rest : List (Alternative σ)) :
    ∃ e, s.armOnAll B me (alternative :: rest) = (s, .error e) := by
  obtain ⟨e, refuses⟩ : ∃ e, s.armOn B me alternative = (s, .error e) := armOn_of_refused refused
  exact ⟨e, by rw [armOnAll, refuses]⟩

theorem Simulation.armOnAll_of_accepted (B : Behaviours σ ω) {s : Simulation σ ω} (me : Arming)
    {alternative : Alternative σ} (accepted : alternative.isAccepted s.kernel = true)
    (rest : List (Alternative σ)) :
    ∃ s₁, s.armOn B me alternative = (s₁, .ok ()) ∧
      s.armOnAll B me (alternative :: rest) = s₁.armOnAll B me rest ∧
      s₁.kernel.committed = s.kernel.committed := by
  obtain ⟨s₁, granted⟩ : ∃ s₁, s.armOn B me alternative = (s₁, .ok ()) :=
    armOn_of_accepted accepted
  have same := surroundings_armOn B s me alternative
  rw [granted] at same
  exact ⟨s₁, granted, by rw [armOnAll, granted], congrArg Surroundings.kernel same⟩

namespace Tracks

variable {B : Behaviours σ ω} {ledger : List Tag} {s : Simulation σ ω} {marks : Marks}
  {r : Roster σ} (h : Tracks ledger s marks r)

include h

/-! ## Making waiters -/

theorem addWaiter {name : Name} {parent : Option Continuation} (title : String) (body : Body σ)
    (unborn : r.seat name = .unborn)
    (lineage : ∀ group index, name = Group.member group index → Known r.seat group.caller)
    (owes : Owes s.waiters.join? marks r.outstanding name parent) :
    Tracks (ledger ++ [⟨name, 0⟩]) (s.addWaiter title body parent)
      (marks.issue s.waiters.upcoming ⟨name, 0⟩) (r.bear name body) := by
  have fresh : marks.tag s.waiters.upcoming = none := h.seats.tag_of_fresh
  have unknown : ∀ a, marks.tag a ≠ some ⟨name, 0⟩ :=
    fun a tagged => (h.seats.entered tagged).2.2.1 unborn
  have fewer : ∀ tag, tag ≠ ⟨name, 0⟩ →
      Current (Function.update r.seat name (.alive 0 (some body))) tag → Current r.seat tag :=
    fun _ other current => current_of_update _ current other
  have inserted := WaiterTable.insert_fst s.waiters title body parent
  refine ⟨h.seats.bear title body unborn lineage owes, ?_, ?_, ?_⟩
  · have marked := h.marked.issue fresh unknown fewer true
    rw [if_pos rfl, ← inserted, ← Fifo.toList_push] at marked
    rw [← inserted]
    exact marked
  · exact h.watched.issue fresh unknown fewer true
  · exact h.awaited.extend h.seats.tag_issue

/-- The branches of a join are made one after the other. -/
theorem addBranches {group : Group} {key : Nat} {open_ : JoinGroup}
    (clauses : List (Clause σ)) (index : Nat) (assigned : marks.group key = some group)
    (found : s.waiters.join? key = some open_)
    (tagged : marks.tag open_.caller = some group.caller)
    (counted : open_.remaining = (r.outstanding group).length)
    (listed : ∀ j, index ≤ j → j < index + clauses.length → j ∈ r.outstanding group)
    (unmade : ∀ j, index ≤ j → r.seat (group.member j) = .unborn)
    (known : Known r.seat group.caller) :
    ∃ marks', Tracks (ledger ++ (List.range' index clauses.length).map fun j => ⟨group.member j, 0⟩)
        (clauses.foldl (Simulation.addBranch B key) s) marks'
        (r.bearAll group index (clauses.map Clause.branchBody)) ∧
      (∀ a tag, marks.tag a = some tag → marks'.tag a = some tag) ∧ marks'.group = marks.group := by
  induction clauses generalizing ledger s marks r index with
  | nil => exact ⟨marks, by rwa [List.length_nil, List.range'_zero, List.map_nil, List.append_nil],
      fun _ _ same => same, rfl⟩
  | cons clause rest ih =>
      have lineage : ∀ group' index', group.member index = Group.member group' index' →
          Known r.seat group'.caller := by
        intro group' index' member
        obtain ⟨rfl, -⟩ := Group.member_inj member
        exact known
      have owes : Owes s.waiters.join? marks r.outstanding (group.member index)
          (some (.join key)) :=
        .join assigned found tagged counted
          (listed index (Nat.le_refl _) (Nat.lt_add_of_pos_right (Nat.succ_pos _)))
      obtain ⟨title, added⟩ := Simulation.addBranch_eq (B := B) s key clause
      have unborn := unmade index (Nat.le_refl _)
      have born := h.addWaiter title clause.branchBody unborn lineage owes
      have extends_ (a : Arming) (tag : Tag) (same : marks.tag a = some tag) :
          (marks.issue s.waiters.upcoming ⟨group.member index, 0⟩).tag a = some tag :=
        h.seats.tag_issue a tag same
      have found' : (s.addWaiter title clause.branchBody (some (.join key))).waiters.join? key =
          some open_ := (WaiterTable.join?_insert ..).trans found
      have listed' : ∀ j, index + 1 ≤ j → j < index + 1 + rest.length → j ∈ r.outstanding group := by
        intro j le lt
        refine listed j (Nat.le_of_succ_le le) ?_
        rw [List.length_cons]
        omega
      have unmade' : ∀ j, index + 1 ≤ j →
          (r.bear (group.member index) clause.branchBody).seat (group.member j) = .unborn := by
        intro j le
        have apart : group.member j ≠ group.member index := by
          intro same
          have equal := (Group.member_inj same).2
          omega
        exact (Function.update_of_ne apart ..).trans (unmade j (Nat.le_of_succ_le le))
      obtain ⟨marks', tracks, kept, groups⟩ := ih born (index + 1) assigned found'
        (extends_ _ _ tagged) counted listed' unmade' (known.mono (grows_bear unborn _))
      refine ⟨marks', ?_, fun a tag same => kept a tag (extends_ a tag same), groups⟩
      rw [List.foldl_cons, added, List.map_cons, bearAll, List.length_cons, List.range'_succ,
        List.map_cons]
      rw [List.append_assoc] at tracks
      exact tracks

/-! ## Alternatives -/

theorem watch {me : Arming} {tag : Tag} {trigger : Trigger} (tagged : marks.tag me = some tag)
    (current : Current r.seat tag) (known : (s.kernel.signal? trigger.signal).isSome = true) :
    ∃ s', s.watch me trigger = (s', .ok ()) ∧
      Tracks ledger s' marks
        { r with triggers := Function.update r.triggers tag (r.triggers tag ++ [trigger]) } := by
  obtain ⟨signal, found⟩ := Option.isSome_iff_exists.mp known
  obtain ⟨body, alive⟩ := current
  obtain ⟨waiter, held, token, rfl⟩ := h.seats.found_of_alive tagged alive
  have armed : s.watch me trigger =
      ({ s with
          kernel := s.kernel.modify trigger.signal fun signal =>
            { signal with waits := Simulation.enlist me signal.waits trigger }
          waiters := s.waiters.noteSubscription me.slot trigger.signal },
        .ok ()) := by
    simp only [Simulation.watch, found]
  refine ⟨_, armed, ?_, h.marked, ?_, h.awaited⟩
  · have tagged' : marks.tag ⟨me.slot, waiter.token⟩ = some tag := by
      rw [token]
      exact tagged
    have noted := h.seats.modify held tagged'
      (fun w => { w with subscriptions := trigger.signal :: w.subscriptions }) rfl rfl
    have same : Function.update r.seat tag.name (.alive tag.count waiter.body) = r.seat := by
      rw [← alive]
      exact Function.update_eq_self ..
    rw [same] at noted
    exact noted
  · have lists := funext fun t => Kernel.watchers_watch known me t
    have watched := h.watched.watch h.seats.injective tagged trigger
    rw [← lists] at watched
    exact watched

theorem pushWake {me : Arming} {tag : Tag} (tagged : marks.tag me = some tag) (time : Nat) :
    Tracks ledger { s with queue := s.queue.push time (.wake me) } marks
      { r with wakes := (time, tag) ::ₘ r.wakes } := by
  refine ⟨h.seats, h.marked, h.watched, ?_⟩
  rw [EventQueue.wakes_push_wake]
  exact h.awaited.push time tagged

theorem setOutstanding {group : Group} (unmade : Unmade r.seat group) (indices : List Nat) :
    Tracks ledger s marks
      { r with outstanding := Function.update r.outstanding group indices } :=
  ⟨h.seats.setOutstanding unmade indices, h.marked, h.watched, h.awaited⟩

/-- A child is made, and its caller owes it the rest of its turn. -/
theorem spawn {me : Arming} {tag : Tag} {place : Nat} (armed : Armed marks r me tag place)
    (child : σ) :
    Tracks (ledger ++ (Alternative.spawn child).issues tag place)
      (s.addWaiter (B.name child) (.process child) (some (.resume me)))
      (marks.issue s.waiters.upcoming ⟨Group.member ⟨tag, place⟩ 0, 0⟩)
      (r.armOn s.kernel.now tag place (.spawn child)) := by
  have unmade := armed.unmade place (Nat.le_refl _)
  have lineage : ∀ group index, Group.member ⟨tag, place⟩ 0 = Group.member group index →
      Known r.seat group.caller := by
    intro group index member
    obtain ⟨rfl, -⟩ := Group.member_inj member
    exact armed.current.known
  have owes : Owes s.waiters.join? marks (Function.update r.outstanding ⟨tag, place⟩ [0])
      (Group.member ⟨tag, place⟩ 0) (some (.resume me)) :=
    .caller armed.tagged (Function.update_self ..)
  exact (h.setOutstanding unmade [0]).addWaiter (B.name child) (.process child) (unmade 0) lineage
    owes

/-- A group is opened for the branches of a join, and then they are made. -/
theorem join {me : Arming} {tag : Tag} {place : Nat} (armed : Armed marks r me tag place)
    (clauses : List (Clause σ)) :
    ∃ marks', Tracks (ledger ++ (Alternative.join clauses).issues tag place)
        (clauses.foldl (Simulation.addBranch B s.waiters.upcomingJoin)
          { s with waiters := (s.waiters.openJoin clauses.length me).2 }) marks'
        (r.armOn s.kernel.now tag place (.join clauses)) ∧
      (∀ a tag, marks.tag a = some tag → marks'.tag a = some tag) ∧
      marks'.group = (marks.assign s.waiters.upcomingJoin ⟨tag, place⟩).group := by
  have unmade := armed.unmade place (Nat.le_refl _)
  have unopened := armed.unopened place (Nat.le_refl _)
  have known : Known r.seat tag := armed.current.known
  have opened : Tracks ledger
      { s with waiters := (s.waiters.openJoin clauses.length me).2 }
      (marks.assign s.waiters.upcomingJoin ⟨tag, place⟩)
      { r with outstanding :=
          Function.update r.outstanding ⟨tag, place⟩ (List.range clauses.length) } :=
    ⟨(h.seats.openJoin known unopened clauses.length me).setOutstanding unmade _, h.marked,
      h.watched, h.awaited⟩
  have outstanding : Function.update r.outstanding ⟨tag, place⟩ (List.range clauses.length)
      ⟨tag, place⟩ = List.range clauses.length := Function.update_self ..
  have listed (j : Nat) (lt : j < 0 + clauses.length) :
      j ∈ Function.update r.outstanding ⟨tag, place⟩ (List.range clauses.length)
        ⟨tag, place⟩ := by
    rw [outstanding, List.mem_range]
    omega
  have counted : clauses.length = (Function.update r.outstanding ⟨tag, place⟩
      (List.range clauses.length) ⟨tag, place⟩).length := by
    rw [outstanding, List.length_range]
  have found := (h.seats.wellFormed.join?_openJoin clauses.length me
    s.waiters.upcomingJoin).trans (if_pos rfl)
  obtain ⟨marks', tracks, kept, groups⟩ := opened.addBranches (B := B) clauses 0
    (Marks.group_assign_self ..) found armed.tagged counted (fun j _ => listed j)
    (fun j _ => unmade j) known
  refine ⟨marks', ?_, kept, groups⟩
  rw [Alternative.issues, Alternative.bodies, List.length_map, List.range_eq_range']
  rw [Roster.armOn, openGroup, List.length_map]
  exact tracks

/-- A waiter is armed on an alternative that is not refused. -/
theorem armOn {me : Arming} {tag : Tag} {place : Nat} (armed : Armed marks r me tag place)
    {alternative : Alternative σ} (accepted : alternative.isAccepted s.kernel = true) :
    ∃ s' marks', s.armOn B me alternative = (s', .ok ()) ∧
      Tracks (ledger ++ alternative.issues tag place) s' marks'
        (r.armOn s.kernel.now tag place alternative) ∧
      Armed marks' (r.armOn s.kernel.now tag place alternative) me tag (place + 1) := by
  have tagged := armed.tagged
  cases alternative with
  | trigger t =>
      obtain ⟨s', watched, tracks⟩ := h.watch tagged armed.current accepted
      refine ⟨s', marks, watched, ?_, armed.step _ _ tagged fun _ _ _ => id⟩
      rw [Alternative.issues_of_bodies rfl, List.append_nil]
      exact tracks
  | delay ticks =>
      have inRange : s.kernel.now + ticks ≤ lastTick := of_decide_eq_true accepted
      have waits : s.armOn B me (.delay ticks) =
          ({ s with queue := s.queue.push (s.kernel.now + ticks) (.wake me) }, .ok ()) := by
        simp only [Simulation.armOn, Simulation.wakeAfter, Simulation.after, if_pos inRange]
      refine ⟨_, marks, waits, ?_, armed.step _ _ tagged fun _ _ _ => id⟩
      rw [Alternative.issues_of_bodies rfl, List.append_nil]
      exact h.pushWake tagged _
  | noop =>
      refine ⟨_, marks, rfl, ?_, armed.step _ _ tagged fun _ _ _ => id⟩
      rw [Alternative.issues_of_bodies rfl, List.append_nil]
      exact h.pushWake tagged _
  | spawn child =>
      have born := h.spawn (B := B) armed child
      exact ⟨_, _, rfl, born, armed.step _ _ (h.seats.tag_issue _ _ tagged) fun _ _ _ => id⟩
  | join clauses =>
      obtain ⟨marks', tracks, kept, groups⟩ := h.join (B := B) armed clauses
      have joined : s.armOn B me (.join clauses) =
          (clauses.foldl (Simulation.addBranch B s.waiters.upcomingJoin)
            { s with waiters := (s.waiters.openJoin clauses.length me).2 }, .ok ()) := by
        simp only [Simulation.armOn, WaiterTable.openJoin_fst]
      refine ⟨_, marks', joined, tracks, armed.step _ _ (kept _ _ tagged) ?_⟩
      intro group apart key free
      rw [groups]
      by_cases here : key = s.waiters.upcomingJoin
      · subst here
        rw [Marks.group_assign_self]
        exact fun same => apart (Option.some.inj same).symm
      · rw [Marks.group_assign_of_ne _ _ here]
        exact free
  | refused e => cases accepted

/-- A waiter is armed on alternatives up to the first that is refused. -/
theorem armOnAll {me : Arming} {tag : Tag} {place : Nat} (armed : Armed marks r me tag place)
    (alternatives : List (Alternative σ)) :
    ∃ s' marks' result, s.armOnAll B me alternatives = (s', result) ∧
      (if alternatives.all (·.isAccepted s.kernel) then result = .ok ()
        else ∃ e, result = .error e) ∧
      Tracks
        (ledger ++
          Alternative.issuesOfAll tag place (alternatives.takeWhile (·.isAccepted s.kernel)))
        s' marks'
        (r.armOnAll s.kernel.now tag place (alternatives.takeWhile (·.isAccepted s.kernel))) ∧
      ∃ place', Armed marks'
        (r.armOnAll s.kernel.now tag place (alternatives.takeWhile (·.isAccepted s.kernel)))
        me tag place' := by
  induction alternatives generalizing ledger s marks r place with
  | nil =>
      refine ⟨s, marks, .ok (), rfl, by simp, ?_, place, armed⟩
      rw [List.takeWhile_nil, Alternative.issuesOfAll, List.append_nil]
      exact h
  | cons alternative rest ih =>
      cases accepted : alternative.isAccepted s.kernel with
      | false =>
          obtain ⟨e, refused⟩ := Simulation.armOnAll_of_refused B me accepted rest
          refine ⟨s, marks, .error e, refused, ?_, ?_, place, ?_⟩
          · simp [accepted]
          · rw [List.takeWhile_cons, accepted, if_neg Bool.false_ne_true, Alternative.issuesOfAll,
              List.append_nil]
            exact h
          · rw [List.takeWhile_cons, accepted, if_neg Bool.false_ne_true]
            exact armed
      | true =>
          obtain ⟨s₁, marks₁, done, tracks, armed'⟩ := h.armOn (B := B) armed accepted
          obtain ⟨s₁, granted, goesOn, committed⟩ :=
            Simulation.armOnAll_of_accepted B me accepted rest
          cases granted.symm.trans done
          have same : (fun a : Alternative σ => a.isAccepted s₁.kernel) =
              fun a => a.isAccepted s.kernel :=
            funext fun a => Alternative.isAccepted_of_committed committed a
          have now := Kernel.now_of_committed committed
          obtain ⟨s', marks', result, done', outcome, tracks', last⟩ := ih tracks armed'
          rw [same, now] at tracks' last
          rw [same] at outcome
          rw [List.append_assoc] at tracks'
          refine ⟨s', marks', result, goesOn.trans done', ?_, ?_, ?_⟩
          · rw [List.all_cons, accepted, Bool.true_and]
            exact outcome
          · rw [List.takeWhile_cons, accepted, if_pos rfl]
            exact tracks'
          · rw [List.takeWhile_cons, accepted, if_pos rfl]
            exact last

end Tracks

end DeltaCycle
