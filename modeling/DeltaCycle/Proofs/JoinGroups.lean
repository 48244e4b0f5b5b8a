import DeltaCycle.Proofs.Equipment
import DeltaCycle.Proofs.FailedRounds
import DeltaCycle.Proofs.History
import DeltaCycle.Proofs.Tallies
import DeltaCycle.Proofs.WakeUps

/-!
# Join groups

As long as no waiter has failed, each open join group counts the branches that have not completed,
and is closed by the last of them. A waiter that is being armed on a join is owed its branches, and
one that completes has left before its group is counted down; between resumes nothing is owed.
-/

set_option autoImplicit false

namespace DeltaCycle

variable {σ ω : Type} {B : Behaviours σ ω}

namespace Simulation

open WaiterTable

variable {s s' : Simulation σ ω} {ledger : List Tag} {clauseOf : Nat → Option Group} {me : Arming}
  {tag : Tag}

/-- Nobody runs, and every group counts its branches. -/
structure Balanced (ledger : List Tag) (clauseOf : Nat → Option Group) (s : Simulation σ ω) : Prop
    where
  tallied : s.waiters.Tallied ledger clauseOf 0
  rests : s.waiters.Rests none

theorem Balanced.of_waiters (h : Balanced ledger clauseOf s) (same : s'.waiters = s.waiters) :
    Balanced ledger clauseOf s' := by
  constructor
  · rw [same]
    exact h.tallied
  · rw [same]
    exact h.rests

/-! ## Arming -/

theorem Balanced.addWaiter (h : Balanced ledger clauseOf s) (title : String) (body : Body σ)
    {parent : Option Continuation} (tag : Tag) (alone : ∀ key, parent ≠ some (.join key)) :
    Balanced (ledger ++ [tag]) clauseOf (s.addWaiter title body parent) where
  tallied := by
    refine h.tallied.insert title body (fun key => ?_) fun key owing => absurd owing (alone key)
    rw [if_neg (alone key)]
    rfl
  rests := h.rests.insert h.tallied.wellFormed title body parent

/-- The branches that a group is owed are made. -/
theorem Balanced.addBranches {group : Group} {key : Nat} (clauses : List (Clause σ)) (index : Nat)
    (tallied : s.waiters.Tallied ledger clauseOf (Pi.single key clauses.length))
    (rests : s.waiters.Rests none) (assigned : clauseOf key = some group)
    (isOpen : (s.waiters.join? key).isSome) :
    Balanced (ledger ++ (List.range' index clauses.length).map fun j => ⟨group.member j, 0⟩)
      clauseOf (clauses.foldl (addBranch B key) s) := by
  induction clauses generalizing s ledger index with
  | nil =>
      rw [List.length_nil, Pi.single_zero] at tallied
      rw [List.length_nil, List.range'_zero, List.map_nil, List.append_nil]
      exact ⟨tallied, rests⟩
  | cons clause rest ih =>
      obtain ⟨title, added⟩ := addBranch_eq (B := B) s key clause
      have made : (s.waiters.insert title clause.branchBody (some (.join key))).2.Tallied
          (ledger ++ [⟨group.member index, 0⟩]) clauseOf (Pi.single key rest.length) := by
        refine tallied.insert title clause.branchBody (single_succ key rest.length) ?_
        intro x same
        cases same
        exact ⟨isOpen, group, index, 0, assigned, rfl⟩
      have rests' := rests.insert tallied.wellFormed title clause.branchBody (some (.join key))
      have isOpen' := isOpen
      rw [← join?_insert s.waiters title clause.branchBody (some (.join key))] at isOpen'
      have balanced := ih (s := s.addWaiter title clause.branchBody (some (.join key)))
        (index + 1) made rests' isOpen'
      rw [List.append_assoc] at balanced
      rw [List.foldl_cons, added, List.length_cons, List.range'_succ, List.map_cons]
      exact balanced

theorem sameGroups_addBranches (s : Simulation σ ω) (key : Nat) (clauses : List (Clause σ)) :
    SameGroups s.waiters (clauses.foldl (addBranch B key) s).waiters := by
  induction clauses generalizing s with
  | nil => exact ⟨rfl, rfl⟩
  | cons clause rest ih =>
      obtain ⟨title, added⟩ := addBranch_eq (B := B) s key clause
      rw [List.foldl_cons, added]
      have first := s.waiters.sameGroups_insert title clause.branchBody (some (.join key))
      exact first.trans (ih (s.addWaiter title clause.branchBody (some (.join key))))

theorem waiters_wakeAfter (s : Simulation σ ω) (me : Arming) (ticks : Nat) :
    (s.wakeAfter me ticks).1.waiters = s.waiters := by
  unfold wakeAfter
  cases s.after ticks <;> rfl

theorem waiters_watch (s : Simulation σ ω) (me : Arming) (trigger : Trigger) :
    (s.watch me trigger).1.waiters = s.waiters ∨
      (s.watch me trigger).1.waiters = s.waiters.noteSubscription me.slot trigger.signal := by
  unfold watch
  cases s.kernel.signal? trigger.signal with
  | none => exact .inl rfl
  | some signal => exact .inr rfl

theorem Balanced.armOn (h : Balanced ledger clauseOf s) (entry : ledger[me.token - 1]? = some tag)
    (place : Nat) {alternative : Alternative σ} (nonempty : alternative ≠ .join []) :
    Balanced (ledger ++ alternative.issues tag place)
      (s.waiters.register me tag place clauseOf [alternative]) (s.armOn B me alternative).1 := by
  have childless (none : alternative.bodies = []) :
      ledger ++ alternative.issues tag place = ledger := by
    rw [Alternative.issues_of_bodies none, List.append_nil]
  cases alternative with
  | trigger t =>
      rw [childless rfl]
      rcases waiters_watch s me t with same | noted
      · exact h.of_waiters same
      · constructor
        · change (s.watch me t).1.waiters.Tallied _ _ _
          rw [noted]
          exact h.tallied.modify me.slot (fun _ => rfl) fun _ => rfl
        · change (s.watch me t).1.waiters.Rests _
          rw [noted]
          exact h.rests.modify me.slot fun _ => id
  | delay ticks =>
      rw [childless rfl]
      exact h.of_waiters (waiters_wakeAfter s me ticks)
  | noop =>
      rw [childless rfl]
      exact h.of_waiters rfl
  | spawn child => exact h.addWaiter _ _ _ nofun
  | join clauses =>
      -- A group without branches would never be closed.
      have positive : 0 < clauses.length := by
        refine List.length_pos_of_ne_nil fun empty => nonempty ?_
        rw [empty]
      have opened := h.tallied.openJoin ⟨tag, place⟩ positive entry
      rw [← openJoin_fst s.waiters clauses.length me] at opened
      have rests := h.rests.of_waiters (s.waiters.openJoin_kept clauses.length me).2
      have isOpen : ((s.waiters.openJoin clauses.length me).2.join?
          (s.waiters.openJoin clauses.length me).1).isSome := by
        rw [h.tallied.wellFormed.join?_openJoin, openJoin_fst, if_pos rfl]
        rfl
      have made := Balanced.addBranches (B := B)
        (s := { s with waiters := (s.waiters.openJoin clauses.length me).2 }) clauses 0 opened rests
        (Function.update_self ..) isOpen
      rw [Alternative.issues, Alternative.bodies, List.length_map, List.range_eq_range']
      exact made
  | refused e =>
      rw [childless rfl]
      exact h.of_waiters rfl

/-- The register is kept as the alternatives are come by. -/
theorem register_armOn (s : Simulation σ ω) (me : Arming) (tag : Tag) (place : Nat)
    (clauseOf : Nat → Option Group) (alternative : Alternative σ) (rest : List (Alternative σ)) :
    s.waiters.register me tag place clauseOf (alternative :: rest) =
      (s.armOn B me alternative).1.waiters.register me tag (place + 1)
        (s.waiters.register me tag place clauseOf [alternative]) rest := by
  cases alternative with
  | trigger t =>
      refine SameGroups.register ?_ me tag (place + 1) clauseOf rest
      rcases waiters_watch s me t with same | noted
      · exact same ▸ ⟨rfl, rfl⟩
      · exact noted ▸ ⟨rfl, rfl⟩
  | delay ticks =>
      have same := waiters_wakeAfter s me ticks
      refine SameGroups.register ?_ me tag (place + 1) clauseOf rest
      exact same ▸ ⟨rfl, rfl⟩
  | noop => rfl
  | spawn child =>
      exact (s.waiters.sameGroups_insert _ _ _).register me tag (place + 1) clauseOf rest
  | join clauses =>
      have same := sameGroups_addBranches (B := B)
        { s with waiters := (s.waiters.openJoin clauses.length me).2 }
        (s.waiters.openJoin clauses.length me).1 clauses
      exact same.register me tag (place + 1) _ rest
  | refused e => rfl

/-- Arming a waiter leaves the groups that are open. -/
theorem join?_armOn (wf : s.waiters.WellFormed) {key : Nat} {group : JoinGroup}
    (found : s.waiters.join? key = some group) (me : Arming) (alternative : Alternative σ) :
    (s.armOn B me alternative).1.waiters.join? key = some group := by
  cases alternative with
  | trigger t =>
      change (s.watch me t).1.waiters.join? key = some group
      rcases waiters_watch s me t with same | noted
      · rw [same]
        exact found
      · rw [noted]
        exact found
  | delay ticks =>
      change (s.wakeAfter me ticks).1.waiters.join? key = some group
      rw [waiters_wakeAfter]
      exact found
  | noop => exact found
  | spawn child => exact (join?_insert ..).trans found
  | join clauses =>
      have other : key ≠ s.waiters.upcomingJoin := by
        rintro rfl
        rw [wf.join?_upcomingJoin] at found
        cases found
      have same := sameGroups_addBranches (B := B)
        { s with waiters := (s.waiters.openJoin clauses.length me).2 }
        (s.waiters.openJoin clauses.length me).1 clauses
      have opened := wf.join?_openJoin clauses.length me key
      rw [if_neg other, found, join?, same.1] at opened
      exact opened
  | refused e => exact found

/-- A waiter that is armed on all alternatives has its branches, and what was open before is so
still. -/
theorem Balanced.armOnAll (h : Balanced ledger clauseOf s)
    (entry : ledger[me.token - 1]? = some tag) (place : Nat) {alternatives : List (Alternative σ)}
    (nonempty : ∀ alternative ∈ alternatives, alternative ≠ .join [])
    (armed : s.armOnAll B me alternatives = (s', .ok ())) :
    Balanced (ledger ++ Alternative.issuesOfAll tag place alternatives)
        (s.waiters.register me tag place clauseOf alternatives) s' ∧
      ∀ key group, s.waiters.join? key = some group → s'.waiters.join? key = some group := by
  induction alternatives generalizing s ledger clauseOf place with
  | nil =>
      cases armed
      rw [Alternative.issuesOfAll, List.append_nil]
      exact ⟨h, fun _ _ found => found⟩
  | cons alternative rest ih =>
      obtain ⟨first, others⟩ := List.forall_mem_cons.mp nonempty
      have one := h.armOn (B := B) entry place first
      have still (key : Nat) (group : JoinGroup) (found : s.waiters.join? key = some group) :=
        join?_armOn (B := B) h.tallied.wellFormed found me alternative
      rw [register_armOn (B := B), Alternative.issuesOfAll, ← List.append_assoc]
      rw [Simulation.armOnAll] at armed
      generalize s.armOn B me alternative = result at armed one still ⊢
      obtain ⟨s₁, e | ⟨⟩⟩ := result
      · cases armed
      · obtain ⟨balanced, kept⟩ := ih one (kept_entry entry _) (place + 1) others armed
        exact ⟨balanced, fun key group found => kept key group (still key group found)⟩

/-- Where nothing is refused, everything was accepted. -/
theorem accepted_of_armOnAll {alternatives : List (Alternative σ)}
    (armed : s.armOnAll B me alternatives = (s', .ok ())) :
    alternatives.all (·.isAccepted s.kernel) = true := by
  induction alternatives generalizing s with
  | nil => rfl
  | cons alternative rest ih =>
      cases accepted : alternative.isAccepted s.kernel with
      | false =>
          obtain ⟨e, refused⟩ := armOnAll_of_refused B me accepted rest
          rw [refused] at armed
          cases armed
      | true =>
          obtain ⟨s₁, -, goesOn, same⟩ := armOnAll_of_accepted B me accepted rest
          rw [goesOn] at armed
          have further := ih armed
          simp only [Alternative.isAccepted_of_committed same] at further
          rw [List.all_cons, accepted, further]
          rfl

/-! ## Acts -/

mutual

/-- A join without branches is refused before it gets to a waiter. -/
theorem nonempty_alternatives (clause : Clause σ) :
    ∀ alternative ∈ clause.alternatives, alternative ≠ .join [] := by
  cases clause with
  | any clauses =>
      cases clauses with
      | nil => simp [Clause.alternatives]
      | cons clause rest => exact nonempty_alternativesOfAll (clause :: rest)
  | join clauses => cases clauses <;> simp [Clause.alternatives]
  | _ => simp [Clause.alternatives]

theorem nonempty_alternativesOfAll (clauses : List (Clause σ)) :
    ∀ alternative ∈ Clause.alternativesOfAll clauses, alternative ≠ .join [] := by
  cases clauses with
  | nil => exact nofun
  | cons clause rest =>
      exact List.forall_mem_append.mpr
        ⟨nonempty_alternatives clause, nonempty_alternativesOfAll rest⟩

end

theorem nonempty_of_act {k k' : Kernel} {w w' : ω} {outputs : List SignalId}
    {body body' : Body σ} {alternatives : List (Alternative σ)}
    (acted : act B k w outputs body = some (.waits body' alternatives, k', w')) :
    ∀ alternative ∈ alternatives, alternative ≠ .join [] := by
  have way := way_of_act acted
  generalize waits : (.waits body' alternatives : Act σ) = done at way
  have sensitive (sensitivity : Sensitivity) :
      ∀ alternative ∈ sensitivity.alternatives (σ := σ), alternative ≠ .join [] := by
    cases sensitivity <;> simp [Sensitivity.alternatives]
  cases way with
  | @process state answer _ _ ran =>
      obtain e | ⟨state', clause⟩ | _ := answer <;> cases waits
      exact nonempty_alternatives clause
  | @shadow shadow answer _ resumed =>
      obtain e | _ | clause := answer <;> cases waits
      exact nonempty_alternatives clause
  | @reacts block answer _ _ ran =>
      obtain e | body := answer <;> cases waits
      exact sensitive _
  | joins => cases waits
  | branch clause =>
      cases waits
      exact nonempty_alternatives clause
  | begins block =>
      cases waits
      exact sensitive _
  | outputs =>
      cases waits
      simp

/-! ## Completing -/

theorem waiters_complete_branch {slot key : Nat} {waiter : Waiter (Body σ)}
    (found : s.waiters.waiter? slot = some waiter) (owing : waiter.parent = some (.join key)) :
    (s.complete slot).waiters = ((s.waiters.remove slot).2.completeBranch key).2 := by
  have removed : s.waiters.remove slot = (some (.join key), (s.waiters.remove slot).2) :=
    Prod.ext ((remove_fst found).trans owing) rfl
  unfold complete
  rw [removed]
  dsimp only
  generalize (s.waiters.remove slot).2.completeBranch key = result
  obtain ⟨_ | caller, waiters⟩ := result <;> rfl

theorem waiters_complete_alone {slot : Nat} {waiter : Waiter (Body σ)}
    (found : s.waiters.waiter? slot = some waiter)
    (alone : ∀ key, waiter.parent ≠ some (.join key)) :
    (s.complete slot).waiters = (s.waiters.remove slot).2 := by
  have removed : s.waiters.remove slot = (waiter.parent, (s.waiters.remove slot).2) :=
    Prod.ext (remove_fst found) rfl
  unfold complete
  rw [removed]
  rcases parent : waiter.parent with _ | caller | key
  · rfl
  · rfl
  · exact absurd parent (alone key)

/-- Whoever completes leaves, and the group that it is a branch of counts it off. -/
theorem balanced_complete {slot : Nat} {waiter : Waiter (Body σ)}
    (tallied : s.waiters.Tallied ledger clauseOf 0) (rests : s.waiters.Rests (some slot))
    (found : s.waiters.waiter? slot = some waiter) :
    Balanced ledger clauseOf (s.complete slot) := by
  by_cases branch : ∃ key, waiter.parent = some (.join key)
  · obtain ⟨key, owing⟩ := branch
    have left := waiters_complete_branch found owing
    constructor
    · rw [left]
      refine (tallied.remove found fun x => ?_).completeBranch
      rw [owing, single_succ, Pi.single_zero]
    · rw [left]
      exact rests.remove.of_waiters (completeBranch_kept _ key).2
  · have alone := not_exists.mp branch
    have left := waiters_complete_alone found alone
    constructor
    · rw [left]
      refine tallied.remove found fun key => ?_
      rw [if_neg (alone key)]
      rfl
    · rw [left]
      exact rests.remove

theorem join?_complete {slot : Nat} {waiter : Waiter (Body σ)}
    (found : s.waiters.waiter? slot = some waiter) (key : Nat) :
    (s.complete slot).waiters.join? key =
      if waiter.parent = some (.join key) then (s.waiters.join? key).bind JoinGroup.countDown
      else s.waiters.join? key := by
  by_cases branch : ∃ key', waiter.parent = some (.join key')
  · obtain ⟨key', owing⟩ := branch
    rw [waiters_complete_branch found owing, join?_completeBranch, join?_remove, join?_remove,
      owing]
    simp only [Option.some.injEq, Continuation.join.injEq, eq_comm (a := key)]
    split
    · next here => rw [here]
    · rfl
  · have alone := not_exists.mp branch
    rw [waiters_complete_alone found alone, join?_remove, if_neg (alone key)]

/-! ## Resuming -/

/-- A waiter that is armed again without being refused was armed on all alternatives. -/
theorem armed_of_settle {body : Body σ} {alternatives : List (Alternative σ)}
    (settled : s.settle B me (.waits body alternatives) = (s', .ok ())) :
    ({ s with waiters := s.waiters.restore me.slot body } : Simulation σ ω).armOnAll B me
      alternatives = (s', .ok ()) := by
  simp only [settle, rearm] at settled
  generalize armOnAll B _ me alternatives = result at settled ⊢
  obtain ⟨s₁, e | ⟨⟩⟩ := result
  · cases settled
  · exact settled

/-- What comes of a resume in which the waiter does not fail: nothing if the arming is stale, and
else a turn after which the groups count their branches again. Only a branch that completes changes
a group that is open. -/
theorem Balanced.resume (h : Balanced ledger clauseOf s) (known : s.OutputsKnown) {a : Arming}
    {ready : Fifo Arming} (ran : runWaiter B { s with ready } a = some (s', .ok ())) :
    (s.turnOf? B ledger a = none ∧ s'.waiters = s.waiters) ∨
      ∃ turn waiter, s.turnOf? B ledger a = some turn ∧ s.waiters.waiter? a.slot = some waiter ∧
        Balanced (ledger ++ turn.issues)
          (s.waiters.register ⟨a.slot, s.waiters.lastToken + 1⟩ turn.tag.next 0 clauseOf
            turn.deed.alternatives) s' ∧
        ((turn.deed = .completed ∧ ∀ key, s'.waiters.join? key =
            if waiter.parent = some (.join key) then
              (s.waiters.join? key).bind JoinGroup.countDown
            else s.waiters.join? key) ∨
          (turn.deed ≠ .completed ∧ ∀ key group, s.waiters.join? key = some group →
            s'.waiters.join? key = some group)) := by
  cases way_of_runWaiter (s := { s with ready }) known ran with
  | @skipped waiters unclaimed =>
      change s.waiters.consume a = (none, waiters) at unclaimed
      refine .inl ⟨?_, h.rests.eq_of_unclaimed unclaimed⟩
      rw [turnOf?, unclaimed]
  | @acted me body stale waiters done k w _ _ claimed acted settled =>
      change s.waiters.consume a = (some (me, body, stale), waiters) at claimed
      change act B s.kernel s.world s.outputs body = some (done, k, w) at acted
      obtain ⟨waiter, found, -, rfl, running⟩ := waiter?_of_consume claimed
      have tallied := h.tallied.claim claimed
      have rests := h.rests.claim claimed
      have joins := (Vacates.consume h.tallied.wellFormed claimed).joins
      have taken : s.turnOf? B ledger a = some
          { tag := ledger[a.token - 1]?.getD default
            deed := done.deed s.kernel
            touched := touched B s.kernel s.world body } := by
        rw [turnOf?, claimed]
        dsimp only
        rw [acted]
        rfl
      refine .inr ⟨_, waiter, taken, found, ?_⟩
      cases done with
      | fails e => cases settled
      | completes =>
          cases settled
          refine ⟨balanced_complete tallied rests running, .inl ⟨rfl, fun key => ?_⟩⟩
          rw [join?_complete running]
          change (if waiter.parent = some (.join key) then
            (waiters.join? key).bind JoinGroup.countDown else waiters.join? key) = _
          rw [joins]
      | waits body' alternatives =>
          have armed := armed_of_settle settled
          -- No alternative was refused, so that the turn tells of all that the waiter is armed on.
          have deed : (Act.waits body' alternatives).deed s.kernel =
              .waiting body' alternatives := by
            rw [← Act.deed_of_committed (edits_act acted).committed]
            exact if_pos (accepted_of_armOnAll armed)
          have nonempty := nonempty_of_act acted
          have entry : (ledger ++ [(ledger[a.token - 1]?.getD default).next])[
              s.waiters.lastToken + 1 - 1]? = some (ledger[a.token - 1]?.getD default).next := by
            rw [Nat.add_sub_cancel, ← h.tallied.length, List.getElem?_concat_length]
          have restored : Balanced (ledger ++ [(ledger[a.token - 1]?.getD default).next]) clauseOf
              { ({ s with ready } : Simulation σ ω).afterAct waiters stale body k w with
                waiters := waiters.restore a.slot body' } :=
            ⟨tallied.modify a.slot (fun _ => rfl) fun _ => rfl, rests.restore body'⟩
          have same : SameGroups (waiters.restore a.slot body') s.waiters := by
            obtain ⟨-, -, -, -, -, -, rfl⟩ := claimed_of_consume claimed
            exact ⟨rfl, rfl⟩
          have waits : (Deed.waiting body' alternatives : Deed σ) ≠ .completed := by
            intro completes
            cases completes
          rw [deed]
          obtain ⟨balanced, kept⟩ := restored.armOnAll entry 0 nonempty armed
          rw [List.append_assoc, same.register] at balanced
          exact ⟨balanced, .inr ⟨waits, fun key group isOpen =>
            kept key group ((joins key).trans isOpen)⟩⟩

/-! ## Between resumes -/

/-- What happens between resumes: a caller changes what callers may change, what is pending is
committed, or a cycle or a run comes to its end. -/
inductive Passes (s : Simulation σ ω) : Simulation σ ω → Prop where
  | adjusted {s' : Simulation σ ω} (adjusts : s.Adjusts s') : Passes s s'
  | committed : Passes s s.commitPending.1
  | proceeded (cap : Option Nat) : Passes s (s.proceed cap).1
  | wrapped (failure : Except SimError Unit) : Passes s (s.wrapUp failure).1
  | concluded (result : Except SimError Outcome) : Passes s (s.conclude result).1

theorem waiters_proceed (s : Simulation σ ω) (cap : Option Nat) :
    (s.proceed cap).1.waiters = s.waiters := by
  refine proceed_induction (P := fun t => t.waiters = s.waiters) (sheds_exchange s).waiters
    (fun _ same => same) (fun s₁ same => ?_) (fun _ _ same => same)
    (fun s₁ time same => (sheds_advanceTo s₁ time).waiters.trans same) cap
  obtain ⟨delta, deltas, next⟩ := nextDelta_spec s₁
  rw [next]
  exact same

theorem Passes.waiters (passes : s.Passes s') : s'.waiters = s.waiters := by
  cases passes with
  | adjusted adjusts => exact adjusts.sheds.waiters
  | committed => exact s.sheds_commitPending.waiters
  | proceeded cap => exact s.waiters_proceed cap
  | wrapped failure => exact s.waiters_wrapUp failure
  | concluded result =>
      obtain ⟨state, link, world, same⟩ := s.conclude_eq result
      rw [same]

theorem Passes.known (passes : s.Passes s') (known : s.OutputsKnown) : s'.OutputsKnown := by
  have committed : s.commitPending.1.frame = s.frame := frame_updateAll _ _ _
  cases passes with
  | adjusted adjusts =>
      obtain ⟨hook, hookStarted, state, maxDeltas, defaultDuration, world, rfl⟩ := adjusts
      exact known
  | committed => exact known.of_frame committed
  | proceeded cap => exact known.of_frame (frame_proceed s cap)
  | wrapped failure =>
      obtain ⟨stopRequest, same⟩ := s.wrapUp_eq failure
      have purged := (frame_purge s.commitPending.1).trans committed
      rw [same]
      exact known.of_frame purged
  | concluded result =>
      have bridges := congrArg Equipment.bridge (s.equipment_conclude result)
      obtain ⟨state, link, world, same⟩ := s.conclude_eq result
      rw [same] at bridges ⊢
      have frames : ({ s with state, link, world } : Simulation σ ω).frame = s.frame :=
        congrArg (·, s.kernel.signals.size, s.stats.resumes) bridges
      exact known.of_frame frames

/-! ## What is met -/

/-- What is met between resumes as long as no waiter has failed, with the names of the armings that
were issued, in the order of their tokens, and with the clauses for which groups were opened. -/
inductive Met (B : Behaviours σ ω) :
    List Tag → (Nat → Option Group) → Simulation σ ω → Prop where
  | built {kernel : Kernel} {instances : List (Instance σ ω)} {world : ω} {s : Simulation σ ω}
      (built : build B kernel instances world = .ok s) : Met B s.rootTags (fun _ => none) s
  | passed {ledger : List Tag} {clauseOf : Nat → Option Group} {s s' : Simulation σ ω}
      (met : Met B ledger clauseOf s) (passes : s.Passes s') : Met B ledger clauseOf s'
  | skipped {ledger : List Tag} {clauseOf : Nat → Option Group} {s s' : Simulation σ ω}
      {a : Arming} {ready : Fifo Arming} (met : Met B ledger clauseOf s)
      (popped : s.ready.pop? = some (a, ready))
      (ran : runWaiter B { s with ready } a = some (s', .ok ()))
      (skipped : s.turnOf? B ledger a = none) : Met B ledger clauseOf s'
  | taken {ledger : List Tag} {clauseOf : Nat → Option Group} {s s' : Simulation σ ω}
      {a : Arming} {ready : Fifo Arming} {turn : Turn σ} (met : Met B ledger clauseOf s)
      (popped : s.ready.pop? = some (a, ready))
      (ran : runWaiter B { s with ready } a = some (s', .ok ()))
      (taken : s.turnOf? B ledger a = some turn) :
      Met B (ledger ++ turn.issues)
        (s.waiters.register ⟨a.slot, s.waiters.lastToken + 1⟩ turn.tag.next 0 clauseOf
          turn.deed.alternatives) s'

theorem balanced_build {kernel : Kernel} {instances : List (Instance σ ω)} {world : ω}
    (built : build B kernel instances world = .ok s) :
    Balanced s.rootTags (fun _ => none) s := by
  have adds := adds_build built
  generalize startingBodies kernel instances = bodies at adds
  clear built
  induction adds with
  | refl => exact ⟨tallied_empty, fun slot waiter found => nomatch found⟩
  | @add bodies s' _ title body ih =>
      have alone (key : Nat) : none ≠ some (Continuation.join key) := nofun
      have added := ih.addWaiter title body ⟨.root s'.waiters.lastToken, 0⟩ alone
      have tags : (s'.addWaiter title body none).rootTags =
          s'.rootTags ++ [⟨.root s'.waiters.lastToken, 0⟩] := by
        have token : (s'.addWaiter title body none).waiters.lastToken =
            s'.waiters.lastToken + 1 := lastToken_insert ..
        rw [rootTags, token, List.range_succ, List.map_append]
        rfl
      rw [tags]
      exact added
  | link _ link ih => exact ih.of_waiters rfl

theorem Met.balanced (met : Met B ledger clauseOf s) :
    s.OutputsKnown ∧ Balanced ledger clauseOf s := by
  induction met with
  | built built => exact ⟨known_build built, balanced_build built⟩
  | passed met passes ih => exact ⟨passes.known ih.1, ih.2.of_waiters passes.waiters⟩
  | skipped met popped ran skipped ih =>
      obtain ⟨known, balanced⟩ := ih
      have same := surroundings_runWaiter ran
      refine ⟨known.of_surroundings same, ?_⟩
      rcases balanced.resume known ran with ⟨-, same⟩ | ⟨turn, waiter, taken, -⟩
      · exact balanced.of_waiters same
      · cases skipped.symm.trans taken
  | taken met popped ran taken ih =>
      obtain ⟨known, balanced⟩ := ih
      have same := surroundings_runWaiter ran
      refine ⟨known.of_surroundings same, ?_⟩
      rcases balanced.resume known ran with ⟨skipped, -⟩ | ⟨turn', waiter, taken', -, after, -⟩
      · cases skipped.symm.trans taken
      · cases taken.symm.trans taken'
        exact after

/-! ## Histories -/

theorem RoundWay.fine {fuel : Nat} {failure failure' : Except SimError Unit}
    (way : RoundWay B s' failure' fuel s failure) (fine : failure' = .ok ()) :
    failure = .ok () := by
  induction way with
  | idle idle => exact fine
  | resumed popped resumed further ih => exact (firstError_eq_ok.mp ih).1

/-- What a round of resumes leads to is met if nobody failed in it. -/
theorem Met.runReady {fuel : Nat} {failure failure' : Except SimError Unit}
    (met : Met B ledger clauseOf s) (ran : runReady B fuel s failure = .ok (s', failure'))
    (fine : failure' = .ok ()) :
    ∃ clauseOf', Met B (ledger ++ (s.turns B fuel ledger).flatMap Turn.issues) clauseOf' s' := by
  replace ran := way_of_runReady ran
  induction ran generalizing ledger clauseOf with
  | idle idle =>
      rw [turns_of_idle idle, List.flatMap_nil, List.append_nil]
      exact ⟨clauseOf, met⟩
  | @resumed fuel s s₁ failure result a ready popped resumed further ih =>
      -- Failures are kept to the end of a round, so that none of its resumes failed.
      obtain rfl := (firstError_eq_ok.mp (further.fine fine)).2
      cases turn : s.turnOf? B ledger a with
      | none =>
          rw [turns_of_skipped popped resumed turn]
          exact ih (met.skipped popped resumed turn)
      | some taken =>
          rw [turns_of_taken popped resumed turn, List.flatMap_cons, ← List.append_assoc]
          exact ih (met.taken popped resumed turn)

theorem Met.playRound {fuel : Nat} {way : Option Nat × List Change} {round : Round σ}
    (met : Met B ledger clauseOf s)
    (plays : s.playRound B fuel ledger way = some (round, s', .ok ())) :
    ∃ clauseOf', Met B (ledger ++ round.turns.flatMap Turn.issues) clauseOf' s' := by
  have committed := met.passed .committed
  unfold Simulation.playRound at plays
  generalize s.commitPending = commit at plays committed
  obtain ⟨m, e | ⟨⟩⟩ := commit
  · cases plays
  · dsimp only at plays committed
    cases ran : Simulation.runReady B fuel m (.ok ()) with
    | error stuck => simp [ran] at plays
    | ok result =>
        obtain ⟨s₁, failure⟩ := result
        simp only [ran, Option.some.injEq, Prod.mk.injEq] at plays
        obtain ⟨rfl, rfl, rfl⟩ := plays
        exact committed.runReady ran rfl

/-- Histories lead to what is met, as long as nobody failed. -/
theorem History.met {rounds : List (Round σ)} (history : History B rounds ledger s (.ok ())) :
    ∃ clauseOf, Met B ledger clauseOf s := by
  generalize fine : (.ok () : Except SimError Unit) = failure at history
  induction history with
  | first built idle adjusted plays =>
      subst fine
      exact ((Met.built built).passed (.adjusted adjusted)).playRound plays
  | @next rounds ledger s s₁ s' cap fuel round failure history running goesOn plays ih =>
      subst fine
      obtain ⟨clauseOf, met⟩ := ih rfl
      have proceeded := met.passed (.proceeded cap)
      cases goesOn with
      | again went =>
          rw [went] at proceeded
          exact proceeded.playRound plays
      | later paused adjusted =>
          rw [paused] at proceeded
          exact (proceeded.passed (.adjusted adjusted)).playRound plays

/-! ## Open groups -/

/-- The arming resumes a branch of the group, and the branch completes. -/
def CompletesBranch (B : Behaviours σ ω) (ledger : List Tag) (s : Simulation σ ω) (a : Arming)
    (key : Nat) : Prop :=
  ∃ turn waiter, s.turnOf? B ledger a = some turn ∧ turn.deed = .completed ∧
    s.waiters.waiter? a.slot = some waiter ∧ waiter.parent = some (.join key)

/-- A resume counts a group down if a branch of it completes, and leaves the group else. -/
theorem Balanced.outcome (h : Balanced ledger clauseOf s) (known : s.OutputsKnown) {a : Arming}
    {ready : Fifo Arming} (ran : runWaiter B { s with ready } a = some (s', .ok ())) {key : Nat}
    {group : JoinGroup} (isOpen : s.waiters.join? key = some group) :
    (s.CompletesBranch B ledger a key ∧ s'.waiters.join? key = group.countDown) ∨
      (¬s.CompletesBranch B ledger a key ∧ s'.waiters.join? key = some group) := by
  rcases h.resume known ran with ⟨skipped, same⟩ | ⟨turn, waiter, taken, found, -, settled⟩
  · refine .inr ⟨fun completes => ?_, by rw [same, isOpen]⟩
    obtain ⟨turn, waiter, taken, -⟩ := completes
    cases skipped.symm.trans taken
  · rcases settled with ⟨completed, joins⟩ | ⟨waits, joins⟩
    · by_cases owing : waiter.parent = some (.join key)
      · refine .inl ⟨⟨turn, waiter, taken, completed, found, owing⟩, ?_⟩
        rw [joins, if_pos owing, isOpen, Option.bind_some]
      · refine .inr ⟨fun completes => ?_, by rw [joins, if_neg owing, isOpen]⟩
        obtain ⟨-, waiter', -, -, found', owing'⟩ := completes
        cases found.symm.trans found'
        exact owing owing'
    · refine .inr ⟨fun completes => ?_, joins key group isOpen⟩
      obtain ⟨turn', -, taken', completed, -⟩ := completes
      cases taken.symm.trans taken'
      exact waits completed

/-- As long as no waiter has failed, every group that is open counts the waiters that are branches
of it, of which there is one at least. Each of them belongs to a group that is open and was opened
for the clause that made it, whose caller the group has. A resume closes a group exactly if it is
the last of its branches that completes, and nothing else that happens changes the groups. -/
theorem join_groups_count_their_branches (met : Met B ledger clauseOf s) :
    (∀ key group, s.waiters.join? key = some group →
      group.remaining = s.waiters.branches key ∧ 1 ≤ group.remaining) ∧
    (∀ slot waiter key, s.waiters.waiter? slot = some waiter → waiter.parent = some (.join key) →
      ∃ group clause index count, s.waiters.join? key = some group ∧ clauseOf key = some clause ∧
        ledger[waiter.token - 1]? = some ⟨clause.member index, count⟩ ∧
        ledger[group.caller.token - 1]? = some clause.caller) ∧
    (∀ a ready s', s.ready.pop? = some (a, ready) →
      runWaiter B { s with ready } a = some (s', .ok ()) →
      ∀ key group, s.waiters.join? key = some group →
        (s'.waiters.join? key = none ↔
          s.CompletesBranch B ledger a key ∧ s.waiters.branches key = 1) ∧
        ∀ left, s'.waiters.join? key = some left → left.caller = group.caller) ∧
    ∀ s', s.Passes s' → s'.waiters = s.waiters := by
  obtain ⟨known, balanced⟩ := met.balanced
  have tallied := balanced.tallied
  refine ⟨fun key group isOpen => tallied.counted isOpen, ?_, ?_, fun s' passes => passes.waiters⟩
  · intro slot waiter key found owing
    obtain ⟨isOpen, clause, index, count, assigned, entry⟩ := tallied.listed found owing
    obtain ⟨group, present⟩ := Option.isSome_iff_exists.mp isOpen
    obtain ⟨clause', assigned', called⟩ := tallied.called present
    cases assigned.symm.trans assigned'
    exact ⟨group, clause, index, count, present, assigned, entry, called⟩
  · intro a ready s' _ ran key group isOpen
    obtain ⟨counted, positive⟩ := tallied.counted isOpen
    rw [Pi.zero_apply, Nat.add_zero] at counted
    rcases balanced.outcome known ran isOpen with ⟨completes, after⟩ | ⟨goesOn, after⟩
    · rw [after, ← counted]
      refine ⟨?_, fun left counts => (JoinGroup.caller_countDown counts).symm⟩
      rw [and_iff_right completes, JoinGroup.countDown]
      constructor
      · intro closed
        split at closed
        · cases closed
        · exact Nat.le_antisymm (Nat.not_lt.mp ‹_›) positive
      · intro last
        rw [if_neg (by omega)]
    · rw [after]
      constructor
      · constructor
        · intro closed
          cases closed
        · intro last
          exact absurd last.1 goesOn
      · intro left same
        rw [Option.some.inj same]

/-- The process of the nursery waits for a join, whose group counts the timer and the child. -/
theorem the_nursery_counts_two_branches :
    ∃ ledger clauseOf s, Met nursery ledger clauseOf s ∧
      ∃ group, s.waiters.join? 0 = some group ∧ group.remaining = 2 ∧
        s.waiters.branches 0 = 2 := by
  have built : build nursery {} [.process 2] () = .ok nurseryStart := rfl
  have popped : nurseryStart.ready.pop? = some (⟨0, 1⟩, {}) := rfl
  obtain ⟨turn, taken⟩ := Option.isSome_iff_exists.mp
    (show (nurseryStart.turnOf? nursery nurseryStart.rootTags ⟨0, 1⟩).isSome by decide +kernel)
  have resumed : (runWaiter nursery { nurseryStart with ready := {} } ⟨0, 1⟩).map (fun result =>
      (result.2.isOk, (result.1.waiters.join? 0).isSome, result.1.waiters.branches 0)) =
        some (true, true, 2) := by
    decide +kernel
  obtain ⟨⟨s, failure⟩, ran, measured⟩ := Option.map_eq_some_iff.mp resumed
  obtain ⟨fine, isSome, two⟩ : failure.isOk ∧ (s.waiters.join? 0).isSome ∧
      s.waiters.branches 0 = 2 := by
    simpa using measured
  obtain e | ⟨⟩ := failure
  · cases fine
  · have met := (Met.built built).taken popped ran taken
    obtain ⟨group, isOpen⟩ := Option.isSome_iff_exists.mp isSome
    have counted := ((join_groups_count_their_branches met).1 0 group isOpen).1
    exact ⟨_, _, s, met, group, isOpen, counted.trans two, two⟩

end Simulation

end DeltaCycle
