import DeltaCycle.Proofs.Arming
import DeltaCycle.Proofs.Headcount

/-!
# Tallies

A table is tallied if every open join group counts its own branches. In between, a group may still
be owed some: those that are about to be made, or one that has just left. The armings that were
handed out are listed by their names in the order of their tokens, and a register tells for which
clause each group was opened, so that it can be said of a branch and of the group it belongs to
that they stem from the same clause, although slots and group numbers are reused.
-/

set_option autoImplicit false

namespace DeltaCycle

/-- What is left of a join group when one of its branches completes. -/
def JoinGroup.countDown (group : JoinGroup) : Option JoinGroup :=
  if 1 < group.remaining then some { group with remaining := group.remaining - 1 } else none

theorem JoinGroup.caller_countDown {group left : JoinGroup} (counts : group.countDown = some left) :
    group.caller = left.caller := by
  unfold countDown at counts
  split at counts
  · cases counts
    rfl
  · cases counts

namespace WaiterTable

variable {β : Type} {t t' : WaiterTable β}

theorem join?_completeBranch (t : WaiterTable β) (key x : Nat) :
    (t.completeBranch key).2.join? x =
      if x = key then (t.join? key).bind JoinGroup.countDown else t.join? x := by
  cases present : t.join? key with
  | none =>
      have absent : (t.joins[key]?).join = none := present
      simp only [completeBranch, absent, Option.bind_none]
      split
      · next here => exact here ▸ present
      · rfl
  | some group =>
      rw [Option.bind_some, JoinGroup.countDown]
      by_cases more : 1 < group.remaining
      · rw [if_pos more]
        exact (completeBranch_of_lt present more).2 x
      · rw [if_neg more]
        exact (completeBranch_of_le present (Nat.not_lt.mp more)).2 x

/-- The number of branches of a group that have not completed. -/
def branches (t : WaiterTable β) (key : Nat) : Nat :=
  t.headcount fun w => w.parent = some (.join key)

/-- Every open group counts its branches and what it is owed, and each branch belongs to an open
group that was opened for the clause that made the branch. -/
structure Tallied (ledger : List Tag) (clauseOf : Nat → Option Group) (owed : Nat → Nat)
    (t : WaiterTable β) : Prop where
  wellFormed : t.WellFormed
  length : ledger.length = t.lastToken
  counted : ∀ {key group}, t.join? key = some group →
    group.remaining = t.branches key + owed key ∧ 0 < group.remaining
  called : ∀ {key group}, t.join? key = some group → ∃ clause, clauseOf key = some clause ∧
    ledger[group.caller.token - 1]? = some clause.caller
  listed : ∀ {slot waiter key}, t.waiter? slot = some waiter → waiter.parent = some (.join key) →
    (t.join? key).isSome ∧ ∃ clause index count, clauseOf key = some clause ∧
      ledger[waiter.token - 1]? = some ⟨clause.member index, count⟩

variable {ledger : List Tag} {clauseOf : Nat → Option Group} {owed owed' : Nat → Nat}

theorem tallied_empty : Tallied [] (fun _ => none) 0 ({} : WaiterTable β) where
  wellFormed := wellFormed_empty
  length := rfl
  counted found := nomatch found
  called found := nomatch found
  listed found := nomatch found

theorem kept_entry {tag : Tag} {place : Nat} (entry : ledger[place]? = some tag) (more : List Tag) :
    (ledger ++ more)[place]? = some tag := by
  obtain ⟨bound, -⟩ := List.getElem?_eq_some_iff.mp entry
  rw [List.getElem?_append_left bound, entry]

theorem branches_eq_zero_iff (t : WaiterTable β) (key : Nat) :
    t.branches key = 0 ↔
      ∀ slot waiter, t.waiter? slot = some waiter → waiter.parent ≠ some (.join key) := by
  rw [← Nat.le_zero, ← Nat.not_lt, branches, headcount_pos_iff]
  simp only [decide_eq_true_eq, not_exists, not_and, ne_eq]

theorem branches_modify (t : WaiterTable β) (slot : Nat) {f : Waiter β → Waiter β}
    (parents : ∀ w, (f w).parent = w.parent) (key : Nat) :
    (t.modify slot f).branches key = t.branches key :=
  headcount_modify _ slot fun w => by rw [parents]

theorem branches_of_claimed {a me : Arming} {body : β} {stale : List SignalId}
    (claimed : t.consume a = (some (me, body, stale), t')) (key : Nat) :
    t'.branches key = t.branches key := by
  obtain ⟨waiter, -, -, -, -, -, rfl⟩ := claimed_of_consume claimed
  refine branches_modify { t with lastToken := t.lastToken + 1 } a.slot ?_ key
  exact fun _ => rfl

/-- One of the branches that a group is owed. -/
theorem single_succ (key count x : Nat) :
    (Pi.single key (count + 1) : Nat → Nat) x = (Pi.single key count : Nat → Nat) x +
      if some (Continuation.join key) = some (.join x) then 1 else 0 := by
  by_cases here : x = key
  · subst here
    rw [Pi.single_eq_same, Pi.single_eq_same, if_pos rfl]
  · have other : some (Continuation.join key) ≠ some (.join x) := by
      intro same
      cases same
      exact here rfl
    rw [Pi.single_eq_of_ne here, Pi.single_eq_of_ne here, if_neg other, Nat.add_zero]

namespace Tallied

variable (h : Tallied ledger clauseOf owed t)

include h

/-! ## Waiters come, run and leave -/

theorem insert (name : String) (body : β) {parent : Option Continuation} {tag : Tag}
    (owes : ∀ key, owed key = owed' key + if parent = some (.join key) then 1 else 0)
    (branch : ∀ key, parent = some (.join key) → (t.join? key).isSome ∧
      ∃ clause index count, clauseOf key = some clause ∧ tag = ⟨clause.member index, count⟩) :
    Tallied (ledger ++ [tag]) clauseOf owed' (t.insert name body parent).2 where
  wellFormed := h.wellFormed.insert name body parent
  length := by rw [List.length_append, h.length, lastToken_insert, List.length_singleton]
  counted {key group} found := by
    rw [join?_insert] at found
    obtain ⟨counted, positive⟩ := h.counted found
    have more := headcount_insert (fun w => w.parent = some (.join key)) h.wellFormed name body
      parent
    simp only [decide_eq_true_eq] at more
    refine ⟨?_, positive⟩
    rw [branches, more, counted, branches, owes]
    omega
  called found := by
    rw [join?_insert] at found
    obtain ⟨clause, assigned, entry⟩ := h.called found
    exact ⟨clause, assigned, kept_entry entry _⟩
  listed {slot waiter key} found owing := by
    rw [join?_insert]
    rw [h.wellFormed.waiter?_insert] at found
    split at found
    · cases found
      obtain ⟨isOpen, clause, index, count, assigned, rfl⟩ := branch key owing
      refine ⟨isOpen, clause, index, count, assigned, ?_⟩
      rw [Nat.add_sub_cancel, ← h.length, List.getElem?_concat_length]
    · obtain ⟨isOpen, clause, index, count, assigned, entry⟩ := h.listed found owing
      exact ⟨isOpen, clause, index, count, assigned, kept_entry entry _⟩

/-- A waiter may change as long as its arming and its continuation stay. -/
theorem modify (slot : Nat) {f : Waiter β → Waiter β} (tokens : ∀ w, (f w).token = w.token)
    (parents : ∀ w, (f w).parent = w.parent) :
    Tallied ledger clauseOf owed (t.modify slot f) where
  wellFormed := h.wellFormed.modify slot f
  length := h.length
  counted {key group} found := by
    rw [branches_modify t slot parents]
    exact h.counted found
  called := h.called
  listed {x waiter key} found owing := by
    rw [waiter?_modify] at found
    split at found
    · obtain ⟨waiter, was, rfl⟩ := Option.map_eq_some_iff.mp found
      rw [parents] at owing
      rw [tokens]
      exact h.listed was owing
    · exact h.listed found owing

/-- The next arming of a waiter that is claimed is listed as such. -/
theorem claim {a me : Arming} {body : β} {stale : List SignalId}
    (claimed : t.consume a = (some (me, body, stale), t')) :
    Tallied (ledger ++ [(ledger[a.token - 1]?.getD default).next]) clauseOf owed t' := by
  obtain ⟨waiter, found, current, -, -, -, rfl⟩ := claimed_of_consume claimed
  refine ⟨(h.wellFormed.setToken _).modify _ _, ?_, fun {key group} found => ?_,
    fun found => ?_, fun {slot waiter' key} found' owing => ?_⟩
  · rw [List.length_append, h.length]
    rfl
  · rw [branches_of_claimed claimed]
    exact h.counted found
  · obtain ⟨clause, assigned, entry⟩ := h.called found
    exact ⟨clause, assigned, kept_entry entry _⟩
  · rw [waiter?_modify] at found'
    split at found'
    · next here =>
        cases here
        obtain ⟨w, was, rfl⟩ := Option.map_eq_some_iff.mp found'
        cases found.symm.trans was
        obtain ⟨isOpen, clause, index, count, assigned, entry⟩ := h.listed found owing
        refine ⟨isOpen, clause, index, count + 1, assigned, ?_⟩
        dsimp only
        rw [Nat.add_sub_cancel, ← h.length, List.getElem?_concat_length, ← current, entry]
        rfl
    · obtain ⟨isOpen, clause, index, count, assigned, entry⟩ := h.listed found' owing
      exact ⟨isOpen, clause, index, count, assigned, kept_entry entry _⟩

theorem remove {slot : Nat} {waiter : Waiter β} (found : t.waiter? slot = some waiter)
    (owes : ∀ key, owed' key = owed key + if waiter.parent = some (.join key) then 1 else 0) :
    Tallied ledger clauseOf owed' (t.remove slot).2 where
  wellFormed := h.wellFormed.remove slot
  length := by rw [lastToken_remove, h.length]
  counted {key group} found' := by
    rw [join?_remove] at found'
    obtain ⟨counted, positive⟩ := h.counted found'
    have fewer := headcount_remove (fun w => w.parent = some (.join key)) found
    simp only [decide_eq_true_eq] at fewer
    refine ⟨?_, positive⟩
    rw [counted, branches, ← fewer, branches, owes]
    omega
  called found' := by
    rw [join?_remove] at found'
    exact h.called found'
  listed {x waiter' key} found' owing := by
    rw [waiter?_remove] at found'
    rw [join?_remove]
    split at found'
    · cases found'
    · exact h.listed found' owing

end Tallied

/-! ## Groups are opened and counted down -/

theorem Tallied.branches_of_closed (h : Tallied ledger clauseOf owed t) {key : Nat}
    (closed : t.join? key = none) : t.branches key = 0 := by
  refine (t.branches_eq_zero_iff key).mpr fun slot waiter found owing => ?_
  have isOpen := (h.listed found owing).1
  rw [closed] at isOpen
  cases isOpen

/-- A group is opened for a clause before the branches are made. -/
theorem Tallied.openJoin (h : Tallied ledger clauseOf 0 t) {count : Nat} {me : Arming}
    (clause : Group) (positive : 0 < count) (entry : ledger[me.token - 1]? = some clause.caller) :
    Tallied ledger (Function.update clauseOf t.upcomingJoin (some clause))
      (Pi.single t.upcomingJoin count) (t.openJoin count me).2 := by
  have joins := h.wellFormed.join?_openJoin count me
  have none := h.branches_of_closed h.wellFormed.join?_upcomingJoin
  obtain ⟨token, waiters⟩ := t.openJoin_kept count me
  refine ⟨h.wellFormed.openJoin count me, h.length.trans token.symm, fun {key group} found => ?_,
    fun {key group} found => ?_, fun {slot waiter key} found owing => ?_⟩
  · rw [branches, headcount_openJoin, ← branches]
    rw [joins] at found
    split at found
    · next here =>
        cases found
        rw [here, none, Pi.single_eq_same, Nat.zero_add]
        exact ⟨rfl, positive⟩
    · next other =>
        rw [Pi.single_eq_of_ne other]
        exact h.counted found
  · rw [joins] at found
    split at found
    · next here =>
        cases found
        exact ⟨clause, by rw [here, Function.update_self], entry⟩
    · next other =>
        rw [Function.update_of_ne other]
        exact h.called found
  · rw [waiters] at found
    -- A number that is reused has no branches left from before.
    have other : key ≠ t.upcomingJoin := by
      rintro rfl
      exact (t.branches_eq_zero_iff _).mp none slot waiter found owing
    rw [joins, if_neg other, Function.update_of_ne other]
    exact h.listed found owing

/-- A group is counted down after a branch has left, and closed after the last one. -/
theorem Tallied.completeBranch {key : Nat} (h : Tallied ledger clauseOf (Pi.single key 1) t) :
    Tallied ledger clauseOf 0 (t.completeBranch key).2 := by
  obtain ⟨token, waiters⟩ := t.completeBranch_kept key
  refine ⟨h.wellFormed.completeBranch key, h.length.trans token.symm, fun {x group} found => ?_,
    fun {x group} found => ?_, fun {slot waiter x} found owing => ?_⟩
  · rw [branches, headcount_completeBranch, ← branches, Pi.zero_apply]
    rw [join?_completeBranch] at found
    split at found
    · next here =>
        subst here
        obtain ⟨before, present, left⟩ := Option.bind_eq_some_iff.mp found
        obtain ⟨counted, -⟩ := h.counted present
        rw [Pi.single_eq_same] at counted
        unfold JoinGroup.countDown at left
        split at left
        · cases left
          dsimp only
          omega
        · cases left
    · next other =>
        have counted := h.counted found
        rwa [Pi.single_eq_of_ne other] at counted
  · rw [join?_completeBranch] at found
    split at found
    · next here =>
        subst here
        obtain ⟨before, present, left⟩ := Option.bind_eq_some_iff.mp found
        rw [← JoinGroup.caller_countDown left]
        exact h.called present
    · exact h.called found
  · rw [waiters] at found
    obtain ⟨isOpen, stems⟩ := h.listed found owing
    refine ⟨?_, stems⟩
    rw [join?_completeBranch]
    split
    · next here =>
        subst here
        obtain ⟨group, present⟩ := Option.isSome_iff_exists.mp isOpen
        obtain ⟨counted, -⟩ := h.counted present
        rw [Pi.single_eq_same] at counted
        -- The waiter is a branch, so that the group counted two: it and the one that has left.
        have some_left : t.branches x ≠ 0 := fun none =>
          (t.branches_eq_zero_iff x).mp none slot waiter found owing
        rw [present, Option.bind_some, JoinGroup.countDown, if_pos (by omega)]
        rfl
    · exact isOpen

/-! ## The register -/

variable {σ : Type}

/-- The clauses for which groups were opened, by their numbers, after a waiter was armed on
alternatives from a place on: a join takes the number that is opened next. -/
def register (t : WaiterTable β) (me : Arming) (tag : Tag) (place : Nat)
    (clauseOf : Nat → Option Group) : List (Alternative σ) → Nat → Option Group
  | [] => clauseOf
  | .join clauses :: rest =>
      (t.openJoin clauses.length me).2.register me tag (place + 1)
        (Function.update clauseOf (t.openJoin clauses.length me).1 (some ⟨tag, place⟩)) rest
  | _ :: rest => t.register me tag (place + 1) clauseOf rest

/-- The groups and the numbers that are held for reuse are the same. -/
def SameGroups (t t' : WaiterTable β) : Prop := t.joins = t'.joins ∧ t.freeJoins = t'.freeJoins

theorem SameGroups.trans {t'' : WaiterTable β} (first : SameGroups t t')
    (second : SameGroups t' t'') : SameGroups t t'' :=
  ⟨first.1.trans second.1, first.2.trans second.2⟩

theorem sameGroups_insert (t : WaiterTable β) (name : String) (body : β)
    (parent : Option Continuation) : SameGroups t (t.insert name body parent).2 := by
  unfold insert
  cases t.free <;> exact ⟨rfl, rfl⟩

theorem SameGroups.openJoin (same : SameGroups t t') (count : Nat) (me : Arming) :
    (t.openJoin count me).1 = (t'.openJoin count me).1 ∧
      SameGroups (t.openJoin count me).2 (t'.openJoin count me).2 := by
  obtain ⟨joins, freeJoins⟩ := same
  unfold WaiterTable.openJoin SameGroups
  rw [freeJoins, joins]
  cases t'.freeJoins <;> exact ⟨rfl, rfl, rfl⟩

theorem SameGroups.register (same : SameGroups t t') (me : Arming) (tag : Tag) (place : Nat)
    (clauseOf : Nat → Option Group) (alternatives : List (Alternative σ)) :
    t.register me tag place clauseOf alternatives =
      t'.register me tag place clauseOf alternatives := by
  induction alternatives generalizing t t' place clauseOf with
  | nil => rfl
  | cons alternative rest ih =>
      cases alternative with
      | join clauses =>
          obtain ⟨next, same'⟩ := same.openJoin clauses.length me
          rw [WaiterTable.register, WaiterTable.register, next]
          exact ih same' _ _
      | _ => exact ih same _ _

/-! ## Bodies -/

/-- Nobody runs, but possibly the waiter of a slot. -/
def Rests (t : WaiterTable β) (running : Option Nat) : Prop :=
  ∀ slot waiter, t.waiter? slot = some waiter → waiter.body = none → running = some slot

variable {running : Option Nat}

theorem Rests.insert (rests : t.Rests running) (wf : t.WellFormed) (name : String) (body : β)
    (parent : Option Continuation) : (t.insert name body parent).2.Rests running := by
  intro slot waiter found absent
  rw [wf.waiter?_insert] at found
  split at found
  · cases found
    cases absent
  · exact rests slot waiter found absent

theorem Rests.modify (rests : t.Rests running) (slot : Nat) {f : Waiter β → Waiter β}
    (bodies : ∀ w, (f w).body = none → w.body = none) : (t.modify slot f).Rests running := by
  intro x waiter found absent
  rw [waiter?_modify] at found
  split at found
  · obtain ⟨w, was, rfl⟩ := Option.map_eq_some_iff.mp found
    exact rests x w was (bodies w absent)
  · exact rests x waiter found absent

theorem Rests.restore {slot : Nat} (rests : t.Rests (some slot)) (body : β) :
    (t.restore slot body).Rests none := by
  intro x waiter found absent
  rw [WaiterTable.restore, waiter?_modify] at found
  split at found
  · obtain ⟨w, -, rfl⟩ := Option.map_eq_some_iff.mp found
    cases absent
  · next other => exact absurd (Option.some.inj (rests x waiter found absent)) other

theorem Rests.remove {slot : Nat} (rests : t.Rests (some slot)) : (t.remove slot).2.Rests none := by
  intro x waiter found absent
  rw [waiter?_remove] at found
  split at found
  · cases found
  · next other => exact absurd (Option.some.inj (rests x waiter found absent)).symm other

theorem Rests.claim (rests : t.Rests none) {a me : Arming} {body : β} {stale : List SignalId}
    (claimed : t.consume a = (some (me, body, stale), t')) : t'.Rests (some a.slot) := by
  obtain ⟨-, -, -, -, -, -, rfl⟩ := claimed_of_consume claimed
  intro x waiter found absent
  rw [waiter?_modify] at found
  split at found
  · next here => rw [here]
  · exact nomatch rests x waiter found absent

theorem Rests.of_waiters (rests : t.Rests running)
    (same : ∀ slot, t'.waiter? slot = t.waiter? slot) : t'.Rests running := by
  intro slot waiter found absent
  rw [same] at found
  exact rests slot waiter found absent

/-- Where nobody runs, a claim that is refused changes nothing. -/
theorem Rests.eq_of_unclaimed (rests : t.Rests none) {a : Arming}
    (unclaimed : t.consume a = (none, t')) : t' = t := by
  cases live : t.isLive a with
  | false =>
      rw [consume_of_stale live] at unclaimed
      cases unclaimed
      rfl
  | true =>
      obtain ⟨waiter, found, token⟩ := (t.isLive_iff a).mp live
      cases present : waiter.body with
      | none => exact nomatch rests a.slot waiter found present
      | some body =>
          rw [consume_of_live found token present] at unclaimed
          cases unclaimed

end WaiterTable

end DeltaCycle
