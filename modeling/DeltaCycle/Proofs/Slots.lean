import DeltaCycle.WaiterTable

/-!
# Slots of the waiter table

What each operation of the table does to the waiter of a slot and to the join group of an
index. A table is well formed if what it holds for reuse is in fact empty, and held once.
-/

set_option autoImplicit false

namespace DeltaCycle

namespace WaiterTable

variable {β : Type} {t : WaiterTable β}

/-- The join group of an index. -/
def join? (t : WaiterTable β) (index : Nat) : Option JoinGroup := (t.joins[index]?).join

/-- The first arming of the waiter that is added next. -/
def upcoming (t : WaiterTable β) : Arming :=
  ⟨t.free.headD t.slots.size, t.lastToken + 1⟩

/-- The index of the join group that is opened next. -/
def upcomingJoin (t : WaiterTable β) : Nat := t.freeJoins.headD t.joins.size

/-- The slots and indices that are held for reuse are empty, and each is held once. -/
structure WellFormed (t : WaiterTable β) : Prop where
  vacant : ∀ slot ∈ t.free, slot < t.slots.size ∧ t.waiter? slot = none
  distinct : t.free.Nodup
  closed : ∀ index ∈ t.freeJoins, index < t.joins.size ∧ t.join? index = none
  distinctJoins : t.freeJoins.Nodup

theorem wellFormed_empty : ({} : WaiterTable β).WellFormed where
  vacant _ listed := absurd listed List.not_mem_nil
  distinct := List.nodup_nil
  closed _ listed := absurd listed List.not_mem_nil
  distinctJoins := List.nodup_nil

/-! ## Changing a waiter -/

theorem waiter?_modify (t : WaiterTable β) (slot : Nat) (f : Waiter β → Waiter β) (x : Nat) :
    (t.modify slot f).waiter? x = if slot = x then (t.waiter? x).map f else t.waiter? x := by
  simp only [waiter?, modify, Array.getElem?_modify]
  split
  · rcases t.slots[x]? with _ | _ | waiter <;> rfl
  · rfl

theorem WellFormed.modify (wf : t.WellFormed) (slot : Nat) (f : Waiter β → Waiter β) :
    (t.modify slot f).WellFormed where
  vacant x listed := by
    obtain ⟨bound, empty⟩ := wf.vacant x listed
    refine ⟨?_, ?_⟩
    · simpa only [WaiterTable.modify, Array.size_modify] using bound
    · rw [waiter?_modify, empty]
      split <;> rfl
  distinct := wf.distinct
  closed := wf.closed
  distinctJoins := wf.distinctJoins

theorem WellFormed.setToken (wf : t.WellFormed) (lastToken : Nat) :
    { t with lastToken }.WellFormed :=
  ⟨wf.vacant, wf.distinct, wf.closed, wf.distinctJoins⟩

/-! ## Adding a waiter -/

theorem waiter?_of_size_le {slot : Nat} (beyond : t.slots.size ≤ slot) :
    t.waiter? slot = none := by
  rw [waiter?, Array.getElem?_eq_none beyond]
  rfl

/-- A waiter is added to an empty slot. -/
theorem WellFormed.waiter?_upcoming (wf : t.WellFormed) : t.waiter? t.upcoming.slot = none := by
  cases listed : t.free with
  | nil =>
      simp only [upcoming, listed, List.headD_nil]
      exact waiter?_of_size_le (Nat.le_refl _)
  | cons slot free =>
      simp only [upcoming, listed, List.headD_cons]
      exact (wf.vacant slot (by rw [listed]; exact List.mem_cons_self ..)).2

theorem insert_fst (t : WaiterTable β) (name : String) (body : β)
    (parent : Option Continuation) : (t.insert name body parent).1 = t.upcoming := by
  unfold insert
  cases listed : t.free <;> simp only [upcoming, listed, List.headD_nil, List.headD_cons]

theorem lastToken_insert (t : WaiterTable β) (name : String) (body : β)
    (parent : Option Continuation) :
    (t.insert name body parent).2.lastToken = t.lastToken + 1 := by
  unfold insert
  cases t.free <;> rfl

theorem join?_insert (t : WaiterTable β) (name : String) (body : β)
    (parent : Option Continuation) (index : Nat) :
    (t.insert name body parent).2.join? index = t.join? index := by
  unfold insert
  cases t.free <;> rfl

theorem WellFormed.waiter?_insert (wf : t.WellFormed) (name : String) (body : β)
    (parent : Option Continuation) (x : Nat) :
    (t.insert name body parent).2.waiter? x =
      if x = t.upcoming.slot then
        some { name, body := some body, token := t.lastToken + 1, parent }
      else t.waiter? x := by
  unfold insert
  cases listed : t.free with
  | nil =>
      simp only [upcoming, listed, List.headD_nil, waiter?, Array.getElem?_push]
      split <;> rfl
  | cons slot free =>
      obtain ⟨bound, -⟩ := wf.vacant slot (by rw [listed]; exact List.mem_cons_self ..)
      simp only [upcoming, listed, List.headD_cons, waiter?, Array.getElem?_setIfInBounds]
      by_cases here : slot = x
      · subst here
        simp only [if_true, if_pos bound]
        rfl
      · rw [if_neg here, if_neg (Ne.symm here)]

theorem WellFormed.insert (wf : t.WellFormed) (name : String) (body : β)
    (parent : Option Continuation) : (t.insert name body parent).2.WellFormed := by
  have found := wf.waiter?_insert name body parent
  have joins := join?_insert t name body parent
  have distinct := wf.distinct
  cases listed : t.free with
  | nil =>
      simp only [WaiterTable.insert, listed] at found joins ⊢
      refine ⟨fun slot held => absurd held List.not_mem_nil, List.nodup_nil, ?_, wf.distinctJoins⟩
      exact fun index held => ⟨(wf.closed index held).1, (joins index).trans (wf.closed index held).2⟩
  | cons reused free =>
      rw [listed, List.nodup_cons] at distinct
      simp only [WaiterTable.insert, listed] at found joins ⊢
      refine ⟨fun slot held => ?_, distinct.2, ?_, wf.distinctJoins⟩
      · obtain ⟨bound, empty⟩ := wf.vacant slot (by rw [listed]; exact List.mem_cons_of_mem _ held)
        refine ⟨by simpa only [Array.size_setIfInBounds] using bound, ?_⟩
        have other : slot ≠ t.upcoming.slot := by
          rintro rfl
          refine distinct.1 ?_
          simpa only [upcoming, listed, List.headD_cons] using held
        rw [found, if_neg other]
        exact empty
      · exact fun index held =>
          ⟨(wf.closed index held).1, (joins index).trans (wf.closed index held).2⟩

/-! ## Removing a waiter -/

theorem remove_fst {slot : Nat} {waiter : Waiter β} (found : t.waiter? slot = some waiter) :
    (t.remove slot).1 = waiter.parent := by
  simp only [remove, found]

theorem lastToken_remove (t : WaiterTable β) (slot : Nat) :
    (t.remove slot).2.lastToken = t.lastToken := by
  unfold remove
  cases t.waiter? slot <;> rfl

theorem join?_remove (t : WaiterTable β) (slot index : Nat) :
    (t.remove slot).2.join? index = t.join? index := by
  unfold remove
  cases t.waiter? slot <;> rfl

theorem bound_of_waiter? {slot : Nat} {waiter : Waiter β}
    (found : t.waiter? slot = some waiter) : slot < t.slots.size := by
  by_cases bound : slot < t.slots.size
  · exact bound
  · rw [waiter?_of_size_le (Nat.not_lt.mp bound)] at found
    cases found

theorem waiter?_remove (t : WaiterTable β) (slot x : Nat) :
    (t.remove slot).2.waiter? x = if x = slot then none else t.waiter? x := by
  unfold remove
  cases found : t.waiter? slot with
  | none =>
      dsimp only
      split
      · next here =>
          rw [here]
          exact found
      · rfl
  | some waiter =>
      simp only [waiter?, Array.getElem?_setIfInBounds]
      by_cases here : slot = x
      · subst here
        simp only [if_true, if_pos (bound_of_waiter? found)]
        rfl
      · rw [if_neg here, if_neg (Ne.symm here)]

theorem WellFormed.remove (wf : t.WellFormed) (slot : Nat) : (t.remove slot).2.WellFormed := by
  have removed := waiter?_remove t slot
  cases found : t.waiter? slot with
  | none => simpa only [WaiterTable.remove, found] using wf
  | some waiter =>
      simp only [WaiterTable.remove, found] at removed ⊢
      refine ⟨fun x held => ?_, List.nodup_cons.mpr ⟨fun held => ?_, wf.distinct⟩, wf.closed,
        wf.distinctJoins⟩
      · rw [removed]
        rcases List.mem_cons.mp held with rfl | held
        · refine ⟨?_, if_pos rfl⟩
          simpa only [Array.size_setIfInBounds] using bound_of_waiter? found
        · obtain ⟨bound, empty⟩ := wf.vacant x held
          refine ⟨by simpa only [Array.size_setIfInBounds] using bound, ?_⟩
          split
          · rfl
          · exact empty
      · exact absurd (found.symm.trans (wf.vacant slot held).2) nofun

/-! ## Claiming an arming -/

theorem isLive_iff (t : WaiterTable β) (a : Arming) :
    t.isLive a = true ↔ ∃ waiter, t.waiter? a.slot = some waiter ∧ waiter.token = a.token := by
  unfold isLive
  cases t.waiter? a.slot with
  | none => simp
  | some waiter => simp

theorem consume_of_live {a : Arming} {waiter : Waiter β} {body : β}
    (found : t.waiter? a.slot = some waiter) (current : waiter.token = a.token)
    (present : waiter.body = some body) :
    t.consume a =
      (some (⟨a.slot, t.lastToken + 1⟩, body, waiter.subscriptions),
        { t with lastToken := t.lastToken + 1 }.modify a.slot fun w =>
          { w with body := none, token := t.lastToken + 1, subscriptions := [] }) := by
  have live : t.isLive a = true := (t.isLive_iff a).mpr ⟨waiter, found, current⟩
  obtain ⟨name, _, token, parent, subscriptions⟩ := waiter
  cases present
  simp only [consume, live, if_true]
  rw [show ({ t with lastToken := t.lastToken + 1 } : WaiterTable β).waiter? a.slot = _ from found]

theorem consume_of_stale {a : Arming} (stale : t.isLive a = false) : t.consume a = (none, t) := by
  simp only [consume, stale, Bool.false_eq_true, if_false]

/-! ## Join groups -/

theorem join?_of_size_le {index : Nat} (beyond : t.joins.size ≤ index) :
    t.join? index = none := by
  rw [join?, Array.getElem?_eq_none beyond]
  rfl

theorem WellFormed.join?_upcomingJoin (wf : t.WellFormed) : t.join? t.upcomingJoin = none := by
  cases listed : t.freeJoins with
  | nil =>
      simp only [upcomingJoin, listed, List.headD_nil]
      exact join?_of_size_le (Nat.le_refl _)
  | cons index freeJoins =>
      simp only [upcomingJoin, listed, List.headD_cons]
      exact (wf.closed index (by rw [listed]; exact List.mem_cons_self ..)).2

theorem openJoin_fst (t : WaiterTable β) (count : Nat) (caller : Arming) :
    (t.openJoin count caller).1 = t.upcomingJoin := by
  unfold openJoin
  cases listed : t.freeJoins <;> simp only [upcomingJoin, listed, List.headD_nil, List.headD_cons]

theorem openJoin_kept (t : WaiterTable β) (count : Nat) (caller : Arming) :
    (t.openJoin count caller).2.lastToken = t.lastToken ∧
      ∀ slot, (t.openJoin count caller).2.waiter? slot = t.waiter? slot := by
  unfold openJoin
  cases t.freeJoins <;> exact ⟨rfl, fun _ => rfl⟩

theorem WellFormed.join?_openJoin (wf : t.WellFormed) (count : Nat) (caller : Arming)
    (x : Nat) :
    (t.openJoin count caller).2.join? x =
      if x = t.upcomingJoin then some { remaining := count, caller } else t.join? x := by
  unfold openJoin
  cases listed : t.freeJoins with
  | nil =>
      simp only [upcomingJoin, listed, List.headD_nil, join?, Array.getElem?_push]
      split <;> rfl
  | cons index freeJoins =>
      obtain ⟨bound, -⟩ := wf.closed index (by rw [listed]; exact List.mem_cons_self ..)
      simp only [upcomingJoin, listed, List.headD_cons, join?, Array.getElem?_setIfInBounds]
      by_cases here : index = x
      · subst here
        simp only [if_true, if_pos bound]
        rfl
      · rw [if_neg here, if_neg (Ne.symm here)]

theorem WellFormed.openJoin (wf : t.WellFormed) (count : Nat) (caller : Arming) :
    (t.openJoin count caller).2.WellFormed := by
  have found := wf.join?_openJoin count caller
  have distinct := wf.distinctJoins
  cases listed : t.freeJoins with
  | nil =>
      simp only [WaiterTable.openJoin, listed] at found ⊢
      exact ⟨wf.vacant, wf.distinct, fun index held => absurd held List.not_mem_nil,
        List.nodup_nil⟩
  | cons reused freeJoins =>
      rw [listed, List.nodup_cons] at distinct
      simp only [WaiterTable.openJoin, listed] at found ⊢
      refine ⟨wf.vacant, wf.distinct, fun index held => ?_, distinct.2⟩
      obtain ⟨bound, empty⟩ :=
        wf.closed index (by rw [listed]; exact List.mem_cons_of_mem _ held)
      refine ⟨by simpa only [Array.size_setIfInBounds] using bound, ?_⟩
      have other : index ≠ t.upcomingJoin := by
        rintro rfl
        refine distinct.1 ?_
        simpa only [upcomingJoin, listed, List.headD_cons] using held
      rw [found, if_neg other]
      exact empty

theorem completeBranch_kept (t : WaiterTable β) (index : Nat) :
    (t.completeBranch index).2.lastToken = t.lastToken ∧
      ∀ slot, (t.completeBranch index).2.waiter? slot = t.waiter? slot := by
  unfold completeBranch
  rcases (t.joins[index]?).join with _ | group
  · exact ⟨rfl, fun _ => rfl⟩
  · dsimp only
    split <;> exact ⟨rfl, fun _ => rfl⟩

theorem bound_of_join? {index : Nat} {group : JoinGroup} (found : t.join? index = some group) :
    index < t.joins.size := by
  by_cases bound : index < t.joins.size
  · exact bound
  · rw [join?_of_size_le (Nat.not_lt.mp bound)] at found
    cases found

theorem join?_setJoin {index : Nat} (bound : index < t.joins.size) (group : Option JoinGroup)
    (x : Nat) :
    ((t.joins.setIfInBounds index group)[x]?).join = if x = index then group else t.join? x := by
  rw [Array.getElem?_setIfInBounds]
  by_cases here : index = x
  · rw [if_pos here, if_pos bound, if_pos here.symm]
    rfl
  · rw [if_neg here, if_neg (Ne.symm here)]
    rfl

/-- A branch that is not the last one counts the group down. -/
theorem completeBranch_of_lt {index : Nat} {group : JoinGroup}
    (found : t.join? index = some group) (more : 1 < group.remaining) :
    (t.completeBranch index).1 = none ∧
      ∀ x, (t.completeBranch index).2.join? x =
        if x = index then some { group with remaining := group.remaining - 1 } else t.join? x := by
  have found' : (t.joins[index]?).join = some group := found
  simp only [completeBranch, found', if_pos more, true_and]
  exact join?_setJoin (bound_of_join? found) _

/-- The last branch closes the group. -/
theorem completeBranch_of_le {index : Nat} {group : JoinGroup}
    (found : t.join? index = some group) (last : group.remaining ≤ 1) :
    (t.completeBranch index).1 = some group.caller ∧
      ∀ x, (t.completeBranch index).2.join? x = if x = index then none else t.join? x := by
  have found' : (t.joins[index]?).join = some group := found
  simp only [completeBranch, found', if_neg (Nat.not_lt.mpr last), true_and]
  exact join?_setJoin (bound_of_join? found) _

theorem WellFormed.completeBranch (wf : t.WellFormed) (index : Nat) :
    (t.completeBranch index).2.WellFormed := by
  cases found : t.join? index with
  | none =>
      have found' : (t.joins[index]?).join = none := found
      simpa only [WaiterTable.completeBranch, found'] using wf
  | some group =>
      have found' : (t.joins[index]?).join = some group := found
      by_cases more : 1 < group.remaining
      · have counted := (completeBranch_of_lt found more).2
        simp only [WaiterTable.completeBranch, found', if_pos more] at counted ⊢
        refine ⟨wf.vacant, wf.distinct, fun x held => ?_, wf.distinctJoins⟩
        obtain ⟨bound, empty⟩ := wf.closed x held
        refine ⟨by simpa only [Array.size_setIfInBounds] using bound, ?_⟩
        have other : x ≠ index := by
          rintro rfl
          exact absurd (found.symm.trans empty) nofun
        rw [counted, if_neg other]
        exact empty
      · have closed := (completeBranch_of_le found (Nat.not_lt.mp more)).2
        simp only [WaiterTable.completeBranch, found', if_neg more] at closed ⊢
        refine ⟨wf.vacant, wf.distinct, fun x held => ?_,
          List.nodup_cons.mpr ⟨fun held => ?_, wf.distinctJoins⟩⟩
        · rw [closed]
          rcases List.mem_cons.mp held with rfl | held
          · refine ⟨?_, if_pos rfl⟩
            simpa only [Array.size_setIfInBounds] using bound_of_join? found
          · obtain ⟨bound, empty⟩ := wf.closed x held
            refine ⟨by simpa only [Array.size_setIfInBounds] using bound, ?_⟩
            split
            · rfl
            · exact empty
        · exact absurd (found.symm.trans (wf.closed index held).2) nofun

end WaiterTable

end DeltaCycle
