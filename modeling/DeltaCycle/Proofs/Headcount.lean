import DeltaCycle.Proofs.Tenancy

/-!
# Headcounts

How many waiters of a table have a property, and what each operation does to their number. A table
is tidy if the slots that it holds for reuse are all those that are empty, and if its count of
waiters is right.
-/

set_option autoImplicit false

namespace DeltaCycle

namespace WaiterTable

variable {β : Type} {t : WaiterTable β}

/-- The number of waiters with a property. -/
def headcount (p : Waiter β → Bool) (t : WaiterTable β) : Nat := t.slots.countP (·.any p)

variable (p : Waiter β → Bool)

theorem headcount_pos_iff :
    0 < t.headcount p ↔ ∃ slot waiter, t.waiter? slot = some waiter ∧ p waiter = true := by
  rw [headcount, Array.countP_pos_iff]
  constructor
  · rintro ⟨place, listed, holds⟩
    obtain ⟨slot, bound, rfl⟩ := Array.mem_iff_getElem.mp listed
    obtain ⟨waiter, found, holds⟩ := (Option.any_eq_true ..).mp holds
    exact ⟨slot, waiter, by rw [waiter?, Array.getElem?_eq_getElem bound, found]; rfl, holds⟩
  · rintro ⟨slot, waiter, found, holds⟩
    have bound := bound_of_waiter? found
    rw [waiter?, Array.getElem?_eq_getElem bound] at found
    refine ⟨_, Array.getElem_mem bound, ?_⟩
    rw [show t.slots[slot] = some waiter from found]
    exact holds

theorem countP_setIfInBounds (place : Option (Waiter β)) {slot : Nat}
    (bound : slot < t.slots.size) :
    (t.slots.setIfInBounds slot place).countP (·.any p) +
        (if (t.waiter? slot).any p then 1 else 0) =
      t.headcount p + if place.any p then 1 else 0 := by
  have counted : (if (t.waiter? slot).any p then 1 else 0) ≤ t.headcount p := by
    have least := Array.boole_getElem_le_countP (p := (·.any p)) bound
    rwa [waiter?, Array.getElem?_eq_getElem bound]
  rw [Array.setIfInBounds, dif_pos bound, Array.countP_set bound]
  rw [waiter?, Array.getElem?_eq_getElem bound] at counted ⊢
  simp only [Option.join_some, headcount] at counted ⊢
  omega

theorem headcount_insert (wf : t.WellFormed) (name : String) (body : β)
    (parent : Option Continuation) :
    (t.insert name body parent).2.headcount p = t.headcount p +
      if p { name, body := some body, token := t.lastToken + 1, parent } then 1 else 0 := by
  unfold insert
  cases listed : t.free with
  | nil => exact Array.countP_push
  | cons slot free =>
      obtain ⟨bound, empty⟩ := wf.vacant slot (by rw [listed]; exact List.mem_cons_self ..)
      have counted := countP_setIfInBounds p
        (some { name, body := some body, token := t.lastToken + 1, parent }) bound
      rw [empty] at counted
      exact counted

theorem headcount_modify (slot : Nat) {f : Waiter β → Waiter β} (same : ∀ w, p (f w) = p w) :
    (t.modify slot f).headcount p = t.headcount p := by
  have image : (t.slots.modify slot (Option.map f)).map (·.any p) = t.slots.map (·.any p) := by
    refine Array.ext_getElem? fun i => ?_
    simp only [Array.getElem?_map, Array.getElem?_modify]
    split
    · rcases t.slots[i]? with _ | _ | waiter
      · rfl
      · rfl
      · exact congrArg some (same waiter)
    · rfl
  have counted := congrArg (Array.countP id) image
  rwa [Array.countP_map, Array.countP_map] at counted

theorem headcount_remove {slot : Nat} {waiter : Waiter β} (found : t.waiter? slot = some waiter) :
    (t.remove slot).2.headcount p + (if p waiter then 1 else 0) = t.headcount p := by
  have counted := countP_setIfInBounds p none (bound_of_waiter? found)
  rw [found] at counted
  simp only [remove, found]
  exact counted

/-! ## Join groups -/

theorem openJoin_slots (t : WaiterTable β) (count : Nat) (caller : Arming) :
    (t.openJoin count caller).2.slots = t.slots ∧ (t.openJoin count caller).2.free = t.free ∧
      (t.openJoin count caller).2.live = t.live := by
  unfold openJoin
  cases t.freeJoins <;> exact ⟨rfl, rfl, rfl⟩

theorem completeBranch_slots (t : WaiterTable β) (index : Nat) :
    (t.completeBranch index).2.slots = t.slots ∧ (t.completeBranch index).2.free = t.free ∧
      (t.completeBranch index).2.live = t.live := by
  unfold completeBranch
  cases (t.joins[index]?).join with
  | none => exact ⟨rfl, rfl, rfl⟩
  | some group =>
      dsimp only
      split <;> exact ⟨rfl, rfl, rfl⟩

theorem headcount_openJoin (count : Nat) (caller : Arming) :
    (t.openJoin count caller).2.headcount p = t.headcount p := by
  rw [headcount, headcount, (t.openJoin_slots count caller).1]

theorem headcount_completeBranch (index : Nat) :
    (t.completeBranch index).2.headcount p = t.headcount p := by
  rw [headcount, headcount, (t.completeBranch_slots index).1]

end WaiterTable

end DeltaCycle
