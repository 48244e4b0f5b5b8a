import DeltaCycle.Proofs.Slots

/-!
# How waiter tables evolve

A table evolves if its waiters stay and the others are new. An arming that is stale stays so for
good, since tokens are not given out again. Only a waiter that is claimed or leaves is not one that
stays.
-/

set_option autoImplicit false

namespace DeltaCycle

namespace WaiterTable

variable {β : Type} {t t' t'' : WaiterTable β}

/-! ## Waiters that stay -/

/-- The arming is the current one of a waiter that remembers the signal. -/
def Remembers (t : WaiterTable β) (a : Arming) (signal : SignalId) : Prop :=
  ∃ waiter, t.waiter? a.slot = some waiter ∧ waiter.token = a.token ∧
    signal ∈ waiter.subscriptions

/-- Every waiter stays under its token and name and forgets nothing, and all others are new. The
callers of join groups are those that there were. -/
structure Evolves (t t' : WaiterTable β) : Prop where
  wellFormed : t'.WellFormed
  later : t.lastToken ≤ t'.lastToken
  kept : ∀ {slot waiter}, t.waiter? slot = some waiter → ∃ waiter', t'.waiter? slot = some waiter' ∧
    waiter'.token = waiter.token ∧ waiter'.name = waiter.name ∧
      ∀ id ∈ waiter.subscriptions, id ∈ waiter'.subscriptions
  others : ∀ {slot waiter'}, t'.waiter? slot = some waiter' →
    (∃ waiter, t.waiter? slot = some waiter ∧ waiter.token = waiter'.token) ∨
      t.lastToken < waiter'.token ∧ waiter'.token ≤ t'.lastToken
  callers : ∀ {key group'}, t'.join? key = some group' →
    ∃ group, t.join? key = some group ∧ group.caller = group'.caller

namespace Evolves

theorem refl (wf : t.WellFormed) : Evolves t t where
  wellFormed := wf
  later := Nat.le_refl _
  kept found := ⟨_, found, rfl, rfl, fun _ => id⟩
  others found := .inl ⟨_, found, rfl⟩
  callers found := ⟨_, found, rfl⟩

theorem trans (first : Evolves t t') (second : Evolves t' t'') : Evolves t t'' where
  wellFormed := second.wellFormed
  later := Nat.le_trans first.later second.later
  kept found := by
    obtain ⟨waiter', found', token', name', remembers'⟩ := first.kept found
    obtain ⟨waiter'', found'', token'', name'', remembers''⟩ := second.kept found'
    exact ⟨waiter'', found'', token''.trans token', name''.trans name',
      fun id listed => remembers'' id (remembers' id listed)⟩
  others found := by
    have earlier := first.later
    have later := second.later
    rcases second.others found with ⟨waiter', found', token⟩ | ⟨lower, upper⟩
    · rcases first.others found' with ⟨waiter, found, token'⟩ | ⟨lower, upper⟩
      · exact .inl ⟨waiter, found, token'.trans token⟩
      · exact .inr ⟨by omega, by omega⟩
    · exact .inr ⟨by omega, upper⟩
  callers found := by
    obtain ⟨group', found', caller'⟩ := second.callers found
    obtain ⟨group, found, caller⟩ := first.callers found'
    exact ⟨group, found, caller.trans caller'⟩

theorem insert (wf : t.WellFormed) (name : String) (body : β) (parent : Option Continuation) :
    Evolves t (t.insert name body parent).2 where
  wellFormed := wf.insert name body parent
  later := by
    rw [lastToken_insert]
    exact Nat.le_succ _
  kept {slot waiter} found := by
    have elsewhere : slot ≠ t.upcoming.slot := by
      rintro rfl
      cases wf.waiter?_upcoming.symm.trans found
    refine ⟨waiter, ?_, rfl, rfl, fun _ => id⟩
    rw [wf.waiter?_insert, if_neg elsewhere]
    exact found
  others {slot waiter'} found := by
    rw [wf.waiter?_insert] at found
    split at found
    · cases found
      rw [lastToken_insert]
      exact .inr ⟨Nat.lt_succ_self _, Nat.le_refl _⟩
    · exact .inl ⟨waiter', found, rfl⟩
  callers {key group'} found := by
    rw [join?_insert] at found
    exact ⟨group', found, rfl⟩

theorem modify (wf : t.WellFormed) (slot : Nat) {f : Waiter β → Waiter β}
    (token : ∀ w, (f w).token = w.token) (name : ∀ w, (f w).name = w.name)
    (remembers : ∀ w, ∀ id ∈ w.subscriptions, id ∈ (f w).subscriptions) :
    Evolves t (t.modify slot f) where
  wellFormed := wf.modify slot f
  later := Nat.le_refl _
  kept {x waiter} found := by
    rw [waiter?_modify, found]
    split
    · exact ⟨f waiter, rfl, token waiter, name waiter, remembers waiter⟩
    · exact ⟨waiter, rfl, rfl, rfl, fun _ => id⟩
  others {x waiter'} found := by
    rw [waiter?_modify] at found
    split at found
    · obtain ⟨waiter, was, rfl⟩ := Option.map_eq_some_iff.mp found
      exact .inl ⟨waiter, was, (token waiter).symm⟩
    · exact .inl ⟨waiter', found, rfl⟩
  callers {key group'} found := ⟨group', found, rfl⟩

theorem completeBranch (wf : t.WellFormed) (index : Nat) :
    Evolves t (t.completeBranch index).2 := by
  obtain ⟨lastToken, waiters⟩ := t.completeBranch_kept index
  refine ⟨wf.completeBranch index, Nat.le_of_eq lastToken.symm, fun {slot waiter} found => ?_,
    fun {slot waiter'} found => ?_, fun {key group'} found => ?_⟩
  · exact ⟨waiter, (waiters slot).trans found, rfl, rfl, fun _ => id⟩
  · exact .inl ⟨waiter', (waiters slot).symm.trans found, rfl⟩
  · cases present : t.join? index with
    | none =>
        have same : (t.completeBranch index).2 = t := by
          have absent : (t.joins[index]?).join = none := present
          simp only [WaiterTable.completeBranch, absent]
        rw [same] at found
        exact ⟨group', found, rfl⟩
    | some group =>
        rcases Nat.lt_or_ge 1 group.remaining with more | last
        · obtain ⟨-, joins⟩ := completeBranch_of_lt present more
          rw [joins] at found
          split at found
          · next here =>
              cases found
              exact ⟨group, here ▸ present, rfl⟩
          · exact ⟨group', found, rfl⟩
        · obtain ⟨-, joins⟩ := completeBranch_of_le present last
          rw [joins] at found
          split at found
          · cases found
          · exact ⟨group', found, rfl⟩

variable (evolves : Evolves t t')

include evolves

theorem remembers {a : Arming} {signal : SignalId} (remembers : t.Remembers a signal) :
    t'.Remembers a signal := by
  obtain ⟨waiter, found, token, listed⟩ := remembers
  obtain ⟨waiter', found', token', -, more⟩ := evolves.kept found
  exact ⟨waiter', found', token'.trans token, more signal listed⟩

theorem isLive {a : Arming} (live : t.isLive a = true) : t'.isLive a = true := by
  obtain ⟨waiter, found, token⟩ := (t.isLive_iff a).mp live
  obtain ⟨waiter', found', token', -⟩ := evolves.kept found
  exact (t'.isLive_iff a).mpr ⟨waiter', found', token'.trans token⟩

/-- An arming that was issued and is stale stays stale. -/
theorem stale {a : Arming} (issued : a.token ≤ t.lastToken) (stale : t.isLive a = false) :
    t'.isLive a = false := by
  refine Bool.eq_false_iff.mpr fun live => ?_
  obtain ⟨waiter', found', token'⟩ := (t'.isLive_iff a).mp live
  rcases evolves.others found' with ⟨waiter, found, token⟩ | ⟨lower, -⟩
  · have live' := (t.isLive_iff a).mpr ⟨waiter, found, token.trans token'⟩
    exact Bool.false_ne_true (stale.symm.trans live')
  · omega

end Evolves

theorem Remembers.isLive {a : Arming} {signal : SignalId} (remembers : t.Remembers a signal) :
    t.isLive a = true := by
  obtain ⟨waiter, found, token, -⟩ := remembers
  exact (t.isLive_iff a).mpr ⟨waiter, found, token⟩

/-! ## Waiters that are claimed or leave -/

/-- What it takes to claim an arming, and what the table is then. -/
theorem claimed_of_consume {a me : Arming} {body : β} {stale : List SignalId}
    (claimed : t.consume a = (some (me, body, stale), t')) :
    ∃ waiter, t.waiter? a.slot = some waiter ∧ waiter.token = a.token ∧
      waiter.body = some body ∧ waiter.subscriptions = stale ∧ me = ⟨a.slot, t.lastToken + 1⟩ ∧
      t' = { t with lastToken := t.lastToken + 1 }.modify a.slot fun w =>
        { w with body := none, token := t.lastToken + 1, subscriptions := [] } := by
  cases live : t.isLive a with
  | false =>
      rw [consume_of_stale live] at claimed
      cases claimed
  | true =>
      obtain ⟨waiter, found, token⟩ := (t.isLive_iff a).mp live
      cases present : waiter.body with
      | none =>
          obtain ⟨name, _, token, parent, subscriptions⟩ := waiter
          cases present
          have found' : ({ t with lastToken := t.lastToken + 1 } : WaiterTable β).waiter? a.slot =
            _ := found
          simp only [consume, live, if_true, found'] at claimed
          cases claimed
      | some body' =>
          rw [consume_of_live found token present] at claimed
          cases claimed
          exact ⟨waiter, found, token, present, rfl, rfl, rfl⟩

/-- Whoever is claimed keeps the name. -/
theorem waiter?_of_consume {a me : Arming} {body : β} {stale : List SignalId}
    (claimed : t.consume a = (some (me, body, stale), t')) :
    ∃ waiter, t.waiter? a.slot = some waiter ∧ stale = waiter.subscriptions ∧
      me = ⟨a.slot, t.lastToken + 1⟩ ∧ t'.waiter? a.slot =
        some { waiter with body := none, token := t.lastToken + 1, subscriptions := [] } := by
  obtain ⟨waiter, found, -, -, rfl, rfl, rfl⟩ := claimed_of_consume claimed
  refine ⟨waiter, found, rfl, rfl, ?_⟩
  rw [waiter?_modify, if_pos rfl]
  exact congrArg _ found

/-- The waiter of the slot is claimed or leaves: its armings so far are stale, and all else is as it
was. -/
structure Vacates (slot : Nat) (t t' : WaiterTable β) : Prop where
  wellFormed : t'.WellFormed
  later : t.lastToken ≤ t'.lastToken
  here : ∀ {waiter'}, t'.waiter? slot = some waiter' →
    t.lastToken < waiter'.token ∧ waiter'.token ≤ t'.lastToken
  elsewhere : ∀ {x}, x ≠ slot → t'.waiter? x = t.waiter? x
  joins : ∀ key, t'.join? key = t.join? key

namespace Vacates

theorem remove (wf : t.WellFormed) (slot : Nat) : Vacates slot t (t.remove slot).2 where
  wellFormed := wf.remove slot
  later := Nat.le_of_eq (t.lastToken_remove slot).symm
  here found := by
    rw [waiter?_remove, if_pos rfl] at found
    cases found
  elsewhere other := by rw [waiter?_remove, if_neg other]
  joins := t.join?_remove slot

theorem consume (wf : t.WellFormed) {a me : Arming} {body : β} {stale : List SignalId}
    (claimed : t.consume a = (some (me, body, stale), t')) : Vacates a.slot t t' := by
  obtain ⟨waiter, -, -, -, -, -, rfl⟩ := claimed_of_consume claimed
  refine ⟨(wf.setToken _).modify _ _, Nat.le_succ _, fun found => ?_, fun other => ?_, fun _ => rfl⟩
  · rw [waiter?_modify, if_pos rfl] at found
    obtain ⟨w, -, rfl⟩ := Option.map_eq_some_iff.mp found
    exact ⟨Nat.lt_succ_self _, Nat.le_refl _⟩
  · rw [waiter?_modify, if_neg (Ne.symm other)]
    rfl

variable {slot : Nat} (vacates : Vacates slot t t')

include vacates

theorem remembers {a : Arming} {signal : SignalId} (other : a.slot ≠ slot)
    (remembers : t.Remembers a signal) : t'.Remembers a signal := by
  obtain ⟨waiter, found, token, listed⟩ := remembers
  exact ⟨waiter, (vacates.elsewhere other).trans found, token, listed⟩

/-- An arming that was issued is stale if it was before, or if it was one of the waiter. -/
theorem stale {a : Arming} (issued : a.token ≤ t.lastToken)
    (stale : t.isLive a = false ∨ a.slot = slot) : t'.isLive a = false := by
  refine Bool.eq_false_iff.mpr fun live => ?_
  obtain ⟨waiter', found', token'⟩ := (t'.isLive_iff a).mp live
  by_cases here : a.slot = slot
  · rw [here] at found'
    have fresh := (vacates.here found').1
    omega
  · rw [vacates.elsewhere here] at found'
    have live' := (t.isLive_iff a).mpr ⟨waiter', found', token'⟩
    exact Bool.false_ne_true ((stale.resolve_right here).symm.trans live')

end Vacates

/-- A claim that is refused does no more than to use up a token. -/
theorem eq_of_unclaimed {a : Arming} (unclaimed : t.consume a = (none, t')) :
    ∃ lastToken, t.lastToken ≤ lastToken ∧ t' = { t with lastToken } := by
  unfold consume at unclaimed
  split at unclaimed
  · dsimp only at unclaimed
    split at unclaimed
    · cases unclaimed
    · cases unclaimed
      exact ⟨_, Nat.le_succ _, rfl⟩
  · cases unclaimed
    exact ⟨_, Nat.le_refl _, rfl⟩

/-- An arming that cannot be claimed leaves the waiters as they are. -/
theorem evolves_of_consume {a : Arming} (wf : t.WellFormed)
    (unclaimed : t.consume a = (none, t')) : Evolves t t' := by
  obtain ⟨lastToken, later, rfl⟩ := eq_of_unclaimed unclaimed
  exact ⟨wf.setToken lastToken, later, fun found => ⟨_, found, rfl, rfl, fun _ => id⟩,
    fun found => .inl ⟨_, found, rfl⟩, fun found => ⟨_, found, rfl⟩⟩

end WaiterTable

end DeltaCycle
