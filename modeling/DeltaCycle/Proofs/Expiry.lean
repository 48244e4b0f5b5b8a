import Mathlib.Data.List.Induction
import Mathlib.Data.List.Nodup
import DeltaCycle.Proofs.Headcount

/-!
# Armings expire for good

An arming that is handed out may be claimed once, and when it is not the current one of its waiter
any more it never is again, whatever becomes of its slot: tokens only grow. Whatever calls are made
of a table, the slots that it holds for reuse are the empty ones.
-/

set_option autoImplicit false

namespace DeltaCycle

namespace WaiterTable

variable {β : Type} {t t' : WaiterTable β}

/-! ## Tidy tables -/

/-- Every empty slot is held for reuse, and the waiters are counted. -/
structure Tidy (t : WaiterTable β) : Prop where
  wellFormed : t.WellFormed
  filed : ∀ slot < t.slots.size, t.waiter? slot = none → slot ∈ t.free
  counted : t.live = t.slots.countP Option.isSome

theorem tidy_drain (t : WaiterTable β) : t.drain.Tidy where
  wellFormed := wellFormed_empty.setToken t.lastToken
  filed _ bound := absurd bound (Nat.not_lt_zero _)
  counted := rfl

theorem headcount_all (t : WaiterTable β) :
    t.headcount (fun _ => true) = t.slots.countP Option.isSome := by
  refine congrArg (Array.countP · t.slots) (funext fun place => ?_)
  cases place <;> rfl

namespace Tidy

/-- A slot is held for reuse exactly if it is empty. -/
theorem mem_free_iff (tidy : t.Tidy) (slot : Nat) :
    slot ∈ t.free ↔ slot < t.slots.size ∧ t.waiter? slot = none := by
  constructor
  · exact tidy.wellFormed.vacant slot
  · rintro ⟨bound, empty⟩
    exact tidy.filed slot bound empty

theorem insert (tidy : t.Tidy) (name : String) (body : β) (parent : Option Continuation) :
    (t.insert name body parent).2.Tidy := by
  obtain ⟨wf, filed, counted⟩ := tidy
  refine ⟨wf.insert name body parent, ?_, ?_⟩
  · intro slot bound empty
    rw [wf.waiter?_insert] at empty
    split at empty
    · cases empty
    · next other =>
        simp only [WaiterTable.insert, upcoming] at bound other ⊢
        cases listed : t.free with
        | nil =>
            simp only [listed, List.headD_nil, Array.size_push] at bound other
            exact absurd (listed ▸ filed slot (by omega) empty) List.not_mem_nil
        | cons reused free =>
            simp only [listed, List.headD_cons, Array.size_setIfInBounds] at bound other ⊢
            have held := filed slot bound empty
            rw [listed] at held
            exact (List.mem_cons.mp held).resolve_left other
  · have more := headcount_insert (fun _ => true) wf name body parent
    rw [headcount_all, headcount_all, ← counted, if_pos rfl] at more
    rw [more]
    unfold WaiterTable.insert
    cases t.free <;> rfl

theorem modify (tidy : t.Tidy) (slot : Nat) (f : Waiter β → Waiter β) : (t.modify slot f).Tidy := by
  refine ⟨tidy.wellFormed.modify slot f, ?_, ?_⟩
  · intro x bound empty
    refine tidy.filed x (by simpa only [WaiterTable.modify, Array.size_modify] using bound) ?_
    rw [waiter?_modify] at empty
    split at empty
    · exact Option.map_eq_none_iff.mp empty
    · exact empty
  · have same := headcount_modify (t := t) (fun _ => true) slot (f := f) fun _ => rfl
    rw [headcount_all, headcount_all] at same
    exact tidy.counted.trans same.symm

theorem setToken (tidy : t.Tidy) (lastToken : Nat) : { t with lastToken }.Tidy :=
  ⟨tidy.wellFormed.setToken lastToken, tidy.filed, tidy.counted⟩

theorem consume (tidy : t.Tidy) (a : Arming) : (t.consume a).2.Tidy := by
  unfold WaiterTable.consume
  split
  · dsimp only
    split
    · exact (tidy.setToken _).modify _ _
    · exact tidy.setToken _
  · exact tidy

theorem remove (tidy : t.Tidy) (slot : Nat) : (t.remove slot).2.Tidy := by
  obtain ⟨wf, filed, counted⟩ := tidy
  refine ⟨wf.remove slot, ?_, ?_⟩
  · intro x bound empty
    rw [waiter?_remove] at empty
    cases found : t.waiter? slot with
    | none =>
        simp only [WaiterTable.remove, found] at bound ⊢
        split at empty
        · next here => exact filed x bound (here ▸ found)
        · exact filed x bound empty
    | some waiter =>
        simp only [WaiterTable.remove, found, Array.size_setIfInBounds] at bound ⊢
        split at empty
        · next here => exact here ▸ List.mem_cons_self
        · exact List.mem_cons_of_mem _ (filed x bound empty)
  · cases found : t.waiter? slot with
    | none => simpa only [WaiterTable.remove, found] using counted
    | some waiter =>
        have fewer := headcount_remove (fun _ => true) found
        rw [headcount_all, headcount_all, ← counted, if_pos rfl] at fewer
        simp only [WaiterTable.remove, found] at fewer ⊢
        omega

/-- What is done to join groups does not concern the slots. -/
theorem of_slots (tidy : t.Tidy) (wf : t'.WellFormed)
    (same : t'.slots = t.slots ∧ t'.free = t.free ∧ t'.live = t.live) : t'.Tidy := by
  obtain ⟨slots, free, live⟩ := same
  refine ⟨wf, ?_, ?_⟩
  · simpa only [waiter?, slots, free] using tidy.filed
  · rw [live, slots]
    exact tidy.counted

theorem openJoin (tidy : t.Tidy) (count : Nat) (caller : Arming) :
    (t.openJoin count caller).2.Tidy :=
  tidy.of_slots (tidy.wellFormed.openJoin count caller) (t.openJoin_slots count caller)

theorem completeBranch (tidy : t.Tidy) (index : Nat) : (t.completeBranch index).2.Tidy :=
  tidy.of_slots (tidy.wellFormed.completeBranch index) (t.completeBranch_slots index)

end Tidy

/-! ## Growing older -/

/-- No arming that was handed out comes back: what is current now was current before or is new. -/
structure Ages (t t' : WaiterTable β) (new : List Arming) : Prop where
  later : t.lastToken ≤ t'.lastToken
  fresh : ∀ a ∈ new, t.lastToken < a.token ∧ a.token ≤ t'.lastToken
  known : ∀ a, t'.isLive a = true → t.isLive a = true ∨ a ∈ new

theorem Ages.stale {new : List Arming} (ages : Ages t t' new) {a : Arming}
    (issued : a.token ≤ t.lastToken) (stale : t.isLive a = false) : t'.isLive a = false := by
  refine Bool.eq_false_iff.mpr fun live => ?_
  rcases ages.known a live with live | listed
  · exact Bool.false_ne_true (stale.symm.trans live)
  · exact absurd (ages.fresh a listed).1 (Nat.not_lt.mpr issued)

/-- A table whose waiters are those that there were, under their tokens. -/
theorem ages_of_tokens (later : t.lastToken ≤ t'.lastToken)
    (tokens : ∀ slot waiter', t'.waiter? slot = some waiter' →
      ∃ waiter, t.waiter? slot = some waiter ∧ waiter.token = waiter'.token) : Ages t t' [] := by
  refine ⟨later, fun a listed => absurd listed List.not_mem_nil, fun a live => .inl ?_⟩
  obtain ⟨waiter', found', token'⟩ := (t'.isLive_iff a).mp live
  obtain ⟨waiter, found, token⟩ := tokens a.slot waiter' found'
  exact (t.isLive_iff a).mpr ⟨waiter, found, token.trans token'⟩

theorem ages_insert (wf : t.WellFormed) (name : String) (body : β)
    (parent : Option Continuation) :
    Ages t (t.insert name body parent).2 [(t.insert name body parent).1] := by
  have token := t.lastToken_insert name body parent
  rw [insert_fst]
  refine ⟨by omega, ?_, fun a live => ?_⟩
  · intro a listed
    obtain rfl := List.mem_singleton.mp listed
    exact ⟨Nat.lt_succ_self _, Nat.le_of_eq token.symm⟩
  · obtain ⟨waiter, found, current⟩ := (isLive_iff _ a).mp live
    rw [wf.waiter?_insert] at found
    split at found
    · next here =>
        cases found
        refine .inr (List.mem_singleton.mpr ?_)
        obtain ⟨slot, token⟩ := a
        cases here
        cases current
        rfl
    · exact .inl ((t.isLive_iff a).mpr ⟨waiter, found, current⟩)

theorem ages_modify (slot : Nat) {f : Waiter β → Waiter β} (same : ∀ w, (f w).token = w.token) :
    Ages t (t.modify slot f) [] := by
  refine ages_of_tokens (Nat.le_refl _) fun x waiter' found' => ?_
  rw [waiter?_modify] at found'
  split at found'
  · obtain ⟨waiter, found, rfl⟩ := Option.map_eq_some_iff.mp found'
    exact ⟨waiter, found, (same waiter).symm⟩
  · exact ⟨waiter', found', rfl⟩

theorem ages_remove (slot : Nat) : Ages t (t.remove slot).2 [] := by
  refine ages_of_tokens (Nat.le_of_eq (t.lastToken_remove slot).symm) fun x waiter' found' => ?_
  rw [waiter?_remove] at found'
  split at found'
  · cases found'
  · exact ⟨waiter', found', rfl⟩

theorem ages_drain : Ages t t.drain [] :=
  ages_of_tokens (Nat.le_refl _) fun _ _ found => nomatch found

/-- A claimed arming gives way to a new one. -/
theorem ages_of_claimed {a me : Arming} {body : β} {stale : List SignalId}
    (claimed : t.consume a = (some (me, body, stale), t')) : Ages t t' [me] := by
  obtain ⟨waiter, found, current, -, -, rfl, rfl⟩ := claimed_of_consume claimed
  refine ⟨Nat.le_succ _, ?_, fun b live => ?_⟩
  · intro b listed
    obtain rfl := List.mem_singleton.mp listed
    exact ⟨Nat.lt_succ_self _, Nat.le_refl _⟩
  · obtain ⟨waiter', found', token'⟩ := (isLive_iff _ b).mp live
    rw [waiter?_modify] at found'
    split at found'
    · next here =>
        obtain ⟨w, -, rfl⟩ := Option.map_eq_some_iff.mp found'
        refine .inr (List.mem_singleton.mpr ?_)
        obtain ⟨slot, token⟩ := b
        cases here
        cases token'
        rfl
    · exact .inl ((t.isLive_iff b).mpr ⟨waiter', found', token'⟩)

theorem ages_of_unclaimed {a : Arming} (unclaimed : t.consume a = (none, t')) :
    Ages t t' [] := by
  obtain ⟨lastToken, later, rfl⟩ := eq_of_unclaimed unclaimed
  exact ages_of_tokens later fun _ waiter found => ⟨waiter, found, rfl⟩

/-! ## Calls of a table -/

inductive Call (β : Type) where
  | insert (name : String) (body : β) (parent : Option Continuation)
  | consume (a : Arming)
  | restore (slot : Nat) (body : β)
  | remove (slot : Nat)
  | noteSubscription (slot : Nat) (signal : SignalId)
  | openJoin (count : Nat) (caller : Arming)
  | completeBranch (index : Nat)
  | drain

/-- A table, the armings that it handed out, and those that were claimed. -/
structure Record (β : Type) where
  table : WaiterTable β := {}
  issued : List Arming := []
  claimed : List Arming := []

namespace Record

def serve (r : Record β) : Call β → Record β
  | .insert name body parent =>
      { r with table := (r.table.insert name body parent).2,
               issued := r.issued ++ [(r.table.insert name body parent).1] }
  | .consume a =>
      match r.table.consume a with
      | (some (me, _, _), table) =>
          { table, issued := r.issued ++ [me], claimed := r.claimed ++ [a] }
      | (none, table) => { r with table }
  | .restore slot body => { r with table := r.table.restore slot body }
  | .remove slot => { r with table := (r.table.remove slot).2 }
  | .noteSubscription slot signal => { r with table := r.table.noteSubscription slot signal }
  | .openJoin count caller => { r with table := (r.table.openJoin count caller).2 }
  | .completeBranch index => { r with table := (r.table.completeBranch index).2 }
  | .drain => { r with table := r.table.drain }

/-- What is on record after calls of a table that begins empty. -/
def ofCalls (calls : List (Call β)) : Record β := calls.foldl serve {}

/-- Armings are handed out in the order of their tokens, the current ones are among them, and those
that were claimed are not current. -/
structure Sound (r : Record β) : Prop where
  tidy : r.table.Tidy
  ordered : r.issued.Pairwise (·.token < ·.token)
  issued : ∀ a ∈ r.issued, a.token ≤ r.table.lastToken
  current : ∀ a, r.table.isLive a = true → a ∈ r.issued
  spent : ∀ a ∈ r.claimed, a ∈ r.issued ∧ r.table.isLive a = false
  once : r.claimed.Nodup

theorem sound_empty : ({} : Record β).Sound where
  tidy := tidy_drain {}
  ordered := .nil
  issued _ listed := absurd listed List.not_mem_nil
  current _ live := nomatch live
  spent _ listed := absurd listed List.not_mem_nil
  once := List.nodup_nil

variable {r r' : Record β}

/-- What a call may do: the table ages, with some armings that are new, and an arming that is
claimed was current and is not any more. -/
structure Step (r r' : Record β) (new : List Arming) : Prop where
  tidy : r'.table.Tidy
  ages : Ages r.table r'.table new
  ordered : new.Pairwise (·.token < ·.token)
  issued : r'.issued = r.issued ++ new
  claimed : r'.claimed = r.claimed ∨ ∃ a, r'.claimed = r.claimed ++ [a] ∧
    r.table.isLive a = true ∧ (a.token ≤ r.table.lastToken → r'.table.isLive a = false)

/-- A table that ages without arming anyone. -/
theorem Step.kept (tidy : t'.Tidy) (ages : Ages r.table t' []) :
    Step r { r with table := t' } [] where
  tidy := tidy
  ages := ages
  ordered := .nil
  issued := (List.append_nil _).symm
  claimed := .inl rfl

theorem Step.claim (tidy : r.table.Tidy) {a me : Arming} {body : β} {stale : List SignalId}
    (claims : r.table.consume a = (some (me, body, stale), t')) :
    Step r { table := t', issued := r.issued ++ [me], claimed := r.claimed ++ [a] } [me] where
  tidy := by
    have tidy' := tidy.consume a
    rwa [claims] at tidy'
  ages := ages_of_claimed claims
  ordered := List.pairwise_singleton ..
  issued := rfl
  claimed := by
    obtain ⟨waiter, found, current, -⟩ := claimed_of_consume claims
    -- That the token was given out before is left to the record.
    refine .inr ⟨a, rfl, (r.table.isLive_iff a).mpr ⟨waiter, found, current⟩, fun known => ?_⟩
    exact (Vacates.consume tidy.wellFormed claims).stale known (.inr rfl)

theorem step_serve (tidy : r.table.Tidy) (call : Call β) : ∃ new, Step r (r.serve call) new := by
  cases call with
  | insert name body parent =>
      exact ⟨_, tidy.insert name body parent, ages_insert tidy.wellFormed name body parent,
        List.pairwise_singleton .., rfl, .inl rfl⟩
  | consume a =>
      simp only [serve]
      cases claims : r.table.consume a with
      | mk claimed table =>
          cases claimed with
          | none =>
              have kept := tidy.consume a
              rw [claims] at kept
              exact ⟨_, .kept kept (ages_of_unclaimed claims)⟩
          | some claimed =>
              obtain ⟨me, body, stale⟩ := claimed
              exact ⟨_, .claim tidy claims⟩
  | restore slot body => exact ⟨_, .kept (tidy.modify slot _) (ages_modify slot fun _ => rfl)⟩
  | remove slot => exact ⟨_, .kept (tidy.remove slot) (ages_remove slot)⟩
  | noteSubscription slot signal =>
      exact ⟨_, .kept (tidy.modify slot _) (ages_modify slot fun _ => rfl)⟩
  | openJoin count caller =>
      obtain ⟨token, found⟩ := r.table.openJoin_kept count caller
      refine ⟨_, .kept (tidy.openJoin count caller) (ages_of_tokens (Nat.le_of_eq token.symm) ?_)⟩
      exact fun slot waiter here => ⟨waiter, (found slot).symm.trans here, rfl⟩
  | completeBranch index =>
      obtain ⟨token, found⟩ := r.table.completeBranch_kept index
      refine ⟨_, .kept (tidy.completeBranch index) (ages_of_tokens (Nat.le_of_eq token.symm) ?_)⟩
      exact fun slot waiter here => ⟨waiter, (found slot).symm.trans here, rfl⟩
  | drain => exact ⟨_, .kept (tidy_drain _) ages_drain⟩

theorem Sound.step (sound : r.Sound) {new : List Arming} (step : Step r r' new) : r'.Sound := by
  obtain ⟨tidy, ages, ordered, issued, claimed⟩ := step
  have kept : ∀ a ∈ r.claimed, a ∈ r'.issued ∧ r'.table.isLive a = false := by
    intro a before
    obtain ⟨known, stale⟩ := sound.spent a before
    rw [issued]
    exact ⟨List.mem_append_left _ known, ages.stale (sound.issued a known) stale⟩
  refine ⟨tidy, ?_, ?_, ?_, ?_, ?_⟩
  · rw [issued]
    refine List.pairwise_append.mpr ⟨sound.ordered, ordered, fun a old b added => ?_⟩
    exact Nat.lt_of_le_of_lt (sound.issued a old) (ages.fresh b added).1
  · rw [issued]
    refine List.forall_mem_append.mpr ⟨fun a old => ?_, fun a added => ?_⟩
    · exact Nat.le_trans (sound.issued a old) ages.later
    · exact (ages.fresh a added).2
  · intro a live
    rw [issued]
    rcases ages.known a live with live | added
    · exact List.mem_append_left _ (sound.current a live)
    · exact List.mem_append_right _ added
  · rcases claimed with same | ⟨a, more, live, expires⟩
    · rwa [same]
    · rw [more]
      refine List.forall_mem_append.mpr ⟨kept, fun b now => ?_⟩
      obtain rfl := List.mem_singleton.mp now
      have known := sound.current b live
      rw [issued]
      exact ⟨List.mem_append_left _ known, expires (sound.issued b known)⟩
  · rcases claimed with same | ⟨a, more, live, -⟩
    · rw [same]
      exact sound.once
    · -- What is claimed now was current, and what was claimed before was not.
      rw [more, List.nodup_append]
      refine ⟨sound.once, List.nodup_singleton a, fun b before c now same => ?_⟩
      obtain rfl := List.mem_singleton.mp now
      have stale := (sound.spent b before).2
      rw [same] at stale
      exact Bool.false_ne_true (stale.symm.trans live)

theorem sound_ofCalls (calls : List (Call β)) : (ofCalls calls).Sound := by
  induction calls using List.reverseRecOn with
  | nil => exact sound_empty
  | append_singleton calls call ih =>
      rw [ofCalls, List.foldl_append]
      obtain ⟨new, step⟩ := step_serve ih.tidy call
      exact ih.step step

/-- What was handed out and has expired stays so whatever calls are made. -/
theorem expired_ofCalls {calls : List (Call β)} {a : Arming}
    (issued : a ∈ (ofCalls calls).issued) (expired : (ofCalls calls).table.isLive a = false)
    (more : List (Call β)) :
    a ∈ (ofCalls (calls ++ more)).issued ∧ (ofCalls (calls ++ more)).table.isLive a = false := by
  induction more using List.reverseRecOn with
  | nil =>
      rw [List.append_nil]
      exact ⟨issued, expired⟩
  | append_singleton more call ih =>
      have sound := sound_ofCalls (calls ++ more)
      obtain ⟨new, step⟩ := step_serve sound.tidy call
      rw [← List.append_assoc, ofCalls, List.foldl_append]
      refine ⟨?_, step.ages.stale (sound.issued a ih.1) ih.2⟩
      exact step.issued ▸ List.mem_append_left _ ih.1

/-- Whatever calls are made of a table: no arming is handed out twice and none is claimed twice;
the current ones were handed out and not claimed; one that was handed out and is not current never
is again; and the table counts the slots that are occupied and holds the others for reuse, each
once. -/
theorem armings_expire_for_good (calls : List (Call β)) :
    let r := ofCalls calls
    r.issued.Nodup ∧ r.claimed.Nodup ∧
    (∀ a, r.table.isLive a = true → a ∈ r.issued ∧ a ∉ r.claimed) ∧
    (∀ a ∈ r.issued, r.table.isLive a = false →
      ∀ more, (ofCalls (calls ++ more)).table.isLive a = false) ∧
    r.table.size = r.table.slots.countP Option.isSome ∧ r.table.free.Nodup ∧
    ∀ slot, slot ∈ r.table.free ↔ slot < r.table.slots.size ∧ r.table.waiter? slot = none := by
  have sound := sound_ofCalls calls
  refine ⟨?_, sound.once, ?_, ?_, sound.tidy.counted, sound.tidy.wellFormed.distinct,
    sound.tidy.mem_free_iff⟩
  · refine sound.ordered.imp fun {a b} before same => ?_
    rw [same] at before
    exact Nat.lt_irrefl _ before
  · intro a live
    refine ⟨sound.current a live, fun claimed => ?_⟩
    exact Bool.false_ne_true ((sound.spent a claimed).2.symm.trans live)
  · intro a issued expired more
    exact (expired_ofCalls issued expired more).2

theorem a_reused_slot_revives_no_arming :
    let calls : List (Call Unit) := [.insert "first" () none, .consume ⟨0, 1⟩, .remove 0,
      .insert "second" () none]
    (ofCalls calls).issued = [⟨0, 1⟩, ⟨0, 2⟩, ⟨0, 3⟩] ∧
      (ofCalls (calls ++ [.restore 0 (), .remove 0])).table.isLive ⟨0, 2⟩ = false :=
  ⟨by decide +kernel,
    (armings_expire_for_good _).2.2.2.1 ⟨0, 2⟩ (by decide +kernel) (by decide +kernel) _⟩

end Record

end WaiterTable

end DeltaCycle
