import DeltaCycle.Proofs.Sessions

/-!
# Twins

Two simulations are twins if they are the same but for the diagnostics that one of them found in its
kernel and for the bodies of their waiters, where bodies in corresponding slots do the same whenever
they are resumed. Whatever happens to one of two twins happens to the other one: they answer alike
and stay twins.
-/

set_option autoImplicit false

namespace DeltaCycle

variable {σ ω α β γ : Type}

/-! ## Diagnostics of before -/

/-- The log as it is where other diagnostics were recorded before. -/
def DiagnosticLog.following (log earlier : DiagnosticLog) : DiagnosticLog where
  recorded := log.recorded ++ earlier.recorded
  errors := log.errors + earlier.errors
  warnings := log.warnings + earlier.warnings

theorem DiagnosticLog.emit_following (log earlier : DiagnosticLog) (d : Diagnostic) :
    (log.following earlier).emit d = (log.emit d).following earlier := by
  simp only [following, emit, List.cons_append, mk.injEq, true_and]
  omega

namespace Kernel

/-- The kernel as it is where other diagnostics were recorded before. -/
def following (k : Kernel) (earlier : DiagnosticLog) : Kernel :=
  { k with diagnostics := k.diagnostics.following earlier }

variable (k : Kernel) (earlier : DiagnosticLog)

@[simp] theorem signal?_following (id : SignalId) :
    (k.following earlier).signal? id = k.signal? id := rfl

@[simp] theorem name_following (id : SignalId) : (k.following earlier).name id = k.name id := rfl

@[simp] theorem now_following : (k.following earlier).now = k.now := rfl

@[simp] theorem modify_following (id : SignalId) (f : Signal → Signal) :
    (k.following earlier).modify id f = (k.modify id f).following earlier := rfl

@[simp] theorem emit_following (d : Diagnostic) :
    (k.following earlier).emit d = (k.emit d).following earlier := by
  simp only [following, emit, DiagnosticLog.emit_following]

theorem write_following (id : SignalId) (value : Value) (fromRule : Bool) :
    (k.following earlier).write id value fromRule =
      ((k.write id value fromRule).1.following earlier, (k.write id value fromRule).2) := by
  have proposes : (k.following earlier).proposal id value fromRule = k.proposal id value fromRule :=
    rfl
  unfold write
  rw [proposes]
  cases k.proposal id value fromRule <;> rfl

theorem next?_following (id : SignalId) :
    (k.following earlier).next? id =
      (k.next? id).map fun reply => (reply.1, reply.2.following earlier) := by
  unfold next?
  rw [signal?_following]
  cases k.signal? id <;> rfl

theorem changeNext_following (id : SignalId) (change : Value → Except ValueError Value) :
    (k.following earlier).changeNext id change =
      ((k.changeNext id change).1.following earlier, (k.changeNext id change).2) := by
  unfold changeNext
  rw [next?_following]
  cases k.next? id with
  | none => rfl
  | some reply =>
      obtain ⟨current, k'⟩ := reply
      dsimp only [Option.map_some]
      cases change current with
      | error cause => rfl
      | ok value => exact k'.write_following earlier id value false

theorem partValues_following (parts : List ConcatPart) :
    (k.following earlier).partValues parts = k.partValues parts := by
  induction parts with
  | nil => rfl
  | cons part rest ih =>
      have here : (k.following earlier).partValue part = k.partValue part := by
        cases part <;> rfl
      simp only [partValues, here, ih]

end Kernel

/-! ## What is done on a kernel -/

theorem Request.perform_following (k : Kernel) (earlier : DiagnosticLog) (w : ω) (r : Request ω) :
    r.perform (k.following earlier) w =
      (r.perform k w).map fun turn => (turn.1, turn.2.1.following earlier, turn.2.2) := by
  cases r with
  | now | value _ | name _ | finish _ | world _ => rfl
  | next signal =>
      simp only [perform, Kernel.next?_following, Option.map_map]
      rfl
  | setNext signal value =>
      simp only [perform, Kernel.setNext, Kernel.write_following, Option.map_some]
  | setNextBit signal index bit =>
      simp only [perform, Kernel.setNextBit, Kernel.changeNext_following, Option.map_some]
  | setNextSlice signal hi lo content =>
      simp only [perform, Kernel.setNextSlice, Kernel.changeNext_following, Option.map_some]

/-- A change of the kernel that no request sees and every request leaves in place is one that no
activity sees. -/
theorem Activity.run_of_perform {g : Kernel → Kernel}
    (unseen : ∀ (k : Kernel) (w : ω) (r : Request ω), r.perform (g k) w =
      (r.perform k w).map fun turn => (turn.1, g turn.2.1, turn.2.2))
    (k : Kernel) (w : ω) (activity : Activity ω α) :
    activity.run (g k) w =
      (activity.run k w).map fun turn => (turn.1, g turn.2.1, turn.2.2) := by
  induction activity generalizing k w with
  | done answer => rfl
  | fail e => rfl
  | undefined => rfl
  | later go ih => exact ih () k w
  | ask request go ih =>
      simp only [run, unseen]
      cases request.perform k w with
      | none => rfl
      | some turn => exact ih turn.1 turn.2.1 turn.2.2

theorem Activity.run_following (k : Kernel) (earlier : DiagnosticLog) (w : ω)
    (activity : Activity ω α) :
    activity.run (k.following earlier) w =
      (activity.run k w).map fun turn => (turn.1, turn.2.1.following earlier, turn.2.2) :=
  run_of_perform (fun k => Request.perform_following k earlier) k w activity

theorem Shadow.evaluate_following (k : Kernel) (earlier : DiagnosticLog) (s : Shadow) :
    s.evaluate (k.following earlier) =
      ((s.evaluate k).1.following earlier, (s.evaluate k).2) := by
  unfold evaluate
  cases s.rule with
  | slice parent hi lo => rfl
  | bit parent index => rfl
  | concat parts => simp only [join, Kernel.partValues_following]
  | tristate drivers =>
      have same : asserted (k.following earlier) drivers = asserted k drivers := rfl
      have policy : (k.following earlier).contention = k.contention := rfl
      simp only [resolve, same, policy, Kernel.name_following, Kernel.now_following,
        Kernel.emit_following]
      rcases asserted k drivers with _ | ⟨v, _ | ⟨v', rest⟩⟩
      · rfl
      · rfl
      · cases k.contention <;> rfl

theorem Shadow.resume_following (k : Kernel) (earlier : DiagnosticLog) (s : Shadow) :
    s.resume (σ := σ) (k.following earlier) =
      ((s.resume (σ := σ) k).1.following earlier, (s.resume (σ := σ) k).2) := by
  unfold resume
  cases clause? (σ := σ) s with
  | none => rfl
  | some clause =>
      rw [evaluate_following]
      rcases s.evaluate k with ⟨k', e | v⟩
      · rfl
      · simp only [Kernel.write_following]
        rcases k'.write s.target v true with ⟨k'', _ | _⟩ <;> rfl

namespace Simulation

/-- What a body does does not depend on earlier diagnostics. -/
theorem act_following (B : Behaviours σ ω) (k : Kernel) (earlier : DiagnosticLog) (w : ω)
    (outputs : List SignalId) (body : Body σ) :
    act B (k.following earlier) w outputs body =
      (act B k w outputs body).map fun turn => (turn.1, turn.2.1.following earlier, turn.2.2) := by
  cases body with
  | process state =>
      simp only [act, Activity.run_following]
      rcases (B.resume state).run k w with _ | ⟨_ | _ | _, k', w'⟩ <;> rfl
  | branch clause => cases clause <;> rfl
  | shadow shadow =>
      simp only [act, Shadow.resume_following]
      rcases shadow.resume (σ := σ) k with ⟨k', _ | _ | _⟩ <;> rfl
  | always block started =>
      cases started with
      | false => rfl
      | true =>
          simp only [act, Activity.run_following]
          rcases (B.react block.body).run k w with _ | ⟨_ | _, k', w'⟩ <;> rfl
  | outputs => rfl

end Simulation

/-! ## Tables -/

/-- Two waiters differ at most in related bodies. -/
inductive Waiter.Like (R : β → β → Prop) : Waiter β → Waiter β → Prop where
  | mk (w : Waiter β) {body body' : Option β} (related : Option.Rel R body body') :
      Like R { w with body } { w with body := body' }

/-- Two rows of slots differ at most in related bodies of waiters in the same slot. -/
structure SlotsLike (R : β → β → Prop) (slots slots' : Array (Option (Waiter β))) : Prop where
  size : slots'.size = slots.size
  each : ∀ x : Nat, Option.Rel (Option.Rel (Waiter.Like R)) slots[x]? slots'[x]?

namespace SlotsLike

variable {R : β → β → Prop} {slots slots' : Array (Option (Waiter β))}

theorem set (like : SlotsLike R slots slots') (slot : Nat) {waiter waiter' : Option (Waiter β)}
    (related : Option.Rel (Waiter.Like R) waiter waiter') :
    SlotsLike R (slots.setIfInBounds slot waiter) (slots'.setIfInBounds slot waiter') := by
  constructor
  · simpa only [Array.size_setIfInBounds] using like.size
  · intro x
    simp only [Array.getElem?_setIfInBounds, like.size]
    by_cases here : slot = x
    · simp only [if_pos here]
      split
      · exact .some related
      · exact .none
    · simp only [if_neg here]
      exact like.each x

theorem push (like : SlotsLike R slots slots') {waiter waiter' : Option (Waiter β)}
    (related : Option.Rel (Waiter.Like R) waiter waiter') :
    SlotsLike R (slots.push waiter) (slots'.push waiter') := by
  constructor
  · simp only [Array.size_push, like.size]
  · intro x
    simp only [Array.getElem?_push, like.size]
    split
    · exact .some related
    · exact like.each x

theorem modify (like : SlotsLike R slots slots') (slot : Nat) {f f' : Waiter β → Waiter β}
    (related : ∀ w w', Waiter.Like R w w' → Waiter.Like R (f w) (f' w')) :
    SlotsLike R (slots.modify slot (Option.map f)) (slots'.modify slot (Option.map f')) := by
  constructor
  · simpa only [Array.size_modify] using like.size
  · intro x
    have here := like.each x
    simp only [Array.getElem?_modify]
    split
    · generalize slots[x]? = a, slots'[x]? = b at here ⊢
      cases here with
      | none => exact .none
      | some inner =>
          cases inner with
          | none => exact .some .none
          | some waiters => exact .some (.some (related _ _ waiters))
    · exact here

/-- What does not tell related bodies apart is the same in both rows. -/
theorem map_eq (like : SlotsLike R slots slots') (view : Waiter β → γ)
    (same : ∀ w w', Waiter.Like R w w' → view w' = view w) :
    slots'.map (Option.map view) = slots.map (Option.map view) := by
  refine Array.ext_getElem? fun x => ?_
  have here := like.each x
  simp only [Array.getElem?_map]
  generalize slots[x]? = a, slots'[x]? = b at here ⊢
  cases here with
  | none => rfl
  | some inner =>
      cases inner with
      | none => rfl
      | some waiters => simp only [Option.map_some, same _ _ waiters]

end SlotsLike

namespace WaiterTable

/-- Two tables differ at most in related bodies of waiters in the same slot. -/
inductive Like (R : β → β → Prop) (t : WaiterTable β) : WaiterTable β → Prop where
  | mk {slots : Array (Option (Waiter β))} (related : SlotsLike R t.slots slots) :
      Like R t { t with slots }

/-- Two claims are of the same arming, and their bodies are related. -/
inductive Claims (R : β → β → Prop) : Option (Arming × β × List SignalId) →
    Option (Arming × β × List SignalId) → Prop where
  | stale : Claims R none none
  | claimed (me : Arming) {body body' : β} (related : R body body') (stale : List SignalId) :
      Claims R (some (me, body, stale)) (some (me, body', stale))

namespace Like

variable {R : β → β → Prop} {t t' : WaiterTable β}

/-- Tables with the same bodies are the same. -/
theorem eq (like : Like Eq t t') : t' = t := by
  cases like with
  | mk related =>
      have same := related.map_eq id fun w w' waiters => by
        cases waiters with
        | mk w bodies =>
            cases bodies with
            | none => rfl
            | some body => rw [body]
      simp only [Option.map_id, Array.map_id] at same
      rw [same]

theorem waiter? (like : Like R t t') (slot : Nat) :
    Option.Rel (Waiter.Like R) (t.waiter? slot) (t'.waiter? slot) := by
  cases like with
  | @mk slots related =>
      have here := related.each slot
      unfold WaiterTable.waiter?
      dsimp only
      generalize t.slots[slot]? = a, slots[slot]? = b at here ⊢
      cases here with
      | none => exact .none
      | some inner => exact inner

theorem isLive (like : Like R t t') : t'.isLive = t.isLive := by
  funext a
  have here := like.waiter? a.slot
  unfold WaiterTable.isLive
  generalize t.waiter? a.slot = x, t'.waiter? a.slot = y at here ⊢
  cases here with
  | none => rfl
  | some inner =>
      cases inner
      rfl

theorem name (like : Like R t t') (slot : Nat) : t'.name slot = t.name slot := by
  have here := like.waiter? slot
  unfold WaiterTable.name
  generalize t.waiter? slot = x, t'.waiter? slot = y at here ⊢
  cases here with
  | none => rfl
  | some inner =>
      cases inner
      rfl

theorem restore (like : Like R t t') (slot : Nat) {body body' : β} (related : R body body') :
    Like R (t.restore slot body) (t'.restore slot body') := by
  cases like with
  | mk slots =>
      refine .mk (slots.modify slot ?_)
      intro w w' waiters
      cases waiters with
      | mk w old => exact .mk w (.some related)

theorem noteSubscription (like : Like R t t') (slot : Nat) (signal : SignalId) :
    Like R (t.noteSubscription slot signal) (t'.noteSubscription slot signal) := by
  cases like with
  | mk slots =>
      refine .mk (slots.modify slot ?_)
      intro w w' waiters
      cases waiters with
      | mk w related => exact .mk { w with subscriptions := signal :: w.subscriptions } related

theorem insert (like : Like R t t') (name : String) {body body' : β}
    (parent : Option Continuation) (related : R body body') :
    (t'.insert name body' parent).1 = (t.insert name body parent).1 ∧
      Like R (t.insert name body parent).2 (t'.insert name body' parent).2 := by
  cases like with
  | mk slots =>
      have added (token : Nat) : Option.Rel (Waiter.Like R)
          (some { name, body := some body, token, parent })
          (some { name, body := some body', token, parent }) :=
        .some (.mk { name, body := none, token, parent } (.some related))
      unfold WaiterTable.insert
      dsimp only
      cases t.free with
      | cons slot free => exact ⟨rfl, .mk (slots.set slot (added _))⟩
      | nil =>
          rw [slots.size]
          exact ⟨rfl, .mk (slots.push (added _))⟩

theorem remove (like : Like R t t') (slot : Nat) :
    (t'.remove slot).1 = (t.remove slot).1 ∧ Like R (t.remove slot).2 (t'.remove slot).2 := by
  have here := like.waiter? slot
  cases like with
  | @mk slots related =>
      unfold WaiterTable.remove
      generalize t.waiter? slot = x, WaiterTable.waiter? { t with slots } slot = y at here ⊢
      cases here with
      | none => exact ⟨rfl, .mk related⟩
      | some inner =>
          cases inner with
          | mk w bodies => exact ⟨rfl, .mk (related.set slot .none)⟩

theorem openJoin (like : Like R t t') (count : Nat) (caller : Arming) :
    (t'.openJoin count caller).1 = (t.openJoin count caller).1 ∧
      Like R (t.openJoin count caller).2 (t'.openJoin count caller).2 := by
  cases like with
  | mk related =>
      unfold WaiterTable.openJoin
      dsimp only
      cases t.freeJoins <;> exact ⟨rfl, .mk related⟩

theorem completeBranch (like : Like R t t') (index : Nat) :
    (t'.completeBranch index).1 = (t.completeBranch index).1 ∧
      Like R (t.completeBranch index).2 (t'.completeBranch index).2 := by
  cases like with
  | mk related =>
      unfold WaiterTable.completeBranch
      dsimp only
      cases (t.joins[index]?).join with
      | none => exact ⟨rfl, .mk related⟩
      | some group =>
          dsimp only
          split <;> exact ⟨rfl, .mk related⟩

theorem consume (like : Like R t t') (a : Arming) :
    Claims R (t.consume a).1 (t'.consume a).1 ∧ Like R (t.consume a).2 (t'.consume a).2 := by
  have here := like.waiter? a.slot
  have live := congrFun like.isLive a
  cases like with
  | @mk slots related =>
      unfold WaiterTable.consume
      rw [live]
      split
      · have same (lastToken : Nat) :
            WaiterTable.waiter? { t with lastToken } a.slot = t.waiter? a.slot := rfl
        have same' (lastToken : Nat) : WaiterTable.waiter? { t with slots, lastToken } a.slot =
            WaiterTable.waiter? { t with slots } a.slot := rfl
        dsimp only
        rw [same, same']
        generalize t.waiter? a.slot = x, WaiterTable.waiter? { t with slots } a.slot = y at here ⊢
        cases here with
        | none => exact ⟨.stale, .mk related⟩
        | some inner =>
            cases inner with
            | mk w bodies =>
                cases bodies with
                | none => exact ⟨.stale, .mk related⟩
                | some bodies =>
                    refine ⟨.claimed _ bodies _, .mk (related.modify a.slot ?_)⟩
                    intro w w' waiters
                    cases waiters with
                    | mk w old => exact .mk { w with token := t.lastToken + 1, subscriptions := [] } .none
      · exact ⟨.stale, .mk related⟩

end Like

end WaiterTable

/-! ## Twins -/

/-- Two acts differ at most in related bodies. -/
inductive Act.Like (R : Body σ → Body σ → Prop) : Act σ → Act σ → Prop where
  | completes : Like R .completes .completes
  | fails (e : SimError) : Like R (.fails e) (.fails e)
  | waits {body body' : Body σ} (related : R body body') (alternatives : List (Alternative σ)) :
      Like R (.waits body alternatives) (.waits body' alternatives)

namespace Simulation

/-- Related bodies do the same, and what they leave behind is related again. -/
structure Likeness (B : Behaviours σ ω) (R : Body σ → Body σ → Prop) : Prop where
  refl : ∀ body, R body body
  bridge : ∀ body body', R body body' → (body' = .outputs ↔ body = .outputs)
  acts : ∀ body body', R body body' → ∀ k w outputs,
    Option.Rel (fun turn turn' => Act.Like R turn.1 turn'.1 ∧ turn'.2 = turn.2)
      (act B k w outputs body) (act B k w outputs body')

/-- Every body does what it does. -/
theorem likeness_eq (B : Behaviours σ ω) : Likeness B Eq where
  refl _ := rfl
  bridge := by
    intro body body' same
    rw [same]
  acts := by
    intro body body' same k w outputs
    subst same
    cases act B k w outputs body with
    | none => exact .none
    | some turn =>
        obtain ⟨done, k', w'⟩ := turn
        refine .some ⟨?_, rfl⟩
        cases done with
        | completes => exact .completes
        | fails e => exact .fails e
        | waits body alternatives => exact .waits rfl alternatives

/-- Two simulations are the same but for earlier diagnostics of the second one and for related
bodies. -/
inductive Twin (R : Body σ → Body σ → Prop) (log : DiagnosticLog) (s : Simulation σ ω) :
    Simulation σ ω → Prop where
  | mk {waiters : WaiterTable (Body σ)} (like : s.waiters.Like R waiters) :
      Twin R log s { s with kernel := s.kernel.following log, waiters }

/-- Two transitions answer the same and lead to twins. -/
def Alike (R : Body σ → Body σ → Prop) (log : DiagnosticLog) (p p' : Simulation σ ω × α) : Prop :=
  ∃ s s' answer, p = (s, answer) ∧ p' = (s', answer) ∧ Twin R log s s'

variable {B : Behaviours σ ω} {R : Body σ → Body σ → Prop} {log : DiagnosticLog}
  {s s' : Simulation σ ω}

theorem Twin.alike {answer : α} (twin : Twin R log s s') : Alike R log (s, answer) (s', answer) :=
  ⟨s, s', answer, rfl, rfl, twin⟩

namespace Twin

section Committing

theorem report (twin : Twin R log s s') (id : SignalId) (old : Value) :
    Alike R log (s.report id old) (s'.report id old) := by
  cases twin with
  | mk like =>
      unfold Simulation.report
      dsimp only [Kernel.signal?_following, Kernel.now_following]
      split
      · split <;> exact Twin.alike (.mk like)
      · exact Twin.alike (.mk like)

theorem absorb (twin : Twin R log s s') (id : SignalId) (commit : Commit) :
    Alike R log (s.absorb id commit) (s'.absorb id commit) := by
  cases twin with
  | mk like =>
      cases commit with
      | unchanged => exact Twin.alike (.mk like)
      | changed old woken =>
          refine report ?_ id old
          exact .mk like
      | deferred delay value stamp =>
          have ahead : ∀ waiters, ({ s with kernel := s.kernel.following log, waiters } :
              Simulation σ ω).after delay = s.after delay := fun _ => rfl
          unfold Simulation.absorb
          dsimp only
          rw [ahead]
          cases s.after delay <;> exact Twin.alike (.mk like)

theorem step (twin : Twin R log s s') (id : SignalId) (f : Signal → Signal × Commit) :
    Alike R log (s.step id f) (s'.step id f) := by
  cases twin with
  | mk like =>
      unfold Simulation.step
      dsimp only [Kernel.signal?_following, Kernel.modify_following]
      cases s.kernel.signal? id with
      | none => exact Twin.alike (.mk like)
      | some signal =>
          refine absorb ?_ id _
          exact .mk like

theorem updateAll (twin : Twin R log s s') (failure : Except SimError Unit)
    (ids : List SignalId) : Alike R log (s.updateAll failure ids) (s'.updateAll failure ids) := by
  induction ids generalizing s s' failure with
  | nil => exact twin.alike
  | cons id rest ih =>
      obtain ⟨s₁, s₁', result, ran, ran', twin₁⟩ := twin.step id Signal.update
      simp only [Simulation.updateAll, ran, ran']
      exact ih twin₁ _

theorem commitPending (twin : Twin R log s s') :
    Alike R log s.commitPending s'.commitPending := by
  cases twin with
  | mk like =>
      refine updateAll ?_ _ _
      exact .mk like

end Committing

section Arming

theorem watch (twin : Twin R log s s') (me : Arming) (trigger : Trigger) :
    Alike R log (s.watch me trigger) (s'.watch me trigger) := by
  cases twin with
  | mk like =>
      unfold Simulation.watch
      dsimp only [Kernel.signal?_following, Kernel.modify_following]
      cases s.kernel.signal? trigger.signal with
      | none => exact Twin.alike (.mk like)
      | some signal => exact Twin.alike (.mk (like.noteSubscription _ _))

theorem watchAll (twin : Twin R log s s') (me : Arming) (triggers : List Trigger) :
    Alike R log (s.watchAll me triggers) (s'.watchAll me triggers) := by
  induction triggers generalizing s s' with
  | nil => exact twin.alike
  | cons trigger rest ih =>
      obtain ⟨s₁, s₁', result, ran, ran', twin₁⟩ := twin.watch me trigger
      simp only [Simulation.watchAll, ran, ran']
      cases result with
      | error e => exact twin₁.alike
      | ok _ => exact ih twin₁

theorem wakeAfter (twin : Twin R log s s') (me : Arming) (ticks : Nat) :
    Alike R log (s.wakeAfter me ticks) (s'.wakeAfter me ticks) := by
  cases twin with
  | mk like =>
      have ahead : ∀ waiters, ({ s with kernel := s.kernel.following log, waiters } :
          Simulation σ ω).after ticks = s.after ticks := fun _ => rfl
      unfold Simulation.wakeAfter
      rw [ahead]
      cases s.after ticks <;> exact Twin.alike (.mk like)

theorem addWaiter (twin : Twin R log s s') (name : String) {body body' : Body σ}
    (related : R body body') (parent : Option Continuation) :
    Twin R log (s.addWaiter name body parent) (s'.addWaiter name body' parent) := by
  cases twin with
  | mk like =>
      obtain ⟨same, added⟩ := like.insert name parent related
      unfold Simulation.addWaiter
      dsimp only
      rw [same]
      exact .mk added

theorem addBranches (likeness : Likeness B R) (group : Nat) (clauses : List (Clause σ))
    (twin : Twin R log s s') :
    Twin R log (clauses.foldl (addBranch B group) s) (clauses.foldl (addBranch B group) s') := by
  induction clauses generalizing s s' with
  | nil => exact twin
  | cons clause rest ih =>
      refine ih ?_
      cases clause <;> exact twin.addWaiter _ (likeness.refl _) _

theorem armOn (likeness : Likeness B R) (twin : Twin R log s s') (me : Arming)
    (alternative : Alternative σ) :
    Alike R log (s.armOn B me alternative) (s'.armOn B me alternative) := by
  cases alternative with
  | trigger t => exact twin.watch me t
  | delay ticks => exact twin.wakeAfter me ticks
  | spawn child => exact (twin.addWaiter _ (likeness.refl _) _).alike
  | refused e => exact twin.alike
  | noop =>
      cases twin with
      | mk like => exact Twin.alike (.mk like)
  | join clauses =>
      cases twin with
      | mk like =>
          obtain ⟨same, opened⟩ := like.openJoin clauses.length me
          unfold Simulation.armOn
          dsimp only
          rw [same]
          exact (addBranches likeness _ clauses (.mk opened)).alike

theorem armOnAll (likeness : Likeness B R) (twin : Twin R log s s') (me : Arming)
    (alternatives : List (Alternative σ)) :
    Alike R log (s.armOnAll B me alternatives) (s'.armOnAll B me alternatives) := by
  induction alternatives generalizing s s' with
  | nil => exact twin.alike
  | cons alternative rest ih =>
      obtain ⟨s₁, s₁', result, ran, ran', twin₁⟩ := twin.armOn likeness me alternative
      simp only [Simulation.armOnAll, ran, ran']
      cases result with
      | error e => exact twin₁.alike
      | ok _ => exact ih twin₁

end Arming

section Resuming

theorem drop (twin : Twin R log s s') (slot : Nat) (e : SimError) :
    Twin R log (s.drop slot e) (s'.drop slot e) := by
  cases twin with
  | mk like =>
      obtain ⟨-, removed⟩ := like.remove slot
      unfold Simulation.drop
      dsimp only [Kernel.now_following]
      rw [like.name, Kernel.emit_following]
      exact .mk removed

theorem release (twin : Twin R log s s') (caller : Option Arming)
    {waiters waiters' : WaiterTable (Body σ)} (like : waiters.Like R waiters') :
    Twin R log (s.release (caller, waiters)) (s'.release (caller, waiters')) := by
  cases twin with
  | mk _ => cases caller <;> exact .mk like

theorem complete (twin : Twin R log s s') (slot : Nat) :
    Twin R log (s.complete slot) (s'.complete slot) := by
  have tables : s.waiters.Like R s'.waiters := by
    cases twin with
    | mk like => exact like
  obtain ⟨same, removed⟩ := tables.remove slot
  unfold Simulation.complete
  generalize s.waiters.remove slot = r, s'.waiters.remove slot = r' at same removed ⊢
  obtain ⟨parent, waiters⟩ := r
  obtain ⟨_, waiters'⟩ := r'
  cases same
  cases parent with
  | none => exact twin.release none removed
  | some continuation =>
      cases continuation with
      | resume caller => exact twin.release (some caller) removed
      | join group =>
          obtain ⟨same, counted⟩ := removed.completeBranch group
          dsimp only
          generalize waiters.completeBranch group = c, waiters'.completeBranch group = c'
            at same counted ⊢
          obtain ⟨caller, waiters⟩ := c
          obtain ⟨_, waiters'⟩ := c'
          cases same
          exact twin.release caller counted

theorem settle (likeness : Likeness B R) (twin : Twin R log s s') (me : Arming) {done done' : Act σ}
    (acts : Act.Like R done done') : Alike R log (s.settle B me done) (s'.settle B me done') := by
  cases acts with
  | completes => exact (twin.complete me.slot).alike
  | fails e => exact (twin.drop me.slot e).alike
  | @waits body body' related alternatives =>
      have restored : Twin R log { s with waiters := s.waiters.restore me.slot body }
          { s' with waiters := s'.waiters.restore me.slot body' } := by
        cases twin with
        | mk like => exact .mk (like.restore me.slot related)
      obtain ⟨s₁, s₁', result, ran, ran', twin₁⟩ := restored.armOnAll likeness me alternatives
      simp only [Simulation.settle, Simulation.rearm, ran, ran']
      cases result with
      | error e => exact (twin₁.drop me.slot e).alike
      | ok _ => exact twin₁.alike

theorem noteOutputs (likeness : Likeness B R) (twin : Twin R log s s') (me : Arming) :
    Alike R log (s.noteOutputs me) (s'.noteOutputs me) := by
  have noted : Twin R log
      { s with link := s.link.map fun (l : Link ω) => { l with changed := true } }
      { s' with link := s'.link.map fun (l : Link ω) => { l with changed := true } } := by
    cases twin with
    | mk like => exact .mk like
  have outputs : s'.outputs = s.outputs := by
    cases twin
    rfl
  obtain ⟨s₁, s₁', result, ran, ran', twin₁⟩ := noted.watchAll me (s.outputs.map .event)
  simp only [Simulation.noteOutputs, outputs, ran, ran']
  cases result with
  | error e => exact twin₁.alike
  | ok _ =>
      cases twin₁ with
      | mk like => exact Twin.alike (.mk (like.restore me.slot (likeness.refl .outputs)))

theorem runBody (likeness : Likeness B R) (twin : Twin R log s s') (me : Arming)
    {body body' : Body σ} (related : R body body') :
    Option.Rel (Alike R log) (runBody B s me body) (runBody B s' me body') := by
  by_cases bridge : body = .outputs
  · have bridge' := (likeness.bridge body body' related).mpr bridge
    subst bridge
    subst bridge'
    exact .some (twin.noteOutputs likeness me)
  · have elsewhere : body' ≠ .outputs := fun h => bridge ((likeness.bridge body body' related).mp h)
    have acts := likeness.acts body body' related s.kernel s.world s.outputs
    rw [runBody_eq_of_ne bridge, runBody_eq_of_ne elsewhere]
    cases twin with
    | @mk waiters like =>
        have outputs : ({ s with kernel := s.kernel.following log, waiters } :
          Simulation σ ω).outputs = s.outputs := rfl
        dsimp only
        rw [outputs, act_following]
        generalize act B s.kernel s.world s.outputs body = x,
          act B s.kernel s.world s.outputs body' = y at acts ⊢
        cases acts with
        | none => exact .none
        | @some turn turn' related =>
            obtain ⟨done, k, w⟩ := turn
            obtain ⟨done', _, _⟩ := turn'
            obtain ⟨acts, same⟩ := related
            cases same
            refine .some (settle likeness ?_ me acts)
            exact .mk like

theorem runWaiter (likeness : Likeness B R) (twin : Twin R log s s') (a : Arming) :
    Option.Rel (Alike R log) (runWaiter B s a) (runWaiter B s' a) := by
  cases twin with
  | @mk waiters like =>
      obtain ⟨claims, consumed⟩ := like.consume a
      unfold Simulation.runWaiter
      dsimp only
      generalize s.waiters.consume a = c, waiters.consume a = c' at claims consumed ⊢
      obtain ⟨claim, t⟩ := c
      obtain ⟨claim', t'⟩ := c'
      cases claims with
      | stale => exact .some (Twin.alike (.mk consumed))
      | claimed me related stale =>
          refine runBody likeness ?_ me related
          exact .mk consumed

/-- Two computations get stuck alike, or lead to twins and answer the same. -/
inductive Both (R : Body σ → Body σ → Prop) (log : DiagnosticLog) :
    Except Stuck (Simulation σ ω × α) → Except Stuck (Simulation σ ω × α) → Prop where
  | stuck (why : Stuck) : Both R log (.error why) (.error why)
  | went {p p' : Simulation σ ω × α} (alike : Alike R log p p') : Both R log (.ok p) (.ok p')

theorem runReady (likeness : Likeness B R) (fuel : Nat) (twin : Twin R log s s')
    (failure : Except SimError Unit) :
    Both R log (runReady B fuel s failure) (runReady B fuel s' failure) := by
  induction fuel generalizing s s' failure with
  | zero =>
      cases twin with
      | mk like =>
          unfold Simulation.runReady
          dsimp only
          split
          · exact .went (Twin.alike (.mk like))
          · exact .stuck _
  | succ fuel ih =>
      have ready : s'.ready = s.ready := by
        cases twin
        rfl
      simp only [Simulation.runReady, ready]
      cases s.ready.pop? with
      | none => exact .went twin.alike
      | some next =>
          obtain ⟨a, rest⟩ := next
          have popped : Twin R log { s with ready := rest } { s' with ready := rest } := by
            cases twin with
            | mk like => exact .mk like
          have resumed := popped.runWaiter likeness a
          dsimp only
          generalize Simulation.runWaiter B { s with ready := rest } a = x,
            Simulation.runWaiter B { s' with ready := rest } a = y at resumed ⊢
          cases resumed with
          | none => exact .stuck _
          | some alike =>
              obtain ⟨s₁, s₁', result, rfl, rfl, twin₁⟩ := alike
              exact ih twin₁ _

theorem purge (twin : Twin R log s s') : Twin R log s.purge s'.purge := by
  cases twin with
  | @mk waiters like =>
      have kernels (ids : List SignalId) (keep : Signal → Signal) (k : Kernel) :
          ids.foldl (fun k id => k.modify id keep) (k.following log) =
            (ids.foldl (fun k id => k.modify id keep) k).following log := by
        induction ids generalizing k with
        | nil => rfl
        | cons id rest ih => exact ih (k.modify id keep)
      rw [purge_eq, purge_eq]
      dsimp only
      rw [like.isLive, kernels]
      exact .mk like

end Resuming

end Twin

end Simulation

end DeltaCycle
