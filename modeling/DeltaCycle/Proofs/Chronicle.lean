import DeltaCycle.Proofs.Dialogue
import DeltaCycle.Proofs.Reach
import DeltaCycle.Proofs.TwinRuns

/-!
# Faithful traces

A change log holds a faithful history. The changes of each traced signal lead from its initial value
to its committed one, without gaps and without repetitions, in the order of time. So the log tells
what was committed at the end of each tick that has passed.
-/

set_option autoImplicit false

namespace DeltaCycle

variable {σ ω τ : Type}

/-! ## Chains of changes -/

namespace Change

/-- Changes that lead from a value to another: each starts from what the one before left, and leaves
something else. -/
inductive Chain : Value → List Change → Value → Prop where
  | nil (v : Value) : Chain v [] v
  | cons {c : Change} {rest : List Change} {last : Value} (differs : c.old.same c.new = false)
      (chain : Chain c.new rest last) : Chain c.old (c :: rest) last

theorem Chain.concat {init last : Value} {changes : List Change} {c : Change}
    (chain : Chain init changes last) (old : c.old = last) (differs : c.old.same c.new = false) :
    Chain init (changes ++ [c]) c.new := by
  induction chain with
  | nil v =>
      subst old
      exact .cons differs (.nil c.new)
  | cons first _ ih => exact .cons first (ih old)

/-- What changes leave behind where one value was before. -/
def leave (init : Value) (changes : List Change) : Value :=
  match changes.getLast? with
  | some c => c.new
  | none => init

theorem Chain.leave_eq {init last : Value} {changes : List Change} (chain : Chain init changes last) :
    leave init changes = last := by
  induction chain with
  | nil v => rfl
  | @cons c rest last differs chain ih =>
      cases rest with
      | nil => exact ih
      | cons next rest =>
          unfold leave at ih ⊢
          rw [List.getLast?_cons_cons]
          rw [List.getLast?_eq_some_getLast (List.cons_ne_nil next rest)] at ih ⊢
          exact ih

end Change

/-! ## Histories of kernels -/

/-- What a trace tells of a signal. -/
def Signal.face (s : Signal) : String × Value × Bool × Value := (s.name, s.init, s.traced, s.val)

/-- Signals that are the same when they are reset have the same name and initial value, and both are
traced or none is. -/
theorem Signal.declared_of_reset {s s' : Signal} (same : s'.reset = s.reset) :
    s'.name = s.name ∧ s'.init = s.init ∧ s'.traced = s.traced := by
  change s'.reset.name = s.reset.name ∧ s'.reset.init = s.reset.init ∧
    s'.reset.traced = s.reset.traced
  rw [same]
  exact ⟨rfl, rfl, rfl⟩

/-- Changes are the history of a kernel: they are those of its traced signals, of which some number
was committed, and give away what was committed at the end of each tick before now. -/
structure Kernel.Chronicled (k : Kernel) (changes : List Change) (commits : Nat)
    (ends : Nat → Kernel) : Prop where
  ordered : changes.Pairwise fun c later => c.time ≤ later.time
  elapsed : ∀ c ∈ changes, c.time ≤ k.now
  named : ∀ c ∈ changes, ∃ s, k.signal? c.signal = some s ∧ s.traced = true ∧ c.name = s.name
  chain : ∀ id s, k.signal? id = some s → s.traced = true →
    Change.Chain s.init (changes.filter fun c => c.signal == id) s.val
  counted : (∀ id s, k.signal? id = some s → s.traced = true) → changes.length = commits
  past : ∀ t < k.now, ∀ id s, k.signal? id = some s → s.traced = true →
    (ends t).val? id =
      some (Change.leave s.init (changes.filter fun c => c.signal == id && c.time ≤ t))

/-- The kernels at the ends of ticks, once the clock has moved on from one tick to another. -/
def endsAfter (k : Kernel) (now now' : Nat) (ends : Nat → Kernel) : Nat → Kernel :=
  fun t => if now ≤ t ∧ t < now' then k else ends t

theorem endsAfter_of_le {k : Kernel} {now now' : Nat} (still : now' ≤ now) (ends : Nat → Kernel) :
    endsAfter k now now' ends = ends := by
  funext t
  exact if_neg fun between => absurd (Nat.lt_of_le_of_lt between.1 between.2) (Nat.not_lt.mpr still)

namespace Kernel.Chronicled

variable {k : Kernel} {changes : List Change} {commits : Nat} {ends : Nat → Kernel}

/-- The history of a kernel at the start is empty. -/
theorem start (atStart : k.AtStart) (ends : Nat → Kernel) : k.Chronicled [] 0 ends where
  ordered := .nil
  elapsed _ listed := absurd listed List.not_mem_nil
  named _ listed := absurd listed List.not_mem_nil
  chain id s found _ := by
    rw [List.filter_nil, atStart.val found]
    exact .nil s.init
  counted _ := rfl
  past t before := by
    rw [atStart.now] at before
    exact absurd before (Nat.not_lt_zero t)

/-- A history looks at the faces of signals and at the clock alone. -/
theorem of_faces (chronicled : k.Chronicled changes commits ends) {k' : Kernel}
    (faces : ∀ id, (k'.signal? id).map Signal.face = (k.signal? id).map Signal.face)
    (now : k'.now = k.now) : k'.Chronicled changes commits ends := by
  have back (id : SignalId) (s' : Signal) (found : k'.signal? id = some s') :
      ∃ s, k.signal? id = some s ∧ s'.face = s.face := by
    have same := faces id
    rw [found] at same
    obtain ⟨s, found', face⟩ := Option.map_eq_some_iff.mp same.symm
    exact ⟨s, found', face.symm⟩
  have forth (id : SignalId) (s : Signal) (found : k.signal? id = some s) :
      ∃ s', k'.signal? id = some s' ∧ s'.face = s.face := by
    have same := faces id
    rw [found] at same
    obtain ⟨s', found', face⟩ := Option.map_eq_some_iff.mp same
    exact ⟨s', found', face⟩
  constructor
  · exact chronicled.ordered
  · rw [now]
    exact chronicled.elapsed
  · intro c listed
    obtain ⟨s, found, traced, name⟩ := chronicled.named c listed
    obtain ⟨s', found', face⟩ := forth c.signal s found
    simp only [Signal.face, Prod.mk.injEq] at face
    obtain ⟨sameName, -, sameTraced, -⟩ := face
    exact ⟨s', found', sameTraced.trans traced, name.trans sameName.symm⟩
  · intro id s' found traced
    obtain ⟨s, found', face⟩ := back id s' found
    simp only [Signal.face, Prod.mk.injEq] at face
    obtain ⟨-, init, sameTraced, val⟩ := face
    rw [init, val]
    exact chronicled.chain id s found' (sameTraced.symm.trans traced)
  · intro all
    refine chronicled.counted ?_
    intro id s found
    obtain ⟨s', found', face⟩ := forth id s found
    simp only [Signal.face, Prod.mk.injEq] at face
    exact face.2.2.1.symm.trans (all id s' found')
  · intro t before id s' found traced
    obtain ⟨s, found', face⟩ := back id s' found
    simp only [Signal.face, Prod.mk.injEq] at face
    obtain ⟨-, init, sameTraced, -⟩ := face
    rw [init]
    rw [now] at before
    exact chronicled.past t before id s found' (sameTraced.symm.trans traced)

theorem of_committed (chronicled : k.Chronicled changes commits ends) {k' : Kernel}
    (same : k'.committed = k.committed) : k'.Chronicled changes commits ends := by
  refine chronicled.of_faces ?_ (now_of_committed same)
  intro id
  have faces := congrArg (Option.map Signal.face) (signal?_of_committed same id)
  rw [Option.map_map, Option.map_map] at faces
  exact faces

/-- Where one signal is changed, every signal is the changed one or was there before. -/
theorem signal_of_modify {id id' : SignalId} {s s' s₁ : Signal} (found : k.signal? id = some s)
    (found₁ : (k.modify id fun _ => s').signal? id' = some s₁) :
    (id = id' ∧ s₁ = s') ∨ (id ≠ id' ∧ k.signal? id' = some s₁) := by
  rw [signal?_modify] at found₁
  split at found₁
  · next same =>
      subst same
      rw [found] at found₁
      cases found₁
      exact .inl ⟨rfl, rfl⟩
  · next other => exact .inr ⟨other, found₁⟩

/-- A change of a signal that is not traced is committed, and nothing is told. -/
theorem commit_untraced (chronicled : k.Chronicled changes commits ends) {id : SignalId}
    {s s' : Signal} (found : k.signal? id = some s) (kept : s'.reset = s.reset)
    (untraced : ¬s'.traced = true) :
    (k.modify id fun _ => s').Chronicled changes (commits + 1) ends := by
  obtain ⟨-, -, sameTraced⟩ := Signal.declared_of_reset kept
  have unchanged {id' : SignalId} {s₁ : Signal} (traced : s₁.traced = true)
      (found₁ : (k.modify id fun _ => s').signal? id' = some s₁) : k.signal? id' = some s₁ := by
    rcases signal_of_modify found found₁ with ⟨-, same⟩ | ⟨-, before⟩
    · exact absurd (same ▸ traced) untraced
    · exact before
  constructor
  · exact chronicled.ordered
  · exact chronicled.elapsed
  · intro c listed
    obtain ⟨s₁, found₁, traced, name⟩ := chronicled.named c listed
    refine ⟨s₁, ?_, traced, name⟩
    rw [signal?_modify, if_neg]
    · exact found₁
    · intro same
      subst same
      cases found.symm.trans found₁
      exact untraced (sameTraced.trans traced)
  · intro id' s₁ found₁ traced
    exact chronicled.chain id' s₁ (unchanged traced found₁) traced
  -- Not every signal is traced, so that nothing is claimed of the number of changes.
  · intro all
    refine absurd (all id s' ?_) untraced
    rw [signal?_modify, if_pos rfl, found]
    rfl
  · intro t before id' s₁ found₁ traced
    exact chronicled.past t before id' s₁ (unchanged traced found₁) traced

/-- A change of a traced signal is committed and told. -/
theorem commit_traced (chronicled : k.Chronicled changes commits ends) {id : SignalId}
    {s s' : Signal} (found : k.signal? id = some s) (kept : s'.reset = s.reset)
    (differs : s.val.same s'.val = false) (traced : s'.traced = true) :
    (k.modify id fun _ => s').Chronicled
      (changes ++ [⟨k.now, id, s'.name, s.val, s'.val⟩]) (commits + 1) ends := by
  obtain ⟨name, init, sameTraced⟩ := Signal.declared_of_reset kept
  have traced' : s.traced = true := sameTraced.symm.trans traced
  have here : (k.modify id fun _ => s').signal? id = some s' := by
    rw [signal?_modify, if_pos rfl, found]
    rfl
  have elsewhere (id' : SignalId) (other : id ≠ id') :
      (k.modify id fun _ => s').signal? id' = k.signal? id' := by
    rw [signal?_modify, if_neg other]
  constructor
  · refine List.pairwise_append.mpr ⟨chronicled.ordered, List.pairwise_singleton _ _, ?_⟩
    intro c listed later added
    rw [List.mem_singleton.mp added]
    exact chronicled.elapsed c listed
  · intro c listed
    rcases List.mem_append.mp listed with before | added
    · exact chronicled.elapsed c before
    · rw [List.mem_singleton.mp added]
      exact Nat.le_refl k.now
  · intro c listed
    rcases List.mem_append.mp listed with before | added
    · obtain ⟨s₁, found₁, traced₁, name₁⟩ := chronicled.named c before
      by_cases same : id = c.signal
      · subst same
        cases found.symm.trans found₁
        exact ⟨s', here, traced, name₁.trans name.symm⟩
      · exact ⟨s₁, (elsewhere c.signal same).trans found₁, traced₁, name₁⟩
    · rw [List.mem_singleton.mp added]
      exact ⟨s', here, traced, rfl⟩
  · intro id' s₁ found₁ traced₁
    rw [List.filter_append]
    rcases signal_of_modify found found₁ with ⟨rfl, rfl⟩ | ⟨other, found₁⟩
    · have before := chronicled.chain id s found traced'
      have added := before.concat (c := ⟨k.now, id, s₁.name, s.val, s₁.val⟩) rfl differs
      rw [init]
      simpa only [List.filter_cons, List.filter_nil, BEq.rfl, if_true] using added
    · have untold : (id == id') = false := beq_eq_false_iff_ne.mpr other
      simp only [List.filter_cons, List.filter_nil, untold, Bool.false_eq_true, if_false,
        List.append_nil]
      exact chronicled.chain id' s₁ found₁ traced₁
  · intro all
    rw [List.length_append]
    refine congrArg Nat.succ (chronicled.counted ?_)
    intro id' s₁ found₁
    by_cases same : id = id'
    · subst same
      cases found.symm.trans found₁
      exact traced'
    · exact all id' s₁ ((elsewhere id' same).trans found₁)
  · intro t before id' s₁ found₁ traced₁
    have late : decide (k.now ≤ t) = false := decide_eq_false (Nat.not_le.mpr before)
    simp only [List.filter_append, List.filter_cons, List.filter_nil, late, Bool.and_false,
      Bool.false_eq_true, if_false, List.append_nil]
    rcases signal_of_modify found found₁ with ⟨rfl, rfl⟩ | ⟨-, found₁⟩
    · rw [init]
      exact chronicled.past t before id s found traced'
    · exact chronicled.past t before id' s₁ found₁ traced₁

/-- The clock moves on. -/
theorem tick (chronicled : k.Chronicled changes commits ends) {now : Nat} (later : k.now ≤ now) :
    ({ k with now } : Kernel).Chronicled changes commits (endsAfter k k.now now ends) := by
  constructor
  · exact chronicled.ordered
  · intro c listed
    exact Nat.le_trans (chronicled.elapsed c listed) later
  · exact chronicled.named
  · exact chronicled.chain
  · exact chronicled.counted
  · intro t before id s found traced
    unfold endsAfter
    split
    · next between =>
        have all : (changes.filter fun c => c.signal == id && c.time ≤ t) =
            changes.filter fun c => c.signal == id := by
          refine List.filter_congr ?_
          intro c listed
          have passed : c.time ≤ t := Nat.le_trans (chronicled.elapsed c listed) between.1
          simp only [passed, decide_true, Bool.and_true]
        rw [all, (chronicled.chain id s found traced).leave_eq]
        have held : k.val? id = some s.val := by
          have known : k.signal? id = some s := found
          rw [val?, known]
          rfl
        exact held
    · next outside =>
        have earlier : t < k.now := by
          simp only [not_and, Nat.not_lt] at outside
          by_contra late
          exact absurd (outside (Nat.not_lt.mp late)) (Nat.not_le.mpr before)
        exact chronicled.past t earlier id s found traced

end Kernel.Chronicled

/-! ## Transitions of a signal -/

/-- A transition that leaves the design of a signal as it is, and that tells of a change exactly if it
commits one. -/
structure Signal.Honest (f : Signal → Signal × Commit) : Prop where
  design : ∀ s, (f s).1.reset = s.reset
  told : ∀ s, (∃ woken, (f s).2 = .changed s.val woken ∧ s.val.same (f s).1.val = false) ∨
    ((∀ old woken, (f s).2 ≠ .changed old woken) ∧ (f s).1.val = s.val)

namespace Signal

theorem told_apply (s : Signal) (new : Value) :
    (∃ woken, (s.apply new).2 = .changed s.val woken ∧ s.val.same (s.apply new).1.val = false) ∨
      ((∀ old woken, (s.apply new).2 ≠ .changed old woken) ∧ (s.apply new).1.val = s.val) := by
  rcases s.apply_cases new with ⟨-, kept⟩ | ⟨differs, waits, woken, changed⟩
  · rw [kept]
    exact .inr ⟨nofun, rfl⟩
  · rw [changed]
    exact .inl ⟨woken, rfl, differs⟩

theorem honest_update : Honest update where
  design s := (@Turns.lost ⟨0⟩ s).reset
  told s := by
    cases inertia : s.inertia with
    | none =>
        rw [update_of_prompt inertia]
        exact s.told_apply s.next
    | some i =>
        rw [update_of_inertial inertia]
        exact .inr ⟨nofun, rfl⟩

theorem honest_applyDeferred (value : Value) (stamp : Nat) :
    Honest fun s => s.applyDeferred value stamp where
  design s := (@Turns.arrived ⟨0⟩ s value stamp).reset
  told s := by
    cases inertia : s.inertia with
    | none =>
        rw [applyDeferred_of_prompt inertia]
        exact .inr ⟨nofun, rfl⟩
    | some i =>
        rw [applyDeferred_of_inertial inertia]
        split
        · exact s.told_apply value
        · exact .inr ⟨nofun, rfl⟩

end Signal

/-! ## Logs that only the hook writes -/

/-- The hook that keeps every change in a list, the last one first. -/
def Hook.changeLog : Hook (ω × List Change) :=
  .recording fun c (w, changes) => (w, c :: changes)

namespace Simulation

/-- What a log can tell of a simulation did not change. -/
structure Quiet (s s' : Simulation σ (ω × τ)) : Prop where
  committed : s'.kernel.committed = s.kernel.committed
  hook : s'.hook = s.hook
  bridge : s'.link.map Link.bridge = s.link.map Link.bridge
  noted : s'.world.2 = s.world.2
  counted : s'.stats.commits = s.stats.commits

theorem Quiet.refl (s : Simulation σ (ω × τ)) : Quiet s s := ⟨rfl, rfl, rfl, rfl, rfl⟩

theorem Quiet.trans {s s' s'' : Simulation σ (ω × τ)} (first : Quiet s s') (second : Quiet s' s'') :
    Quiet s s'' :=
  ⟨second.committed.trans first.committed, second.hook.trans first.hook,
    second.bridge.trans first.bridge, second.noted.trans first.noted,
    second.counted.trans first.counted⟩

theorem Quiet.keeps_spares {s s' : Simulation σ (ω × τ)} (quiet : Quiet s s')
    (spares : ∀ l, s.link = some l → l.bridge.Spares Prod.snd) :
    ∀ l, s'.link = some l → l.bridge.Spares Prod.snd := by
  intro l' linked'
  have same := quiet.bridge
  rw [linked', Option.map_some] at same
  obtain ⟨l, linked, bridge⟩ := Option.map_eq_some_iff.mp same.symm
  rw [← bridge]
  exact spares l linked

theorem Quiet.keeps_known {s s' : Simulation σ (ω × τ)} (quiet : Quiet s s')
    (known : s.OutputsKnown) : s'.OutputsKnown := by
  have outputs (s : Simulation σ (ω × τ)) :
      s.outputs = ((s.link.map Link.bridge).map Bridge.outputs).getD [] := by
    unfold Simulation.outputs
    cases s.link <;> rfl
  intro id output
  rw [outputs, quiet.bridge, ← outputs] at output
  rw [Kernel.isSome_signal?_of_committed quiet.committed]
  exact known id output

/-- A simulation keeps a change log, which holds a faithful history. -/
structure Logged (s : Simulation σ (ω × List Change)) (ends : Nat → Kernel) : Prop where
  hook : s.hook = some .changeLog
  bridge : ∀ l, s.link = some l → l.bridge.Spares Prod.snd
  known : s.OutputsKnown
  chronicled : s.kernel.Chronicled s.world.2.reverse s.stats.commits ends

variable {B : Behaviours σ ω} {s s' : Simulation σ (ω × List Change)} {ends : Nat → Kernel}

namespace Logged

theorem of_quiet (logged : s.Logged ends) (quiet : Quiet s s') : s'.Logged ends := by
  constructor
  · exact quiet.hook.trans logged.hook
  · exact quiet.keeps_spares logged.bridge
  · exact quiet.keeps_known logged.known
  · rw [quiet.noted, quiet.counted]
    exact logged.chronicled.of_committed quiet.committed

/-! ## Committing -/

theorem step (logged : s.Logged ends) (id : SignalId) {f : Signal → Signal × Commit}
    (honest : Signal.Honest f) : (s.step id f).1.Logged ends := by
  unfold Simulation.step
  cases found : s.kernel.signal? id with
  | none => exact logged
  | some signal =>
      have design := honest.design signal
      have told := honest.told signal
      dsimp only
      generalize f signal = turned at design told ⊢
      obtain ⟨signal', commit⟩ := turned
      dsimp only at design told ⊢
      have here : (s.kernel.modify id fun _ => signal').signal? id = some signal' := by
        rw [Kernel.signal?_modify, if_pos rfl, found]
        rfl
      have known : ({ s with kernel := s.kernel.modify id fun _ => signal' } :
          Simulation σ (ω × List Change)).OutputsKnown := by
        refine logged.known.of_frame ?_
        simp only [frame, Kernel.modify, Array.size_modify]
      rcases told with ⟨woken, changed, differs⟩ | ⟨calm, kept⟩
      · rw [changed]
        unfold Simulation.absorb report
        simp only [logged.hook, here]
        split
        · next traced =>
            have chronicled := logged.chronicled.commit_traced found design differs traced
            rw [← List.reverse_cons] at chronicled
            exact ⟨rfl, logged.bridge, known, chronicled⟩
        · next untraced =>
            have chronicled := logged.chronicled.commit_untraced found design untraced
            exact ⟨rfl, logged.bridge, known, chronicled⟩
      · have face : signal'.face = signal.face := by
          obtain ⟨name, init, traced⟩ := Signal.declared_of_reset design
          simp only [Signal.face, name, init, traced, kept]
        have chronicled : (s.kernel.modify id fun _ => signal').Chronicled s.world.2.reverse
            s.stats.commits ends := by
          refine logged.chronicled.of_faces ?_ rfl
          intro id'
          rw [Kernel.signal?_modify]
          split
          · next same =>
              subst same
              rw [found]
              exact congrArg some face
          · rfl
        have settled : Logged { s with kernel := s.kernel.modify id fun _ => signal' } ends :=
          ⟨logged.hook, logged.bridge, known, chronicled⟩
        cases commit with
        | unchanged => exact settled
        | changed old woken => exact absurd rfl (calm old woken)
        | deferred delay value stamp =>
            simp only [Simulation.absorb]
            split
            · exact settled
            · exact settled.of_quiet ⟨rfl, rfl, rfl, rfl, rfl⟩

theorem updateAll (logged : s.Logged ends) (failure : Except SimError Unit) (ids : List SignalId) :
    (s.updateAll failure ids).1.Logged ends :=
  updateAll_induction (P := (Logged · ends)) logged
    (fun _ id logged => logged.step id Signal.honest_update) failure ids

theorem commitPending (logged : s.Logged ends) : s.commitPending.1.Logged ends := by
  have unmarked : Logged { s with kernel := { s.kernel with pending := [] } } ends :=
    logged.of_quiet ⟨rfl, rfl, rfl, rfl, rfl⟩
  exact unmarked.updateAll _ _

theorem fire (logged : s.Logged ends) (payload : Payload) : (s.fire payload).1.Logged ends := by
  cases payload with
  | wake a => exact logged.of_quiet ⟨rfl, rfl, rfl, rfl, rfl⟩
  | apply id value stamp => exact logged.step id (Signal.honest_applyDeferred value stamp)

theorem drainUpTo (logged : s.Logged ends) (count time : Nat) :
    (drainUpTo count s time).1.Logged ends := by
  refine drainUpTo_induction (P := (Logged · ends)) logged
    (fun s₁ payload queue _ logged => ?_) count
  have popped : Logged { s₁ with queue } ends := logged.of_quiet ⟨rfl, rfl, rfl, rfl, rfl⟩
  exact popped.fire payload

end Logged

end Simulation

end DeltaCycle
