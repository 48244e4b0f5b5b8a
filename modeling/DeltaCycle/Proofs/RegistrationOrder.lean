import DeltaCycle.Proofs.Kinship

/-!
# The order of registration

Simulations that are built from the same instances in different orders number their waiters
differently, but one roster tracks them all. So, where signals have one writer, the order makes no
difference to what a run tells and to what it commits.
-/

set_option autoImplicit false

namespace DeltaCycle

open Roster

variable {σ ω : Type}

/-! ## Roots in another order -/

/-- The order in which numbered roots are listed makes no difference. -/
theorem Roster.rooted_perm {roots roots' : List (Nat × Body σ)} (perm : roots'.Perm roots)
    (distinct : (roots'.map Prod.fst).Nodup) : rooted roots' = rooted roots := by
  unfold rooted
  refine perm.foldl_eq' (fun x listed y listed' r => ?_) _
  by_cases same : x.1 = y.1
  · rw [List.inj_on_of_nodup_map distinct listed listed' same]
  · have names : Name.root x.1 ≠ .root y.1 := fun equal => same (Name.root.inj equal)
    have tags : (⟨.root x.1, 0⟩ : Tag) ≠ ⟨.root y.1, 0⟩ := fun equal =>
      names (congrArg Tag.name equal)
    simp only [bear, Function.update_comm names, Function.update_comm tags]

/-- Bodies in another order can be numbered so that each keeps its number. -/
theorem exists_numbers {bodies bodies' : List (Body σ)} (perm : bodies'.Perm bodies) :
    ∃ numbers : List Nat, numbers.length = bodies'.length ∧ numbers.Nodup ∧
      (numbers.zip bodies').Perm ((List.range bodies.length).zip bodies) := by
  have second : ((List.range bodies.length).zip bodies).map Prod.snd = bodies :=
    List.map_snd_zip (Nat.le_of_eq List.length_range.symm)
  have first : ((List.range bodies.length).zip bodies).map Prod.fst = List.range bodies.length :=
    List.map_fst_zip (Nat.le_of_eq List.length_range)
  have paired : List.Forall₂ (fun body (root : Nat × Body σ) => body = root.2) bodies
      ((List.range bodies.length).zip bodies) := by
    rw [← List.forall₂_map_right_iff, second, List.forall₂_eq_eq_eq]
  obtain ⟨roots, paired', perm'⟩ := List.perm_comp_forall₂ perm paired
  rw [← List.forall₂_map_right_iff, List.forall₂_eq_eq_eq] at paired'
  subst paired'
  refine ⟨roots.map Prod.fst, by simp, ?_, ?_⟩
  · rw [(perm'.map Prod.fst).nodup_iff, first]
    exact List.nodup_range
  · rwa [List.zip_map', List.map_id'']
    exact fun _ => rfl

namespace Instance

theorem flattenAll_eq_flatMap (instances : List (Instance σ ω)) :
    flattenAll instances = instances.flatMap flatten := by
  induction instances with
  | nil => rfl
  | cons i rest ih => rw [flattenAll, ih, List.flatMap_cons]

theorem flattenAll_perm {instances instances' : List (Instance σ ω)}
    (perm : instances'.Perm instances) : (flattenAll instances').Perm (flattenAll instances) := by
  rw [flattenAll_eq_flatMap, flattenAll_eq_flatMap]
  exact perm.flatMap_right _

end Instance

namespace Simulation

variable {B : Behaviours σ ω}

/-! ## Building without a bridge -/

/-- An instance other than a bridge gets a waiter or is refused, whatever was added before. -/
theorem addInstance_of_unbridged {i : Instance σ ω} (unbridged : ∀ b, i ≠ .bridge b)
    {s s' : Simulation σ ω} (added : s.addInstance B i = .ok s') (s₁ : Simulation σ ω) :
    ∃ waiters ready, s₁.addInstance B i = .ok { s₁ with waiters, ready } := by
  cases i with
  | process state => exact ⟨_, _, rfl⟩
  | group members => exact ⟨_, _, rfl⟩
  | bridge b => exact absurd rfl (unbridged b)
  | always block =>
      simp only [addInstance] at added ⊢
      split at added
      · cases added
      · next armed => exact ⟨_, _, rfl⟩

/-- Without a bridge, instances can be added in every order in which they can be added in one. -/
theorem addInstances_perm {instances instances' : List (Instance σ ω)}
    (unbridged : ∀ i ∈ instances, ∀ b, i ≠ .bridge b) {s s' : Simulation σ ω}
    (added : s.addInstances B instances = .ok s') (perm : instances'.Perm instances)
    (s₁ : Simulation σ ω) :
    ∃ waiters ready, s₁.addInstances B instances' = .ok { s₁ with waiters, ready } := by
  have each : ∀ i ∈ instances, ∀ s₁ : Simulation σ ω,
      ∃ waiters ready, s₁.addInstance B i = .ok { s₁ with waiters, ready } := by
    clear perm
    induction instances generalizing s with
    | nil => exact fun i listed => absurd listed List.not_mem_nil
    | cons i rest ih =>
        obtain ⟨m, first, added⟩ := addInstances_cons added
        obtain ⟨unbridged, others⟩ := List.forall_mem_cons.mp unbridged
        exact List.forall_mem_cons.mpr ⟨addInstance_of_unbridged unbridged first, ih others added⟩
  replace each : ∀ i ∈ instances', ∀ s₁ : Simulation σ ω,
      ∃ waiters ready, s₁.addInstance B i = .ok { s₁ with waiters, ready } :=
    fun i listed => each i (perm.mem_iff.mp listed)
  clear perm
  induction instances' generalizing s₁ with
  | nil => exact ⟨_, _, rfl⟩
  | cons i rest ih =>
      obtain ⟨first, others⟩ := List.forall_mem_cons.mp each
      obtain ⟨waiters, ready, added⟩ := first s₁
      obtain ⟨waiters', ready', added'⟩ := ih { s₁ with waiters, ready } others
      exact ⟨waiters', ready', by rw [addInstances, added]; exact added'⟩

variable {kernel : Kernel} {instances instances' : List (Instance σ ω)} {world : ω}
  {s : Simulation σ ω}

/-- A simulation without a bridge can be built in every order in which it can be built in one. -/
theorem build_perm (unbridged : ∀ i ∈ Instance.flattenAll instances, ∀ b, i ≠ .bridge b)
    (built : build B kernel instances world = .ok s) (perm : instances'.Perm instances) :
    ∃ waiters ready, build B kernel instances' world = .ok { kernel, waiters, ready, world } := by
  obtain ⟨waiters, ready, shadowed⟩ := addShadows_spec { kernel, world }
  obtain ⟨waiters', ready', added⟩ := addInstances_perm unbridged built
    (Instance.flattenAll_perm perm) (addShadows { kernel, world })
  refine ⟨waiters', ready', added.trans (congrArg Except.ok ?_)⟩
  rw [shadowed]

theorem conclude_of_alone {s : Simulation σ ω} (unhooked : s.hook = none) (alone : s.link = none)
    (outcome : Outcome) : ∃ state, s.conclude (.ok outcome) = ({ s with state }, .ok outcome) := by
  cases outcome with
  | suspended => exact ⟨_, rfl⟩
  | finished reason =>
      refine ⟨.finished, ?_⟩
      simp only [conclude, shutdown, closeLink, alone, unhooked]

end Simulation

open Simulation

/-- Kin run in the same way. -/
theorem Kin.run {B : Behaviours σ Unit} {ledger : List Tag} {r : Roster σ}
    {s s' s₁ s₁' t : Simulation σ Unit} (kin : Kin ledger r s' s₁') (running : s.hasEnded = false)
    (started : s.startHook = (s', .ok ())) (running₁ : s₁.hasEnded = false)
    (started₁ : s₁.startHook = (s₁', .ok ())) (defaults : s₁'.defaultDuration = s'.defaultDuration)
    {fuel : Nat} {duration : Option Nat} {outcome : Outcome}
    (ran : Simulation.run B fuel s duration = .ok (t, .ok outcome))
    (unasked : ∀ reason, outcome ≠ .finished (.requested reason)) {way : Option Nat × List Change}
    (single : OneWriter
      ((roundsOf B fuel ledger way s' (s'.capOf duration)).flatMap Round.turns)) :
    ∃ enough t₁, t₁.kernel.now = t.kernel.now ∧ t₁.stats = t.stats ∧
      ∀ more ≥ enough, Simulation.run B more s₁ duration = .ok (t₁, .ok outcome) ∧
        ∀ id, changesOf id (runCommits B more s₁ duration) =
          changesOf id (runCommits B fuel s duration) := by
  have cap : s₁'.capOf duration = s'.capOf duration := by
    rw [capOf, capOf, defaults, kin.now]
  rw [run_of_started running started] at ran
  cases looped : Simulation.loop B fuel s' (s'.capOf duration) with
  | error stuck =>
      rw [looped] at ran
      cases ran
  | ok ended =>
      obtain ⟨end_, result⟩ := ended
      rw [looped] at ran
      have concluded : end_.conclude result = (t, .ok outcome) := Except.ok.inj ran
      obtain rfl := outcome_of_conclude concluded
      obtain ⟨enough, end₁, ledger', r', looped₁, kin'⟩ := kin.loop looped unasked single
      obtain ⟨_, guides₁⟩ := kin'.guides₁
      obtain ⟨state, ends⟩ := conclude_of_alone kin'.guides.hook kin'.guides.link outcome
      obtain ⟨state₁, ends₁⟩ := conclude_of_alone guides₁.hook guides₁.link outcome
      obtain rfl := congrArg Prod.fst (ends.symm.trans concluded)
      refine ⟨enough, { end₁ with state := state₁ }, kin'.now, kin'.stats, fun more le => ?_⟩
      obtain ⟨looped₁, same⟩ := looped₁ more le
      rw [run_of_started running₁ started₁, runCommits_of_started running₁ started₁,
        runCommits_of_started running started, cap, looped₁]
      exact ⟨congrArg Except.ok ends₁, same⟩

/-- The turns that waiters take in the first run of a simulation. -/
def Simulation.firstTurns (B : Behaviours σ ω) (fuel : Nat) (s : Simulation σ ω)
    (duration : Option Nat) : List (Turn σ) :=
  (roundsOf B fuel s.rootTags (none, []) s.startHook.1 (s.startHook.1.capOf duration)).flatMap
    Round.turns

/-- Simulations that are built from the same instances in different orders begin as kin. -/
theorem Kin.of_build {B : Behaviours σ Unit} {kernel : Kernel}
    {instances instances' : List (Instance σ Unit)} {s s₁ : Simulation σ Unit} (idle : kernel.Idle)
    (unbridged : ∀ i ∈ Instance.flattenAll instances, ∀ b, i ≠ .bridge b)
    (perm : instances'.Perm instances) (built : build B kernel instances () = .ok s)
    (built₁ : build B kernel instances' () = .ok s₁) :
    ∃ r, Kin s.rootTags r { s with hookStarted := true } { s₁ with hookStarted := true } := by
  have bodies : (startingBodies kernel instances').Perm (startingBodies kernel instances) := by
    rw [startingBodies, startingBodies]
    exact ((Instance.flattenAll_perm perm).filterMap _).append_left _
  obtain ⟨numbers, length, distinct, perm'⟩ := exists_numbers bodies
  obtain ⟨marks, tracks⟩ := tracks_build idle built
  obtain ⟨marks₁, tracks₁⟩ := Tracks.of_adds idle (adds_build built₁) length distinct
  rw [rooted_perm perm' (by rwa [List.map_fst_zip (Nat.le_of_eq length)])] at tracks₁
  have staffed := staffed_build built
  have staffed₁ := staffed_build built₁
  obtain ⟨waiters, ready, rebuilt⟩ := build_perm unbridged built (.refl _)
  obtain ⟨waiters₁, ready₁, rebuilt₁⟩ := build_perm unbridged built perm
  obtain rfl := Except.ok.inj (rebuilt.symm.trans built)
  obtain rfl := Except.ok.inj (rebuilt₁.symm.trans built₁)
  refine ⟨rooted ((List.range (startingBodies kernel instances).length).zip
    (startingBodies kernel instances)), ?_⟩
  exact {
    rested := rested_rooted _
    lineal := fun group index born => absurd ((begins_rooted _).roots group index) born
    guides := ⟨rfl, rfl, staffed, marks, tracks.of_books rfl rfl rfl rfl⟩
    guides₁ := ⟨_, rfl, rfl, staffed₁, marks₁, tracks₁.of_books rfl rfl rfl rfl⟩
    alike := .refl kernel
    table := ⟨_, EventQueue.keeps_empty, EventQueue.keeps_empty⟩
    delta := rfl
    maxDeltas := rfl
    stats := rfl }

/-- The order in which instances are registered does not matter where signals have one writer. If a
run returns, is not asked to end, and no two waiters touch the proposed value of the same signal in
it, then the run of a simulation that was built from the same instances in any other order returns
the same at the same tick, counts the same and commits the same changes of each signal. -/
theorem registration_order_does_not_matter {B : Behaviours σ Unit} {kernel : Kernel}
    {instances instances' : List (Instance σ Unit)} {s : Simulation σ Unit} (idle : kernel.Idle)
    (unbridged : ∀ i ∈ Instance.flattenAll instances, ∀ b, i ≠ .bridge b)
    (perm : instances'.Perm instances) (built : build B kernel instances () = .ok s) :
    ∃ s₁, build B kernel instances' () = .ok s₁ ∧
      ∀ fuel duration t outcome, run B fuel s duration = .ok (t, .ok outcome) →
        (∀ reason, outcome ≠ .finished (.requested reason)) →
        OneWriter (s.firstTurns B fuel duration) →
        ∃ enough t₁, t₁.kernel.now = t.kernel.now ∧ t₁.stats = t.stats ∧
          ∀ more ≥ enough, run B more s₁ duration = .ok (t₁, .ok outcome) ∧
            ∀ id, changesOf id (runCommits B more s₁ duration) =
              changesOf id (runCommits B fuel s duration) := by
  obtain ⟨waiters₁, ready₁, built₁⟩ := build_perm unbridged built perm
  obtain ⟨r, kin⟩ := Kin.of_build idle unbridged perm built built₁
  refine ⟨_, built₁, fun fuel duration t outcome ran unasked single => ?_⟩
  obtain ⟨waiters, ready, rebuilt⟩ := build_perm unbridged built (.refl _)
  obtain rfl := Except.ok.inj (rebuilt.symm.trans built)
  exact kin.run rfl rfl rfl rfl rfl ran unasked single

/-- Two beacons that are not lit. -/
def beacons : Kernel :=
  (Kernel.declare (Kernel.declare {} "near" (.bool false) none).2 "far" (.bool false) none).2

/-- Watchmen, each of which lights a beacon after two ticks. -/
def watchmen : Behaviours (Bool × SignalId) Unit where
  name _ := "watchman"
  resume
    | (false, beacon) => .done (.wait (true, beacon) (.delay 2))
    | (true, beacon) => (Activity.setNext beacon (.bool true)).bind fun _ => .done .done
  react state := .done state

/-- A watchman who comes to a beacon. -/
def arrival (beacon : SignalId) : Instance (Bool × SignalId) Unit := .process (false, beacon)

/-- The simulation of two watchmen, where the one at the near beacon comes first. -/
def watch : Simulation (Bool × SignalId) Unit :=
  (({ kernel := beacons, world := () } : Simulation (Bool × SignalId) Unit).addWaiter "watchman"
    (.process (false, ⟨0⟩)) none).addWaiter "watchman" (.process (false, ⟨1⟩)) none

/-- Whether a run ends because nothing is left to happen. -/
def runsOut {σ : Type} : Except Stuck (Simulation σ Unit × Except SimError Outcome) → Bool
  | .ok (_, .ok outcome) => outcome == .finished .noMoreEvents
  | _ => false

/-- It does not matter which of the watchmen comes first. -/
theorem watchmen_come_in_either_order :
    ∃ s₁, build watchmen beacons [arrival ⟨1⟩, arrival ⟨0⟩] () = .ok s₁ ∧
      ∃ enough t t₁, run watchmen 9 watch none = .ok (t, .ok (.finished .noMoreEvents)) ∧
        t₁.stats = t.stats ∧ ∀ more ≥ enough,
          run watchmen more s₁ none = .ok (t₁, .ok (.finished .noMoreEvents)) ∧
          ∀ id, changesOf id (runCommits watchmen more s₁ none) =
            changesOf id (runCommits watchmen 9 watch none) := by
  have made : beacons.Made :=
    .signal (.signal .empty "near" (.bool false) none) "far" (.bool false) none
  have built : build watchmen beacons [arrival ⟨0⟩, arrival ⟨1⟩] () = .ok watch := rfl
  have unbridged : ∀ i ∈ Instance.flattenAll [arrival ⟨0⟩, arrival ⟨1⟩], ∀ b, i ≠ .bridge b := by
    rw [show Instance.flattenAll [arrival ⟨0⟩, arrival ⟨1⟩] = [arrival ⟨0⟩, arrival ⟨1⟩] from rfl]
    simp [arrival]
  have single : OneWriter (watch.firstTurns watchmen 9 none) := by
    unfold OneWriter
    decide +kernel
  have out : runsOut (run watchmen 9 watch none) = true := by decide +kernel
  obtain ⟨s₁, built₁, same⟩ := registration_order_does_not_matter made.sound.atStart.idle unbridged
    (.swap _ _ _) built
  refine ⟨s₁, built₁, ?_⟩
  unfold runsOut at out
  split at out
  · next t outcome ran =>
      obtain rfl := eq_of_beq out
      obtain ⟨enough, t₁, -, stats, again⟩ := same 9 none t _ ran (by rintro reason ⟨⟩) single
      exact ⟨enough, t, t₁, ran, stats, again⟩
  · cases out

end DeltaCycle
