import DeltaCycle.Proofs.Passage

/-!
# Beginnings

A simulation that was just built is tracked by a roster of its first waiters, the roots. How the
roots are numbered is free, so that simulations that were built from the same instances in
different orders can be tracked by one roster.
-/

set_option autoImplicit false

namespace DeltaCycle

open Roster

variable {σ ω : Type}

namespace Kernel

/-- Nobody waits on any signal, as in every kernel that no simulation owns: signals are declared
without waiters, and a simulation that is ended hands back the kernel without them. -/
def Idle (k : Kernel) : Prop := ∀ id s, k.signal? id = some s → s.waits = {}

theorem idle_empty : ({} : Kernel).Idle := by
  intro id s found
  simp [signal?] at found

end Kernel

/-- The body of the waiter that stands for an instance, if one does. -/
def Instance.body? : Instance σ ω → Option (Body σ)
  | .process state => some (.process state)
  | .always block => some (.always block false)
  | .bridge b => if b.outputs.isEmpty then none else some .outputs
  | .group _ => none

namespace Roster

/-- A roster of numbered roots. -/
def rooted (roots : List (Nat × Body σ)) : Roster σ :=
  roots.foldl (fun r root => r.bear (.root root.1) root.2) {}

theorem rooted_concat (roots : List (Nat × Body σ)) (number : Nat) (body : Body σ) :
    rooted (roots ++ [(number, body)]) = (rooted roots).bear (.root number) body := by
  rw [rooted, List.foldl_append]
  rfl

theorem seat_rooted (roots : List (Nat × Body σ)) (name : Name) :
    (rooted roots).seat name = .unborn ∨
      ∃ number body, (number, body) ∈ roots ∧ name = .root number ∧
        (rooted roots).seat name = .alive 0 (some body) := by
  induction roots using List.reverseRecOn with
  | nil => exact .inl rfl
  | append_singleton roots root ih =>
      obtain ⟨number, body⟩ := root
      rw [rooted_concat]
      by_cases same : name = .root number
      · subst same
        exact .inr ⟨number, body, by simp, rfl, Function.update_self ..⟩
      · rw [show ((rooted roots).bear (.root number) body).seat name = (rooted roots).seat name from
          Function.update_of_ne same ..]
        refine ih.imp_right ?_
        rintro ⟨number', body', listed, same', seat⟩
        exact ⟨number', body', List.mem_append_left _ listed, same', seat⟩

theorem rested_rooted (roots : List (Nat × Body σ)) : (rooted roots).Rested := by
  intro name count alive
  rcases seat_rooted roots name with unborn | ⟨number, body, -, -, seat⟩
  · cases unborn.symm.trans alive
  · cases seat.symm.trans alive

theorem Begins.bear {r : Roster σ} (begins : r.Begins) (number : Nat) (body : Body σ) :
    (r.bear (.root number) body).Begins where
  first := fun {name count body'} alive => by
    change Function.update r.seat (.root number) (.alive 0 (some body)) name = _ at alive
    by_cases same : name = .root number
    · subst same
      rw [Function.update_self] at alive
      cases alive
      rfl
    · rw [Function.update_of_ne same] at alive
      exact begins.first alive
  roots := fun group b => by
    have other : group.member b ≠ .root number := fun same => by cases same
    rw [show (r.bear (.root number) body).seat (group.member b) = r.seat (group.member b) from
      Function.update_of_ne other (.alive 0 (some body)) r.seat]
    exact begins.roots group b
  newborn := fun {name} current => by
    by_cases same : name = .root number
    · subst same
      exact Function.update_self ..
    · have apart : (⟨name, 0⟩ : Tag) ≠ ⟨.root number, 0⟩ := fun h => same (congrArg Tag.name h)
      refine (Function.update_of_ne apart ..).trans (begins.newborn ?_)
      exact current_of_update ⟨.root number, 0⟩ current apart
  wakes := begins.wakes

theorem begins_rooted (roots : List (Nat × Body σ)) : (rooted roots).Begins := by
  induction roots using List.reverseRecOn with
  | nil =>
      exact {
        first := fun alive => by cases alive
        roots := fun _ _ => rfl
        newborn := fun current => by
          obtain ⟨body, alive⟩ := current
          cases alive
        wakes := rfl }
  | append_singleton roots root ih =>
      rw [rooted_concat]
      exact ih.bear root.1 root.2

end Roster

theorem Kernel.Idle.watchers {k : Kernel} (idle : k.Idle) (t : Trigger) : k.watchers t = [] := by
  unfold Kernel.watchers
  cases found : k.signal? t.signal with
  | none => rfl
  | some s =>
      dsimp only
      rw [idle _ s found]
      obtain id | ⟨id, _ | _⟩ := t <;> rfl

namespace Tracks

theorem empty {kernel : Kernel} (idle : kernel.Idle) (world : ω) :
    Tracks [] ({ kernel, world } : Simulation σ ω) {} (rooted []) where
  seats :=
    { wellFormed := WaiterTable.wellFormed_empty
      length := rfl
      entered := fun tagged => by cases tagged
      injective := fun tagged => by cases tagged
      lineage := fun _ _ born => absurd rfl born
      groups := fun assigned => by cases assigned
      separate := fun assigned => by cases assigned
      held := fun found => by cases found
      seated := fun alive => by cases alive }
  marked := ⟨fun a listed => absurd listed List.not_mem_nil, fun tagged => by cases tagged⟩
  watched := by
    refine ⟨fun t a listed => ?_, fun tagged => by cases tagged⟩
    rw [idle.watchers] at listed
    cases listed
  awaited := rfl

variable {B : Behaviours σ ω} {ledger : List Tag} {s s' : Simulation σ ω} {marks : Marks}
  {roots : List (Nat × Body σ)} (h : Tracks ledger s marks (rooted roots))

include h

theorem addRoot {number : Nat} (fresh : number ∉ roots.map Prod.fst) (title : String)
    (body : Body σ) :
    ∃ marks', Tracks (ledger ++ [⟨.root number, 0⟩]) (s.addWaiter title body none) marks'
      (rooted (roots ++ [(number, body)])) := by
  have unborn : (rooted roots).seat (.root number) = .unborn := by
    rcases seat_rooted roots (.root number) with unborn | ⟨number', body', listed, same, -⟩
    · exact unborn
    · cases same
      exact absurd (List.mem_map_of_mem (f := Prod.fst) listed) fresh
  rw [rooted_concat]
  exact ⟨_, h.addWaiter title body unborn (fun _ _ member => by cases member) .nobody⟩

end Tracks

namespace Simulation

/-- Waiters for the bodies were added in order, and a bridge may have been attached. -/
inductive Adds (s : Simulation σ ω) : List (Body σ) → Simulation σ ω → Prop where
  | refl : Adds s [] s
  | add {bodies : List (Body σ)} {s' : Simulation σ ω} (adds : Adds s bodies s') (title : String)
      (body : Body σ) : Adds s (bodies ++ [body]) (s'.addWaiter title body none)
  | link {bodies : List (Body σ)} {s' : Simulation σ ω} (adds : Adds s bodies s')
      (link : Option (Link ω)) : Adds s bodies { s' with link }

theorem Adds.trans {s s' s'' : Simulation σ ω} {bodies more : List (Body σ)}
    (first : Adds s bodies s') (second : Adds s' more s'') : Adds s (bodies ++ more) s'' := by
  induction second with
  | refl => rwa [List.append_nil]
  | add _ title body ih =>
      rw [← List.append_assoc]
      exact ih.add title body
  | link _ link ih => exact ih.link link

theorem Adds.stats {s s' : Simulation σ ω} {bodies : List (Body σ)} (adds : Adds s bodies s') :
    s'.stats = s.stats := by
  induction adds with
  | refl => rfl
  | add _ title body ih => exact ih
  | link _ link ih => exact ih

theorem Adds.state {s s' : Simulation σ ω} {bodies : List (Body σ)} (adds : Adds s bodies s') :
    s'.state = s.state := by
  induction adds with
  | refl => rfl
  | add _ title body ih => exact ih
  | link _ link ih => exact ih

theorem adds_addShadows (s : Simulation σ ω) :
    Adds s (s.kernel.shadows.map .shadow) s.addShadows := by
  have each (shadows : List Shadow) (s : Simulation σ ω) :
      Adds s (shadows.map .shadow) (shadows.foldl
        (fun s shadow => s.addWaiter (shadow.processName s.kernel) (.shadow shadow) none) s) := by
    induction shadows generalizing s with
    | nil => exact .refl
    | cons shadow rest ih => exact Adds.trans (.add .refl _ _) (ih _)
  exact each s.kernel.shadows s

/-- The ways of adding an instance that is not refused. -/
inductive AddWay (s : Simulation σ ω) : Instance σ ω → Simulation σ ω → Prop where
  | waiter {i : Instance σ ω} {title : String} {body : Body σ} (made : i.body? = some body)
      (unbridged : ∀ b, i ≠ .bridge b) : AddWay s i (s.addWaiter title body none)
  | group (members : List (Instance σ ω)) : AddWay s (.group members) s
  | silent {bridge : Bridge ω} (silent : bridge.outputs = []) :
      AddWay s (.bridge bridge) { s with link := some { bridge } }
  | bridge {bridge : Bridge ω} (speaks : bridge.outputs ≠ [])
      (known : ∀ id ∈ bridge.outputs, (s.kernel.signal? id).isSome) :
      AddWay s (.bridge bridge) { s.addWaiter "cosim" .outputs none with link := some { bridge } }

theorem way_of_addInstance {B : Behaviours σ ω} {s s' : Simulation σ ω} {i : Instance σ ω}
    (added : s.addInstance B i = .ok s') : s.AddWay i s' := by
  cases i with
  | process state =>
      cases added
      exact .waiter rfl nofun
  | always block =>
      simp only [addInstance] at added
      split at added
      · cases added
      · cases added
        exact .waiter rfl nofun
  | group members =>
      cases added
      exact .group members
  | bridge b =>
      simp only [addInstance, attach] at added
      split at added
      · cases added
      · split at added
        · cases added
        · next unknown =>
            cases added
            cases silent : b.outputs.isEmpty with
            | true => exact .silent (List.isEmpty_iff.mp silent)
            | false =>
                refine .bridge (fun empty => ?_) fun id output => ?_
                · rw [empty] at silent
                  cases silent
                · have present := List.find?_eq_none.mp unknown id output
                  rwa [Option.isNone_iff_eq_none, ← ne_eq, ← Option.isSome_iff_ne_none] at present

theorem addInstances_cons {B : Behaviours σ ω} {s s' : Simulation σ ω} {i : Instance σ ω}
    {rest : List (Instance σ ω)} (added : addInstances B s (i :: rest) = .ok s') :
    ∃ s₁, s.addInstance B i = .ok s₁ ∧ addInstances B s₁ rest = .ok s' := by
  rw [addInstances] at added
  cases first : s.addInstance B i with
  | error e => simp [first] at added
  | ok s₁ =>
      simp only [first] at added
      exact ⟨s₁, rfl, added⟩

theorem adds_addInstance {B : Behaviours σ ω} {s s' : Simulation σ ω} {i : Instance σ ω}
    (added : s.addInstance B i = .ok s') : Adds s i.body?.toList s' := by
  cases way_of_addInstance added with
  | waiter made unbridged =>
      rw [made]
      exact .add .refl _ _
  | group members => exact .refl
  | @silent bridge silent =>
      rw [show (Instance.bridge bridge : Instance σ ω).body? = none from
        if_pos (List.isEmpty_iff.mpr silent)]
      exact .link .refl _
  | @bridge bridge speaks known =>
      rw [show (Instance.bridge bridge : Instance σ ω).body? = some .outputs from
        if_neg fun empty => speaks (List.isEmpty_iff.mp empty)]
      exact .link (.add .refl _ _) _

theorem adds_addInstances {B : Behaviours σ ω} {s s' : Simulation σ ω}
    {instances : List (Instance σ ω)} (added : addInstances B s instances = .ok s') :
    Adds s (instances.filterMap Instance.body?) s' := by
  induction instances generalizing s with
  | nil =>
      cases added
      exact .refl
  | cons i rest ih =>
      obtain ⟨s₁, first, added⟩ := addInstances_cons added
      have adds := (adds_addInstance first).trans (ih added)
      rw [List.filterMap_cons]
      cases body : i.body? with
      | none =>
          rw [body] at adds
          exact adds
      | some b =>
          rw [body] at adds
          exact adds

/-- The bodies with which a simulation is built. -/
def startingBodies (kernel : Kernel) (instances : List (Instance σ ω)) : List (Body σ) :=
  kernel.shadows.map .shadow ++ (Instance.flattenAll instances).filterMap Instance.body?

theorem adds_build {B : Behaviours σ ω} {kernel : Kernel} {instances : List (Instance σ ω)}
    {world : ω} {s : Simulation σ ω} (built : build B kernel instances world = .ok s) :
    Adds { kernel, world } (startingBodies kernel instances) s :=
  (adds_addShadows _).trans (adds_addInstances built)

theorem known_addInstance {B : Behaviours σ ω} {s s' : Simulation σ ω} {i : Instance σ ω}
    (known : s.OutputsKnown) (added : s.addInstance B i = .ok s') : s'.OutputsKnown := by
  cases way_of_addInstance added with
  | waiter made unbridged => exact known
  | group members => exact known
  | @silent bridge silent =>
      intro id output
      change id ∈ bridge.outputs at output
      rw [silent] at output
      cases output
  | bridge speaks outputs => exact outputs

theorem known_addInstances {B : Behaviours σ ω} {s s' : Simulation σ ω}
    {instances : List (Instance σ ω)} (known : s.OutputsKnown)
    (added : addInstances B s instances = .ok s') : s'.OutputsKnown := by
  induction instances generalizing s with
  | nil =>
      cases added
      exact known
  | cons i rest ih =>
      obtain ⟨s₁, first, added⟩ := addInstances_cons added
      exact ih (known_addInstance known first) added

theorem addShadows_spec (s : Simulation σ ω) :
    ∃ waiters ready, s.addShadows = { s with waiters, ready } := by
  unfold addShadows
  generalize s.kernel.shadows = shadows
  induction shadows generalizing s with
  | nil => exact ⟨_, _, rfl⟩
  | cons shadow rest ih =>
      obtain ⟨waiters, ready, added⟩ :=
        ih (s.addWaiter (shadow.processName s.kernel) (.shadow shadow) none)
      exact ⟨waiters, ready, added⟩

theorem known_build {B : Behaviours σ ω} {kernel : Kernel} {instances : List (Instance σ ω)}
    {world : ω} {s : Simulation σ ω} (built : build B kernel instances world = .ok s) :
    s.OutputsKnown := by
  obtain ⟨waiters, ready, shadowed⟩ := addShadows_spec ({ kernel, world } : Simulation σ ω)
  refine known_addInstances (fun id output => ?_) built
  rw [shadowed] at output
  cases output

end Simulation

/-- A simulation that was just built is tracked by its roots, however they are numbered. -/
theorem Tracks.of_adds {kernel : Kernel} {world : ω} {s : Simulation σ ω} {bodies : List (Body σ)}
    (idle : kernel.Idle) (adds : Simulation.Adds { kernel, world } bodies s) {numbers : List Nat}
    (length : numbers.length = bodies.length) (distinct : numbers.Nodup) :
    ∃ marks, Tracks (numbers.map fun number => ⟨.root number, 0⟩) s marks
      (rooted (numbers.zip bodies)) := by
  induction adds generalizing numbers with
  | refl =>
      obtain rfl := List.length_eq_zero_iff.mp length
      exact ⟨{}, .empty idle world⟩
  | @add bodies s' _ title body ih =>
      rw [List.length_append, List.length_singleton] at length
      obtain ⟨numbers, number, rfl⟩ : ∃ init last, numbers = init ++ [last] :=
        ⟨_, _, (List.dropLast_append_getLast (List.ne_nil_of_length_eq_add_one length)).symm⟩
      rw [List.length_append, List.length_singleton, Nat.add_right_cancel_iff] at length
      obtain ⟨nodup, -, apart⟩ := List.nodup_append.mp distinct
      obtain ⟨marks, tracks⟩ := ih length nodup
      have fresh : number ∉ (numbers.zip bodies).map Prod.fst := by
        rw [List.map_fst_zip (Nat.le_of_eq length)]
        exact fun listed => apart number listed number (List.mem_singleton_self _) rfl
      obtain ⟨marks', tracks'⟩ := tracks.addRoot fresh title body
      refine ⟨marks', ?_⟩
      rw [List.map_append, List.zip_append length]
      exact tracks'
  | link _ link ih =>
      obtain ⟨marks, tracks⟩ := ih length distinct
      exact ⟨marks, tracks.of_books rfl rfl rfl rfl⟩

end DeltaCycle
