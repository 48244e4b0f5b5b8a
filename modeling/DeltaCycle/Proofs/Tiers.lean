import DeltaCycle.Proofs.Contention

/-!
# Tiers

Declarations put signals into tiers. Signals that follow from no others are in the lowest tier, and
each shadow has a tier of its own, above those of all its sources, although a bus is given its
drivers after it was declared.
-/

set_option autoImplicit false

namespace DeltaCycle

namespace Kernel

/-- The targets of the shadows, in the order in which these were declared. -/
def targets (k : Kernel) : List SignalId := k.shadows.map Shadow.target

/-- The tier of a signal: zero, or that of the shadow which it is the target of. -/
def tier (k : Kernel) (id : SignalId) : Nat :=
  if id ∈ k.targets then k.targets.idxOf id + 1 else 0

/-- Every source of a shadow is in a tier below that of the shadow. -/
def Tiered (k : Kernel) : Prop :=
  ∀ (place : Nat) (shadow : Shadow), k.shadows[place]? = some shadow →
    ∀ id ∈ shadow.rule.sources, k.tier id ≤ place

variable {k k' : Kernel}

theorem tier_of_targets (same : k'.targets = k.targets) (id : SignalId) : k'.tier id = k.tier id := by
  rw [tier, tier, same]

theorem tier_le (k : Kernel) (id : SignalId) : k.tier id ≤ k.shadows.length := by
  unfold tier
  split
  · next listed =>
      have bound := List.idxOf_lt_length_iff.mpr listed
      rwa [targets, List.length_map] at bound
  · exact Nat.zero_le _

/-- No two shadows share a target, so a target tells its tier. -/
theorem WellDeclared.tier_target (declared : k.WellDeclared) {place : Nat} {shadow : Shadow}
    (here : k.shadows[place]? = some shadow) : k.tier shadow.target = place + 1 := by
  have target : k.targets[place]? = some shadow.target := by
    rw [targets, List.getElem?_map, here, Option.map_some]
  obtain ⟨bound, found⟩ := List.getElem?_eq_some_iff.mp target
  have listed : shadow.target ∈ k.targets := List.mem_of_getElem? target
  have located := List.Nodup.idxOf_getElem declared.distinct place bound
  rw [tier, if_pos listed, ← found]
  exact congrArg (· + 1) located

/-- A new target does not move the others. -/
theorem tier_of_append {target id : SignalId} (targets : k'.targets = k.targets ++ [target])
    (other : id ≠ target) : k'.tier id = k.tier id := by
  unfold tier
  rw [targets]
  by_cases listed : id ∈ k.targets
  · rw [if_pos listed, if_pos (List.mem_append_left _ listed), List.idxOf_append_of_mem listed]
  · have unlisted : id ∉ k.targets ++ [target] := by
      simpa using ⟨listed, other⟩
    rw [if_neg listed, if_neg unlisted]

/-- What is known is not what is declared next. -/
theorem ne_of_known {id : SignalId} (known : (k.signal? id).isSome = true) : id ≠ ⟨k.size⟩ := by
  rintro rfl
  obtain ⟨s, found⟩ := Option.isSome_iff_exists.mp known
  exact Nat.lt_irrefl _ (lt_size_of_found found)

theorem Tiered.of_shadows (tiered : k.Tiered) (same : k'.shadows = k.shadows) : k'.Tiered := by
  intro place shadow here id source
  rw [tier_of_targets (k := k) (congrArg (List.map Shadow.target) same)]
  exact tiered place shadow (same ▸ here) id source

/-- A shadow of known signals is declared above all tiers that there are. -/
theorem Tiered.declareShadow (tiered : k.Tiered) (declared : k.WellDeclared) (s : Signal)
    {rule : ShadowRule} (known : ∀ id ∈ rule.sources, (k.signal? id).isSome = true) :
    (k.declareShadow s rule).2.Tiered := by
  have targets : (k.declareShadow s rule).2.targets = k.targets ++ [⟨k.size⟩] :=
    List.map_append ..
  intro place shadow here id source
  change (k.shadows ++ [(⟨⟨k.size⟩, rule⟩ : Shadow)])[place]? = some shadow at here
  rcases Nat.lt_or_ge place k.shadows.length with old | new
  · rw [List.getElem?_append_left old] at here
    have sourced := (declared.wired shadow (List.mem_of_getElem? here)).known id source
    rw [tier_of_append targets (ne_of_known sourced)]
    exact tiered place shadow here id source
  · rw [List.getElem?_append_right new] at here
    obtain rfl : shadow = ⟨⟨k.size⟩, rule⟩ := by
      simpa using (List.mem_of_getElem? here)
    rw [tier_of_append targets (ne_of_known (known id source))]
    exact Nat.le_trans (k.tier_le id) new

theorem sources_addDriver {driver id : SignalId} {shadow : Shadow}
    (source : id ∈ (addDriver driver shadow).rule.sources) :
    id = driver ∨ id ∈ shadow.rule.sources := by
  obtain ⟨target, rule⟩ := shadow
  cases rule with
  | tristate drivers =>
      have source : id ∈ drivers ++ [driver] := source
      rcases List.mem_append.mp source with old | new
      · exact .inr old
      · exact .inl (List.mem_singleton.mp new)
  | _ => exact .inr source

/-- A driver that is added to a bus follows from nothing. -/
theorem Tiered.declareDriver (tiered : k.Tiered) (declared : k.WellDeclared) {bus id : SignalId}
    {name : String} (added : k.declareDriver bus name = .ok (id, k')) : k'.Tiered := by
  obtain ⟨b, index, -, -, rfl⟩ := declareDriver_eq added
  generalize after : ({ (k.register (.ofKind name .highZ b.kind none)).2 with
    shadows := k.shadows.modify index (addDriver ⟨k.size⟩) } : Kernel) = k'
  have shadows : k'.shadows = k.shadows.modify index (addDriver ⟨k.size⟩) := by rw [← after]
  have targets : k'.targets = k.targets := by
    rw [Kernel.targets, shadows]
    refine List.ext_getElem? fun place => ?_
    rw [List.getElem?_map, List.getElem?_modify, Kernel.targets, List.getElem?_map]
    cases k.shadows[place]? with
    | none => rfl
    | some shadow =>
        dsimp only [Option.map_some]
        split
        · exact congrArg some (target_addDriver _ shadow)
        · rfl
  intro place shadow here id' source
  rw [tier_of_targets targets]
  rw [shadows, List.getElem?_modify] at here
  obtain ⟨old, was, same⟩ := Option.map_eq_some_iff.mp here
  rcases show id' = ⟨k.size⟩ ∨ id' ∈ old.rule.sources by
    split at same
    · exact sources_addDriver (same ▸ source)
    · exact .inr (same ▸ source) with rfl | source
  · -- The driver is no target, as every target was known before.
    have untargeted : (⟨k.size⟩ : SignalId) ∉ k.targets := by
      intro listed
      obtain ⟨other, among, is⟩ := List.mem_map.mp listed
      obtain ⟨v, s, found, -⟩ := (declared.wired other among).target
      exact ne_of_known (Option.isSome_iff_exists.mpr ⟨s, found⟩) is
    rw [tier, if_neg untargeted]
    exact Nat.zero_le _
  · exact tiered place old was id' source

/-- Declarations keep the tiers apart. -/
theorem Made.tiered (made : k.Made) : k.Tiered := by
  induction made with
  | empty => exact fun place shadow here => by simp at here
  | signal made name built delay ih => exact ih.of_shadows rfl
  | @slice k k' made name parent hi lo id declared ih =>
      obtain ⟨b, v, held, -, rfl⟩ := declareSlice_eq declared
      refine ih.declareShadow made.sound.declared _ fun id source => ?_
      obtain ⟨s, found, -⟩ := parentBits_eq held
      rw [List.mem_singleton.mp source, found]
      rfl
  | @bit k k' made name parent index id declared ih =>
      obtain ⟨b, v, held, -, rfl⟩ := declareBit_eq declared
      refine ih.declareShadow made.sound.declared _ fun id source => ?_
      obtain ⟨s, found, -⟩ := parentBits_eq held
      rw [List.mem_singleton.mp source, found]
      rfl
  | @concat k k' made name parts id declared ih =>
      obtain ⟨-, values, v, held, -, rfl⟩ := declareConcat_eq declared
      refine ih.declareShadow made.sound.declared _ fun id source => ?_
      exact known_of_parts (made.sound.atStart.parts held) id source
  | @tristate k made name template built ih =>
      exact ih.declareShadow made.sound.declared _ fun id source => by cases source
  | driver made declared ih => exact ih.declareDriver made.sound.declared declared
  | @configured k made config ih =>
      refine ih.of_shadows ?_
      unfold Simulation.configure
      dsimp only
      split <;> rfl
  | annotated made id traced driven read ih => exact ih.of_shadows rfl
  | policed made contention ih => exact ih.of_shadows rfl
  | handedBack made diagnostics ih => exact ih.of_shadows rfl

end Kernel

end DeltaCycle
