import DeltaCycle.Proofs.TypeSafety

/-!
# Rules of shadows

What the rule of a shadow makes of the committed values of its sources. Whoever writes to the
target of a shadow writes that, so a proposed value that fits the rule keeps fitting it until a
source changes.
-/

set_option autoImplicit false

namespace DeltaCycle

variable {σ ω : Type}

/-! ## What fits a rule -/

/-- The signals that a rule follows. -/
def ShadowRule.sources : ShadowRule → List SignalId
  | .slice parent .. => [parent]
  | .bit parent _ => [parent]
  | .concat parts => parts.filterMap ConcatPart.source?
  | .tristate drivers => drivers

namespace Kernel

/-- The committed values of the drivers that do not float. -/
def active (k : Kernel) (drivers : List SignalId) : List Value :=
  (drivers.filterMap k.val?).filter fun v => v ≠ .highZ

/-- The value is what a rule makes of the committed values of its sources: a slice or a bit of a
vector, vectors that are joined, or the value of the one driver that does not float, and high
impedance where none or several do not. -/
def Fits (k : Kernel) : ShadowRule → Value → Prop
  | .slice parent hi lo, v =>
      ∃ p b, k.val? parent = some (.bits p) ∧ p.slice hi lo = .ok b ∧ v.same (.bits b) = true
  | .bit parent index, v =>
      ∃ p b, k.val? parent = some (.bits p) ∧ p.bit index = .ok b ∧ v.same (.bool b) = true
  | .concat parts, v =>
      ∃ values b, k.partValues parts = .ok values ∧ Value.concat values = .ok b ∧
        v.same (.bits b) = true
  | .tristate drivers, v =>
      (∀ w, k.active drivers = [w] → v.same w = true) ∧
        ((k.active drivers).length ≠ 1 → v = .highZ)

/-- The committed values of all shadows fit their rules. -/
def Consistent (k : Kernel) : Prop :=
  ∀ shadow ∈ k.shadows, ∃ v, k.val? shadow.target = some v ∧ k.Fits shadow.rule v

/-- The proposed value of a shadow fits its rule. -/
def Proposes (k : Kernel) (shadow : Shadow) : Prop :=
  ∃ s, k.signal? shadow.target = some s ∧ k.Fits shadow.rule s.next

theorem Fits.of_same {k : Kernel} {rule : ShadowRule} {v w : Value} (fits : k.Fits rule v)
    (same : w.same v = true) : k.Fits rule w := by
  cases rule with
  | slice parent hi lo =>
      obtain ⟨p, b, held, cut, equal⟩ := fits
      exact ⟨p, b, held, cut, Value.same_trans same equal⟩
  | bit parent index =>
      obtain ⟨p, b, held, read, equal⟩ := fits
      exact ⟨p, b, held, read, Value.same_trans same equal⟩
  | concat parts =>
      obtain ⟨values, b, known, joined, equal⟩ := fits
      exact ⟨values, b, known, joined, Value.same_trans same equal⟩
  | tristate drivers =>
      refine ⟨fun driven sole => Value.same_trans same (fits.1 driven sole), fun contended => ?_⟩
      rw [fits.2 contended] at same
      cases w <;> first | rfl | cases same

theorem partValues_congr {k k' : Kernel} {parts : List ConcatPart}
    (vals : ∀ id ∈ parts.filterMap ConcatPart.source?, k'.val? id = k.val? id)
    {values : List Value} (known : k.partValues parts = .ok values) :
    k'.partValues parts = .ok values := by
  induction parts generalizing values with
  | nil => exact known
  | cons part rest ih =>
      rw [partValues] at known ⊢
      have first : ∀ v, k.partValue part = .ok v → k'.partValue part = .ok v := by
        intro v held
        cases part with
        | literal w => exact held
        | signal id =>
            obtain ⟨s, found, rfl⟩ := val_eq_ok.mp held
            have same := vals id (by simp [ConcatPart.source?])
            rw [val?, val?, found, Option.map_some, Option.map_eq_some_iff] at same
            exact val_eq_ok.mpr same
      cases held : k.partValue part with
      | error e => simp [held] at known
      | ok v =>
          rw [first v held]
          simp only [held] at known ⊢
          cases others : k.partValues rest with
          | error e =>
              rw [others] at known
              cases known
          | ok vs =>
              rw [others] at known
              rw [ih (fun id listed => vals id ?_) others]
              · exact known
              · obtain ⟨part', listed', source⟩ := List.mem_filterMap.mp listed
                exact List.mem_filterMap.mpr ⟨part', List.mem_cons_of_mem _ listed', source⟩

/-- Whether a value fits a rule depends on the sources alone. -/
theorem Fits.of_sources {k k' : Kernel} {rule : ShadowRule} {v : Value}
    (vals : ∀ id ∈ rule.sources, k'.val? id = k.val? id) (fits : k.Fits rule v) :
    k'.Fits rule v := by
  cases rule with
  | slice parent hi lo =>
      obtain ⟨p, b, held, rest⟩ := fits
      exact ⟨p, b, (vals parent (List.mem_singleton_self _)).trans held, rest⟩
  | bit parent index =>
      obtain ⟨p, b, held, rest⟩ := fits
      exact ⟨p, b, (vals parent (List.mem_singleton_self _)).trans held, rest⟩
  | concat parts =>
      obtain ⟨values, b, known, rest⟩ := fits
      exact ⟨values, b, partValues_congr vals known, rest⟩
  | tristate drivers =>
      have vals : ∀ id ∈ drivers, k'.val? id = k.val? id := vals
      have same : k'.active drivers = k.active drivers := by
        unfold active
        rw [List.filterMap_congr vals]
      have fits := fits
      simp only [Fits] at fits ⊢
      rw [same]
      exact fits

end Kernel

/-! ## Rules give what fits -/

namespace Kind

theorem same_of_coerce_bits {template b : Bits} {w : Value}
    (accepted : (Kind.bits template).coerce (.bits b) = .ok w) : w.same (.bits b) = true := by
  have solid : Value.bits b ≠ .highZ := nofun
  cases accepts_of_coerce solid accepted with
  | bits numeric fits =>
      cases numeric
      obtain ⟨rfl, -⟩ := Bits.withVal_eq fits
      simp [Value.same, Bits.same]

/-- A value of the kind is restated as the same value. -/
theorem same_of_coerce {kind : Kind} {v w : Value} (holds : kind.Holds v)
    (accepted : kind.coerce v = .ok w) : w.same v = true := by
  cases kind with
  | any =>
      have kept : w = v := by cases v <;> cases accepted <;> rfl
      rw [kept]
      exact v.same_self
  | bool =>
      cases v with
      | bool b =>
          cases accepted
          exact Value.same_self _
      | _ => exact holds.elim
  | int =>
      cases v with
      | int n =>
          cases accepted
          exact Value.same_self _
      | _ => exact holds.elim
  | bits template =>
      cases v with
      | bits b => exact same_of_coerce_bits accepted
      | _ => exact holds.elim
  | enum type =>
      cases v with
      | enum item =>
          have holds : item.type = type := holds
          simp only [coerce, if_pos holds, Except.ok.injEq] at accepted
          rw [← accepted]
          exact Value.same_self _
      | _ => exact holds.elim

end Kind

namespace Kernel

theorem asserted_eq (k : Kernel) (drivers : List SignalId) :
    Shadow.asserted k drivers = k.active drivers := by
  unfold Shadow.asserted active
  refine List.filter_congr fun v _ => ?_
  cases v <;> rfl

/-- The value that a signal holds where it is read is that of the kernel. -/
theorem val?_of_val {k : Kernel} {id : SignalId} {v : Value} (held : k.val id = .ok v) :
    k.val? id = some v := by
  obtain ⟨s, found, rfl⟩ := val_eq_ok.mp held
  rw [val?, found, Option.map_some]

/-- The kind of the target of a shadow that does not float at the start. -/
theorem TargetAt.kind {k : Kernel} {id : SignalId} {v : Value} {s : Signal}
    (target : k.TargetAt id v) (declared : k.WellDeclared) (found : k.signal? id = some s)
    (driven : v ≠ .highZ) : s.kind = v.kind := by
  obtain ⟨s', found', rfl, -⟩ := target
  cases found.symm.trans found'
  exact (declared.proper id s found).kind.resolve_left driven

theorem of_derive {k : Kernel} {parent : SignalId} {f : Value → Except ValueError Value}
    {value : Value} (given : Shadow.derive k parent f = .ok value) (solid : value ≠ .highZ) :
    ∃ v, k.val? parent = some v ∧ f v = .ok value := by
  unfold Shadow.derive at given
  split at given
  · cases given
  · cases given
    exact absurd rfl solid
  · next v _ held =>
      refine ⟨v, val?_of_val held, ?_⟩
      cases made : f v with
      | error cause =>
          rw [made] at given
          cases given
      | ok w =>
          rw [made] at given
          cases given
          rfl

theorem of_join {k : Kernel} {parts : List ConcatPart} {value : Value}
    (given : Shadow.join k parts = .ok value) (solid : value ≠ .highZ) :
    ∃ values b, k.partValues parts = .ok values ∧ Value.concat values = .ok b ∧
      value = .bits b := by
  unfold Shadow.join at given
  cases known : k.partValues parts with
  | error e => simp [known] at given
  | ok values =>
      simp only [known] at given
      split at given
      · cases given
        exact absurd rfl solid
      · cases joined : Value.concat values with
        | error cause =>
            rw [joined] at given
            cases given
        | ok b =>
            rw [joined] at given
            cases given
            exact ⟨values, b, rfl, joined, rfl⟩

/-- A bus is resolved to the value of the one driver that does not float. -/
theorem of_resolve {k : Kernel} {bus : SignalId} {drivers : List SignalId} {value : Value}
    (given : (Shadow.resolve k bus drivers).2 = .ok value) :
    (∃ driver ∈ drivers, k.val? driver = some value ∧ value ≠ .highZ ∧
      k.active drivers = [value]) ∨ (k.active drivers).length ≠ 1 ∧ value = .highZ := by
  unfold Shadow.resolve at given
  rw [asserted_eq] at given
  split at given
  · next none_ =>
      cases given
      exact .inr ⟨by simp [none_], rfl⟩
  · next v sole =>
      cases given
      left
      have listed : value ∈ k.active drivers := by simp [sole]
      obtain ⟨held, solid⟩ := List.mem_filter.mp listed
      obtain ⟨driver, listed, val⟩ := List.mem_filterMap.mp held
      exact ⟨driver, listed, val, by simpa using solid, sole⟩
  · next several many =>
      right
      have length : (k.active drivers).length ≠ 1 := by
        intro one
        obtain ⟨v, sole⟩ := List.length_eq_one_iff.mp one
        exact many v sole
      refine ⟨length, ?_⟩
      split at given
      · cases given
      · cases given
        rfl

/-- What a rule gives, restated in the kind of the target, fits the rule. -/
theorem fits_of_evaluate {k : Kernel} {shadow : Shadow} {s : Signal} {value next : Value}
    (declared : k.WellDeclared) (typed : k.Typed) (listed : shadow ∈ k.shadows)
    (found : k.signal? shadow.target = some s) (given : (shadow.evaluate k).2 = .ok value)
    (accepted : s.kind.coerce value = .ok next) : k.Fits shadow.rule next := by
  have gives : k.Gives shadow.target value := ⟨shadow, listed, rfl, given⟩
  have solid {v : Value} (target : k.TargetAt shadow.target v) (driven : v ≠ .highZ) :
      value ≠ .highZ := by
    obtain ⟨s', found', rfl, -⟩ := target
    cases found.symm.trans found'
    exact gives.solid declared typed found driven
  cases declared.wired shadow listed with
  | @slice target parent hi lo b v source sliced init =>
      obtain ⟨w, held, cut⟩ := of_derive given (solid init nofun)
      rw [init.kind declared found nofun] at accepted
      cases w with
      | bits p =>
          cases made : p.slice hi lo with
          | error cause => simp [Value.slice, made, Except.map] at cut
          | ok b' =>
              simp only [Value.slice, made, Except.map, Except.ok.injEq] at cut
              subst cut
              exact ⟨p, b', held, made, Kind.same_of_coerce_bits accepted⟩
      | _ => cases cut
  | @bit target parent index b v source read init =>
      obtain ⟨w, held, cut⟩ := of_derive given (solid init nofun)
      rw [init.kind declared found nofun] at accepted
      cases w with
      | bits p =>
          cases made : p.bit index with
          | error cause => simp [Value.bit, made, Except.map] at cut
          | ok b' =>
              simp only [Value.bit, made, Except.map, Except.ok.injEq] at cut
              subst cut
              have holds : Kind.bool.Holds (.bool b') := trivial
              exact ⟨p, b', held, made, Kind.same_of_coerce holds accepted⟩
      | _ => cases cut
  | @concat target parts values v sources joined init =>
      obtain ⟨now, b, known, made, rfl⟩ := of_join given (solid init nofun)
      rw [init.kind declared found nofun] at accepted
      exact ⟨now, b, known, made, Kind.same_of_coerce_bits accepted⟩
  | @tristate target drivers sources init =>
      rcases of_resolve given with ⟨driver, listed, held, floats, sole⟩ | ⟨length, rfl⟩
      · obtain ⟨bus, d, foundBus, foundDriver, -, kinds⟩ := sources driver listed
        cases found.symm.trans foundBus
        have val : d.val = value := by
          rw [val?, foundDriver, Option.map_some, Option.some.injEq] at held
          exact held
        have holds := (typed driver d foundDriver).1.1
        rw [val, kinds] at holds
        have same := Kind.same_of_coerce (holds.resolve_left floats) accepted
        refine ⟨fun w only => ?_, fun length => absurd (by rw [sole]; rfl) length⟩
        rw [sole] at only
        cases only
        exact same
      · cases accepted
        refine ⟨fun w only => absurd (by rw [only]; rfl) length, fun _ => rfl⟩

/-- A shadow with the committed values of its sources and its own proposed value as they were. -/
theorem Proposes.of_same {k k' : Kernel} {shadow : Shadow} (proposes : k.Proposes shadow)
    (vals : ∀ id ∈ shadow.rule.sources, k'.val? id = k.val? id)
    (next : (k'.signal? shadow.target).map Signal.next =
      (k.signal? shadow.target).map Signal.next) : k'.Proposes shadow := by
  obtain ⟨s, found, fits⟩ := proposes
  rw [found, Option.map_some, Option.map_eq_some_iff] at next
  obtain ⟨s', found', same⟩ := next
  refine ⟨s', found', ?_⟩
  rw [same]
  exact fits.of_sources vals

/-- Where nothing is pending and every shadow proposes what fits, the shadows are consistent. -/
theorem consistent_of_proposes {k : Kernel} (declared : k.WellDeclared) (upToDate : k.UpToDate)
    (proposes : ∀ shadow ∈ k.shadows, k.Proposes shadow) : k.Consistent := by
  intro shadow listed
  obtain ⟨s, found, fits⟩ := proposes shadow listed
  obtain ⟨v, s', found', -, -, prompt⟩ := (declared.wired shadow listed).target
  cases found.symm.trans found'
  refine ⟨s.val, congrArg (Option.map Signal.val) found, fits.of_same ?_⟩
  exact upToDate.same shadow.target s found prompt

end Kernel

/-! ## Shadows at the start -/

namespace Kernel

theorem partValues_of_starts {k : Kernel} (atStart : k.AtStart) {parts : List ConcatPart}
    {values : List Value} (starts : List.Forall₂ k.PartAt parts values) :
    k.partValues parts = .ok values := by
  induction starts with
  | nil => rfl
  | @cons part v parts values first others ih =>
      have held : k.partValue part = .ok v := by
        cases part with
        | signal id =>
            obtain ⟨s, found, rfl⟩ := first
            exact val_eq_ok.mpr ⟨s, found, atStart.val found⟩
        | literal w => exact congrArg Except.ok first
      rw [partValues, held, ih]
      rfl

/-- In a kernel at the start of time every shadow proposes what fits. -/
theorem Sound.proposes {k : Kernel} (sound : k.Sound) {shadow : Shadow}
    (listed : shadow ∈ k.shadows) : k.Proposes shadow := by
  have held {id : SignalId} {v : Value} (starts : k.StartsAt id v) : k.val? id = some v := by
    obtain ⟨s, found, rfl⟩ := starts
    rw [val?, found, Option.map_some, sound.atStart.val found]
  have proposes {v : Value} (target : k.TargetAt shadow.target v) (fits : k.Fits shadow.rule v) :
      k.Proposes shadow := by
    obtain ⟨s, found, rfl, -⟩ := target
    refine ⟨s, found, ?_⟩
    rw [← sound.atStart.signal found]
    exact fits
  cases sound.declared.wired shadow listed with
  | slice source sliced init =>
      exact proposes init ⟨_, _, held source, sliced, Value.same_self _⟩
  | bit source read init => exact proposes init ⟨_, _, held source, read, Value.same_self _⟩
  | concat sources joined init =>
      exact proposes init
        ⟨_, _, partValues_of_starts sound.atStart sources, joined, Value.same_self _⟩
  | @tristate target drivers sources init =>
      have floating : k.active drivers = [] := by
        refine List.filter_eq_nil_iff.mpr fun v driven => ?_
        obtain ⟨driver, listed, val⟩ := List.mem_filterMap.mp driven
        obtain ⟨b, d, -, found, floats, -⟩ := sources driver listed
        rw [held ⟨d, found, floats⟩] at val
        cases val
        simp
      refine proposes init ⟨fun w sole => ?_, fun _ => rfl⟩
      rw [floating] at sole
      cases sole

theorem Sound.consistent {k : Kernel} (sound : k.Sound) : k.Consistent :=
  consistent_of_proposes sound.declared sound.atStart.upToDate fun _ listed => sound.proposes listed

end Kernel

/-! ## Proposals keep fitting -/

namespace Desk

/-- Writing changes no committed value. -/
theorem Step.val? {d d' : Desk} {happening : Option Happening} (step : Desk.Step d happening d')
    (writes : ∀ h ∈ happening, h.write?.isSome) (id : SignalId) :
    d'.kernel.val? id = d.kernel.val? id := by
  have turns := step.turns id
  unfold Kernel.val?
  generalize d.kernel.signal? id = signal, d'.kernel.signal? id = signal' at turns ⊢
  cases turns with
  | none => rfl
  | some turn =>
      refine congrArg some ?_
      cases turn with
      | kept other => rfl
      | rewired waits => rfl
      | written next => rfl
      | _ => simp [Happening.write?] at writes

/-- A proposed value fits its rule after a step if it did before or is written in the step, and the
sources stay as they are. -/
theorem Step.proposes {d d' : Desk} {happening : Option Happening}
    (step : Desk.Step d happening d') (safe : d.Safe) {shadow : Shadow}
    (listed : shadow ∈ d.kernel.shadows)
    (vals : ∀ id ∈ shadow.rule.sources, d'.kernel.val? id = d.kernel.val? id)
    (proposes : d.kernel.Proposes shadow ∨ ∃ v, happening = some (.written shadow.target v)) :
    d'.kernel.Proposes shadow := by
  by_cases written : ∃ v, happening = some (.written shadow.target v)
  · obtain ⟨v, rfl⟩ := written
    cases step with
    | @written k q id value next fromRule proposed given =>
        obtain ⟨s, found, accepted, checked⟩ := Kernel.proposal_spec proposed
        obtain ⟨init, s', found', -, flagged, -⟩ := (safe.declared.wired shadow listed).target
        cases found.symm.trans found'
        -- Only the rule of the shadow writes to its target.
        obtain rfl : fromRule = true := by
          by_contra free
          rw [(checked (Bool.eq_false_iff.mpr free)).1] at flagged
          cases flagged
        obtain ⟨shadow', listed', same, evaluated⟩ := given rfl
        obtain rfl := List.inj_on_of_nodup_map safe.declared.distinct listed' listed same
        have fits := Kernel.fits_of_evaluate safe.declared safe.typed listed found evaluated accepted
        refine ⟨{ s with next := v }, ?_, fits.of_sources vals⟩
        have modified := k.signal?_modify shadow'.target (fun s => { s with next := v })
          shadow'.target
        rw [if_pos rfl, found] at modified
        exact modified
  · refine (proposes.resolve_right written).of_same vals ?_
    have turns := step.turns shadow.target
    generalize d.kernel.signal? shadow.target = signal, d'.kernel.signal? shadow.target = signal'
      at turns ⊢
    cases turns with
    | none => rfl
    | @some s s' turn =>
        refine congrArg some ?_
        cases turn with
        | kept other => rfl
        | rewired waits => rfl
        | written next => exact absurd ⟨next, rfl⟩ written
        | updated time => exact s.next_update
        | lost => exact s.next_update
        | arrived value stamp => exact s.next_applyDeferred value stamp

/-- Whoever writes to a shadow writes what fits its rule, and nobody else makes it misfit. -/
theorem Goes.proposes {d d' : Desk} {log : List Happening} (goes : Goes d log d') (safe : d.Safe)
    (writes : ∀ h ∈ log, h.write?.isSome) {shadow : Shadow} (listed : shadow ∈ d.kernel.shadows)
    (proposes : d.kernel.Proposes shadow ∨ ∃ v, .written shadow.target v ∈ log) :
    d'.kernel.Proposes shadow := by
  induction goes with
  | rest d =>
      exact proposes.resolve_right fun ⟨v, happens⟩ => absurd happens List.not_mem_nil
  | @step d d' d'' happening log first others ih =>
      obtain ⟨writes, later⟩ := List.forall_mem_append.mp writes
      have vals := first.val? fun h happens => writes h (Option.mem_toList.mpr happens)
      refine ih (first.safe safe) later (by rw [first.shadows]; exact listed) ?_
      simp only [List.mem_append, exists_or, ← or_assoc] at proposes
      refine proposes.imp_left fun here => first.proposes safe listed (fun id _ => vals id) ?_
      refine here.imp_right fun ⟨v, happens⟩ => ⟨v, ?_⟩
      exact Option.mem_toList.mp happens

end Desk

end DeltaCycle
