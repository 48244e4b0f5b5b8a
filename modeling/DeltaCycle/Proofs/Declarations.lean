import DeltaCycle.Proofs.Beginnings

/-!
# Declarations

How kernels come about: signals are declared one by one, with values that are built by the
constructors of values, and a simulation that is ended hands its kernel back. In every such kernel
the signals are at their initial values, and each shadow fits the signals that it follows.
-/

set_option autoImplicit false

namespace DeltaCycle

/-! ## Built values -/

/-- A vector that some constructor gave. -/
inductive Bits.Built : Bits → Prop where
  | ofRange {val min max : Int} {b : Bits} (built : Bits.ofRange val min max = .ok b) : Built b
  | unsigned {val : Int} {width : Nat} {b : Bits} (built : Bits.unsigned val width = .ok b) :
      Built b
  | signed {val : Int} {width : Nat} {b : Bits} (built : Bits.signed val width = .ok b) : Built b
  | unbounded (val : Int) : Built (.unbounded val)
  | withVal {b b' : Bits} {val : Int} (from_ : b.Built) (built : b.withVal val = .ok b') : Built b'
  | withBit {b b' : Bits} {index : Nat} {bit : Bool} (from_ : b.Built)
      (built : b.withBit index bit = .ok b') : Built b'
  | withSlice {b b' : Bits} {hi lo : Nat} {content : Int} (from_ : b.Built)
      (built : b.withSlice hi lo content = .ok b') : Built b'
  | slice {b b' : Bits} {hi lo : Nat} (built : b.slice hi lo = .ok b') : Built b'
  | concat {parts : List Bits} {b : Bits} (built : Bits.concat parts = .ok b) : Built b

/-- A value that some constructor gave. -/
inductive Value.Built : Value → Prop where
  | bool (b : Bool) : Built (.bool b)
  | int (n : Int) : Built (.int n)
  | bits {b : Bits} (built : b.Built) : Built (.bits b)
  | item {name : String} {items : List String} {encoding : Encoding} {type : Enumeration}
      {index : Nat} {i : EnumItem} (declared : Enumeration.declare name items encoding = .ok type)
      (built : type.itemAt? index = some i) : Built (.enum i)
  | highZ : Built .highZ

namespace Bits

/-- The integer lies in the range, if there is one. -/
def InRange (b : Bits) : Prop :=
  ∀ min max, b.min = some min → b.max = some max → min ≤ b.val ∧ b.val < max

theorem checked_eq {b b' : Bits} (checks : b.checked = .ok b') : b' = b ∧ b.InRange := by
  unfold checked checkRange at checks
  cases lower : b.min with
  | none =>
      simp only [lower] at checks
      cases checks
      exact ⟨rfl, fun _ _ bounded => by cases lower.symm.trans bounded⟩
  | some min =>
      cases upper : b.max with
      | none =>
          simp only [lower, upper] at checks
          cases checks
          exact ⟨rfl, fun _ _ _ bounded => by cases upper.symm.trans bounded⟩
      | some max =>
          simp only [lower, upper] at checks
          by_cases outside : b.val < min ∨ max ≤ b.val
          · simp [outside] at checks
          · simp only [if_neg outside, Except.ok.injEq] at checks
            refine ⟨checks.symm, fun min' max' lower' upper' => ?_⟩
            cases lower.symm.trans lower'
            cases upper.symm.trans upper'
            omega

theorem withVal_eq {b b' : Bits} {v : Int} (kept : b.withVal v = .ok b') :
    b' = { b with val := v } ∧ b'.InRange := by
  obtain ⟨same, inRange⟩ := checked_eq kept
  rw [same]
  exact ⟨rfl, inRange⟩

theorem inRange_unsigned {val : Int} {width : Nat} {b : Bits}
    (built : Bits.unsigned val width = .ok b) : b.InRange := by
  unfold unsigned at built
  split at built
  · cases built
  · obtain ⟨rfl, inRange⟩ := checked_eq built
    exact inRange

theorem inRange_slice {b b' : Bits} {hi lo : Nat} (built : b.slice hi lo = .ok b') :
    b'.InRange := by
  unfold slice at built
  split at built
  · cases built
  · split at built
    · cases built
    · split at built
      · cases built
      · exact inRange_unsigned built

theorem inRange_concatFrom {acc : Int} {width : Nat} {parts : List Bits} {b : Bits}
    (built : concatFrom acc width parts = .ok b) : b.InRange := by
  induction parts generalizing acc width with
  | nil => exact inRange_unsigned built
  | cons part rest ih =>
      unfold concatFrom at built
      split at built
      · cases built
      · split at built
        · cases built
        · exact ih built

theorem Built.inRange {b : Bits} (built : b.Built) : b.InRange := by
  cases built with
  | @ofRange val min max b built =>
      unfold Bits.ofRange at built
      split at built
      · cases built
      · split at built
        · cases built
        · dsimp only at built
          split at built
          · cases built
          · generalize result : checked _ = outcome at built
            obtain cause | b' := outcome
            · cases built
            · cases built
              obtain ⟨rfl, inRange⟩ := checked_eq result
              exact inRange
  | unsigned built => exact inRange_unsigned built
  | signed built =>
      unfold Bits.signed at built
      split at built
      · cases built
      · obtain ⟨rfl, inRange⟩ := checked_eq built
        exact inRange
  | unbounded val => exact fun _ _ bounded => by cases bounded
  | withVal from_ built => exact (withVal_eq built).2
  | withBit from_ built =>
      unfold Bits.withBit at built
      split at built
      · cases built
      · exact (withVal_eq built).2
  | withSlice from_ built =>
      unfold Bits.withSlice at built
      split at built
      · cases built
      · split at built
        · cases built
        · split at built
          · cases built
          · exact (withVal_eq built).2
  | slice built => exact inRange_slice built
  | concat built => exact inRange_concatFrom built

end Bits

theorem Value.inRange_concat {parts : List Value} {b : Bits}
    (joined : Value.concat parts = .ok b) : b.InRange := by
  unfold Value.concat at joined
  split at joined
  · cases joined
  · exact Bits.inRange_concatFrom joined

/-! ## Made kernels -/

/-- A kernel that was made by declarations, possibly in several stages with simulations between
them: after a simulation, the kernel is handed back with all signals at their initial values and
with what was recorded. -/
inductive Kernel.Made : Kernel → Prop where
  | empty : Made {}
  | signal {k : Kernel} (made : Made k) (name : String) {init : Value} (built : init.Built)
      (delay : Option Nat) : Made (k.declare name init delay).2
  | slice {k k' : Kernel} (made : Made k) {name : String} {parent : SignalId} {hi lo : Nat}
      {id : SignalId} (declared : k.declareSlice name parent hi lo = .ok (id, k')) : Made k'
  | bit {k k' : Kernel} (made : Made k) {name : String} {parent : SignalId} {index : Nat}
      {id : SignalId} (declared : k.declareBit name parent index = .ok (id, k')) : Made k'
  | concat {k k' : Kernel} (made : Made k) {name : String} {parts : List ConcatPart}
      {id : SignalId} (declared : k.declareConcat name parts = .ok (id, k')) : Made k'
  | tristate {k : Kernel} (made : Made k) (name : String) {template : Value}
      (built : template.Built) : Made (k.declareTristate name template).2
  | driver {k k' : Kernel} (made : Made k) {bus : SignalId} {name : String} {id : SignalId}
      (declared : k.declareDriver bus name = .ok (id, k')) : Made k'
  /-- The policy and the marks that settings ask for. -/
  | configured {k : Kernel} (made : Made k) (config : Config) : Made (Simulation.configure k config)
  /-- The marks of one signal. -/
  | annotated {k : Kernel} (made : Made k) (id : SignalId) (traced : Bool) (driven : Option Drive)
      (read : Bool) : Made (k.modify id fun s => { s with traced, driven, read })
  | policed {k : Kernel} (made : Made k) (contention : ContentionPolicy) :
      Made { k with contention }
  | handedBack {k : Kernel} (made : Made k) (diagnostics : DiagnosticLog) :
      Made { k.reset with diagnostics }

namespace Signal

@[simp] theorem reset_ofKind (name : String) (init : Value) (kind : Kind) (delay : Option Nat) :
    (ofKind name init kind delay).reset = ofKind name init kind delay := by
  cases delay <;> rfl

end Signal

namespace Kernel

theorem signal?_register (k : Kernel) (s : Signal) (id : SignalId) :
    (k.register s).2.signal? id = if id.index = k.size then some s else k.signal? id :=
  Array.getElem?_push

theorem signal?_reset (k : Kernel) (id : SignalId) :
    k.reset.signal? id = (k.signal? id).map Signal.reset := by
  simp only [reset, signal?, Array.getElem?_map]

/-- A signal keeps its place when another one is added. -/
theorem signal?_register_of_found {k : Kernel} {id : SignalId} {signal : Signal}
    (found : k.signal? id = some signal) (s : Signal) :
    (k.register s).2.signal? id = some signal := by
  rw [signal?_register, if_neg]
  · exact found
  · have bound := (Array.getElem?_eq_some_iff.mp found).choose
    exact Nat.ne_of_lt bound

theorem lt_size_of_found {k : Kernel} {id : SignalId} {s : Signal}
    (found : k.signal? id = some s) : id.index < k.size :=
  (Array.getElem?_eq_some_iff.mp found).choose

end Kernel

/-! ## The design -/

/-- What is fixed by the declaration of a signal. -/
def Signal.design (s : Signal) : Signal :=
  { s.reset with traced := true, driven := none, read := false }

namespace Signal

variable {s s' : Signal} (same : s'.design = s.design)

include same

theorem init_of_design : s'.init = s.init := by
  have inits := congrArg init same
  exact inits

theorem kind_of_design : s'.kind = s.kind := by
  have kinds := congrArg kind same
  exact kinds

theorem shadow_of_design : s'.shadow = s.shadow := by
  have flags := congrArg shadow same
  exact flags

theorem inertia_of_design : s'.inertia = none ↔ s.inertia = none := by
  have inertias := congrArg inertia same
  change s'.inertia.map _ = s.inertia.map _ at inertias
  cases prompt : s.inertia <;> cases prompt' : s'.inertia <;> simp [prompt, prompt'] at inertias ⊢

theorem delay_of_design : s'.inertia.map Inertia.delay = s.inertia.map Inertia.delay := by
  have delays := congrArg (fun s : Signal => s.inertia.map Inertia.delay) same
  simp only [design, reset, Option.map_map] at delays
  exact delays

end Signal

namespace Kernel

/-- Every signal of the first kernel is one of the second, by the same design. -/
def Extends (k k' : Kernel) : Prop :=
  ∀ id s, k.signal? id = some s → ∃ s', k'.signal? id = some s' ∧ s'.design = s.design

theorem Extends.refl (k : Kernel) : k.Extends k := fun _ s found => ⟨s, found, rfl⟩

theorem Extends.trans {k k' k'' : Kernel} (first : k.Extends k') (second : k'.Extends k'') :
    k.Extends k'' := by
  intro id s found
  obtain ⟨s', found', same⟩ := first id s found
  obtain ⟨s'', found'', same'⟩ := second id s' found'
  exact ⟨s'', found'', same'.trans same⟩

theorem extends_register (k : Kernel) (s : Signal) : k.Extends (k.register s).2 :=
  fun _ s' found => ⟨s', signal?_register_of_found found s, rfl⟩

theorem extends_modify (k : Kernel) (id : SignalId) {f : Signal → Signal}
    (keeps : ∀ s, (f s).design = s.design) : k.Extends (k.modify id f) := by
  intro id' s found
  rw [signal?_modify, found]
  split
  · exact ⟨f s, rfl, keeps s⟩
  · exact ⟨s, rfl, rfl⟩

/-- A signal with its initial value. -/
def StartsAt (k : Kernel) (id : SignalId) (v : Value) : Prop :=
  ∃ s, k.signal? id = some s ∧ s.init = v

/-- The target of a shadow with its initial value: it is closed to writes, and has no delay. -/
def TargetAt (k : Kernel) (id : SignalId) (v : Value) : Prop :=
  ∃ s, k.signal? id = some s ∧ s.init = v ∧ s.shadow = true ∧ s.inertia = none

/-- A part of a concatenation with the value that it starts with. -/
def PartAt (k : Kernel) : ConcatPart → Value → Prop
  | .signal id, v => k.StartsAt id v
  | .literal w, v => w = v

/-- A driver of a bus floats at first, and has the kind of the bus. -/
def Drives (k : Kernel) (bus driver : SignalId) : Prop :=
  ∃ b d, k.signal? bus = some b ∧ k.signal? driver = some d ∧ d.init = .highZ ∧ d.kind = b.kind

/-- A shadow fits the signals that it follows: at the start it is what its rule says. -/
inductive Wired (k : Kernel) : Shadow → Prop where
  | slice {target parent : SignalId} {hi lo : Nat} {b v : Bits} (source : k.StartsAt parent (.bits b))
      (sliced : b.slice hi lo = .ok v) (init : k.TargetAt target (.bits v)) :
      Wired k ⟨target, .slice parent hi lo⟩
  | bit {target parent : SignalId} {index : Nat} {b : Bits} {v : Bool}
      (source : k.StartsAt parent (.bits b)) (read : b.bit index = .ok v)
      (init : k.TargetAt target (.bool v)) : Wired k ⟨target, .bit parent index⟩
  | concat {target : SignalId} {parts : List ConcatPart} {values : List Value} {v : Bits}
      (sources : List.Forall₂ k.PartAt parts values) (joined : Value.concat values = .ok v)
      (init : k.TargetAt target (.bits v)) : Wired k ⟨target, .concat parts⟩
  | tristate {target : SignalId} {drivers : List SignalId}
      (sources : ∀ driver ∈ drivers, k.Drives target driver) (init : k.TargetAt target .highZ) :
      Wired k ⟨target, .tristate drivers⟩

section Extending

variable {k k' : Kernel} (extends_ : k.Extends k')

include extends_

theorem StartsAt.extend {id : SignalId} {v : Value} (starts : k.StartsAt id v) :
    k'.StartsAt id v := by
  obtain ⟨s, found, rfl⟩ := starts
  obtain ⟨s', found', same⟩ := extends_ id s found
  exact ⟨s', found', Signal.init_of_design same⟩

theorem TargetAt.extend {id : SignalId} {v : Value} (target : k.TargetAt id v) :
    k'.TargetAt id v := by
  obtain ⟨s, found, rfl, flagged, prompt⟩ := target
  obtain ⟨s', found', same⟩ := extends_ id s found
  exact ⟨s', found', Signal.init_of_design same, (Signal.shadow_of_design same).trans flagged,
    (Signal.inertia_of_design same).mpr prompt⟩

theorem PartAt.extend {part : ConcatPart} {v : Value} (starts : k.PartAt part v) :
    k'.PartAt part v := by
  cases part with
  | signal id => exact StartsAt.extend extends_ starts
  | literal w => exact starts

theorem Drives.extend {bus driver : SignalId} (drives : k.Drives bus driver) :
    k'.Drives bus driver := by
  obtain ⟨b, d, found, found', floats, kinds⟩ := drives
  obtain ⟨b', here, same⟩ := extends_ bus b found
  obtain ⟨d', here', same'⟩ := extends_ driver d found'
  refine ⟨b', d', here, here', (Signal.init_of_design same').trans floats, ?_⟩
  rw [Signal.kind_of_design same', Signal.kind_of_design same, kinds]

theorem Wired.extend {shadow : Shadow} (wired : k.Wired shadow) : k'.Wired shadow := by
  cases wired with
  | slice source sliced init =>
      exact .slice (source.extend extends_) sliced (init.extend extends_)
  | bit source read init => exact .bit (source.extend extends_) read (init.extend extends_)
  | concat sources joined init =>
      exact .concat (sources.imp fun _ _ starts => starts.extend extends_) joined
        (init.extend extends_)
  | tristate sources init =>
      exact .tristate (fun driver listed => (sources driver listed).extend extends_)
        (init.extend extends_)

end Extending

end Kernel

/-- The kind of a signal is that of its initial value, unless it floats at the start. -/
structure Signal.Proper (s : Signal) : Prop where
  kind : s.init = .highZ ∨ s.kind = s.init.kind
  inRange : ∀ b, s.init = .bits b → b.InRange

theorem Signal.Proper.of_design {s s' : Signal} (proper : s.Proper) (same : s'.design = s.design) :
    s'.Proper := by
  have init := init_of_design same
  refine ⟨?_, ?_⟩
  · rw [init, kind_of_design same]
    exact proper.kind
  · rw [init]
    exact proper.inRange

theorem Signal.proper_ofInit (name : String) {init : Value}
    (inRange : ∀ b, init = .bits b → b.InRange) (delay : Option Nat) :
    (ofInit name init delay).Proper :=
  ⟨.inr rfl, inRange⟩

/-- A kernel is well declared if its signals are proper and every shadow fits; no two shadows have
the same target. -/
structure Kernel.WellDeclared (k : Kernel) : Prop where
  proper : ∀ id s, k.signal? id = some s → s.Proper
  wired : ∀ shadow ∈ k.shadows, k.Wired shadow
  distinct : (k.shadows.map Shadow.target).Nodup

namespace Kernel

theorem Wired.target {k : Kernel} {shadow : Shadow} (wired : k.Wired shadow) :
    ∃ v, k.TargetAt shadow.target v := by
  cases wired with
  | slice _ _ init => exact ⟨_, init⟩
  | bit _ _ init => exact ⟨_, init⟩
  | concat _ _ init => exact ⟨_, init⟩
  | tristate _ init => exact ⟨_, init⟩

/-- Kernels of one design are well declared together. -/
theorem WellDeclared.of_extends {k k' : Kernel} (declared : k.WellDeclared)
    (extends_ : k.Extends k') (back : k'.Extends k) (shadows : k'.shadows = k.shadows) :
    k'.WellDeclared where
  proper := fun id s' found => by
    obtain ⟨s, found', same⟩ := back id s' found
    exact (declared.proper id s found').of_design same.symm
  wired := by
    rw [shadows]
    exact fun shadow listed => (declared.wired shadow listed).extend extends_
  distinct := by
    rw [shadows]
    exact declared.distinct

theorem WellDeclared.modify {k : Kernel} (declared : k.WellDeclared) (id : SignalId)
    {f : Signal → Signal} (keeps : ∀ s, (f s).design = s.design) :
    (k.modify id f).WellDeclared := by
  refine declared.of_extends (k.extends_modify id keeps) (fun id' s' found => ?_) rfl
  rw [signal?_modify] at found
  split at found
  · obtain ⟨s, was, rfl⟩ := Option.map_eq_some_iff.mp found
    exact ⟨s, was, (keeps s).symm⟩
  · exact ⟨s', found, rfl⟩

theorem WellDeclared.register {k : Kernel} (declared : k.WellDeclared) {s : Signal}
    (proper : s.Proper) : (k.register s).2.WellDeclared where
  proper := fun id s' found => by
    rw [signal?_register] at found
    split at found
    · cases found
      exact proper
    · exact declared.proper id s' found
  wired := fun shadow listed => (declared.wired shadow listed).extend (k.extends_register s)
  distinct := declared.distinct

theorem extends_declareShadow (k : Kernel) (s : Signal) (rule : ShadowRule) :
    k.Extends (k.declareShadow s rule).2 :=
  k.extends_register { s with shadow := true }

theorem WellDeclared.declareShadow {k : Kernel} (declared : k.WellDeclared) {s : Signal}
    {rule : ShadowRule} (proper : s.Proper)
    (wired : (k.declareShadow s rule).2.Wired ⟨⟨k.size⟩, rule⟩) :
    (k.declareShadow s rule).2.WellDeclared where
  proper := (declared.register (s := { s with shadow := true }) ⟨proper.kind, proper.inRange⟩).proper
  wired := fun shadow listed => by
    rcases List.mem_append.mp listed with listed | listed
    · exact (declared.wired shadow listed).extend (k.extends_declareShadow s rule)
    · rw [List.mem_singleton.mp listed]
      exact wired
  distinct := by
    change ((k.shadows ++ [(⟨⟨k.size⟩, rule⟩ : Shadow)]).map Shadow.target).Nodup
    rw [List.map_append, List.nodup_append]
    refine ⟨declared.distinct, List.nodup_singleton _, fun id listed id' listed' same => ?_⟩
    obtain ⟨shadow, known, rfl⟩ := List.mem_map.mp listed
    obtain ⟨v, s', found, -⟩ := (declared.wired shadow known).target
    have bound := lt_size_of_found found
    rw [same, List.mem_singleton.mp listed'] at bound
    exact Nat.lt_irrefl _ bound

/-- A declared shadow is a signal at the end that is closed to writes. -/
theorem targetAt_declareShadow (k : Kernel) (s : Signal) (rule : ShadowRule)
    (prompt : s.inertia = none) : (k.declareShadow s rule).2.TargetAt ⟨k.size⟩ s.init :=
  ⟨{ s with shadow := true }, (k.signal?_register _ _).trans (if_pos rfl), rfl, rfl, prompt⟩

/-! ## At the start -/

/-- All signals are at their initial values, nobody waits, and nothing is under way. -/
structure AtStart (k : Kernel) : Prop where
  signals : k.signals.map Signal.reset = k.signals
  pending : k.pending = []
  now : k.now = 0
  stopRequest : k.stopRequest = none

theorem AtStart.signal {k : Kernel} (atStart : k.AtStart) {id : SignalId} {s : Signal}
    (found : k.signal? id = some s) : s.reset = s := by
  have same : (k.signals.map Signal.reset)[id.index]? = k.signals[id.index]? := by
    rw [atStart.signals]
  rw [Array.getElem?_map, show k.signals[id.index]? = some s from found] at same
  exact Option.some.inj same

theorem AtStart.val {k : Kernel} (atStart : k.AtStart) {id : SignalId} {s : Signal}
    (found : k.signal? id = some s) : s.val = s.init := by
  rw [← atStart.signal found]
  rfl

theorem AtStart.register {k : Kernel} {s : Signal} (atStart : k.AtStart) (fresh : s.reset = s) :
    (k.register s).2.AtStart := by
  refine ⟨?_, atStart.pending, atStart.now, atStart.stopRequest⟩
  simp only [Kernel.register, Array.map_push, atStart.signals, fresh]

theorem AtStart.modify {k : Kernel} (atStart : k.AtStart) (id : SignalId) {f : Signal → Signal}
    (keeps : ∀ s, s.reset = s → (f s).reset = f s) : (k.modify id f).AtStart := by
  refine ⟨?_, atStart.pending, atStart.now, atStart.stopRequest⟩
  have signals := atStart.signals
  simp only [Array.ext_iff, Array.size_map, Array.getElem_map, true_and] at signals
  simp only [Kernel.modify, Array.ext_iff, Array.size_map, Array.size_modify, Array.getElem_map,
    Array.getElem_modify, true_and]
  intro i bound _
  split
  · exact keeps _ (signals i bound bound)
  · exact signals i bound bound

theorem AtStart.idle {k : Kernel} (atStart : k.AtStart) : k.Idle := by
  intro id s found
  rw [← atStart.signal found]
  rfl

theorem val_eq_ok {k : Kernel} {id : SignalId} {v : Value} :
    k.val id = .ok v ↔ ∃ s, k.signal? id = some s ∧ s.val = v := by
  unfold Kernel.val lookup
  cases k.signal? id with
  | none => exact ⟨fun h => (nomatch h), fun ⟨_, found, _⟩ => nomatch found⟩
  | some s => simp [Except.map]

theorem parentBits_eq {k : Kernel} {parent : SignalId} {b : Bits}
    (held : k.parentBits parent = .ok b) : ∃ s, k.signal? parent = some s ∧ s.val = .bits b := by
  unfold parentBits lookup at held
  cases found : k.signal? parent with
  | none => simp [found] at held
  | some s =>
      simp only [found] at held
      split at held
      · next b' holds =>
          split at held
          · cases held
          · cases held
            exact ⟨s, rfl, holds⟩
      · cases held

theorem AtStart.startsAt {k : Kernel} (atStart : k.AtStart) {id : SignalId} {s : Signal}
    (found : k.signal? id = some s) : k.StartsAt id s.val :=
  ⟨s, found, (atStart.val found).symm⟩

theorem AtStart.parts {k : Kernel} (atStart : k.AtStart) {parts : List ConcatPart}
    {values : List Value} (known : k.partValues parts = .ok values) :
    List.Forall₂ k.PartAt parts values := by
  induction parts generalizing values with
  | nil =>
      cases known
      exact .nil
  | cons part rest ih =>
      rw [partValues] at known
      cases first : k.partValue part with
      | error e => simp [first] at known
      | ok v =>
          simp only [first] at known
          cases others : k.partValues rest with
          | error e =>
              rw [others] at known
              cases known
          | ok vs =>
              rw [others] at known
              cases known
              refine .cons ?_ (ih others)
              cases part with
              | literal w =>
                  cases first
                  rfl
              | signal id =>
                  obtain ⟨s, found, rfl⟩ := val_eq_ok.mp first
                  exact atStart.startsAt found

theorem signal?_marked (k : Kernel) (mark : Signal → Bool) (id : SignalId) :
    ({ k with signals := k.signals.map fun s => { s with traced := mark s } } : Kernel).signal? id =
      (k.signal? id).map fun s => { s with traced := mark s } := by
  simp only [signal?, Array.getElem?_map]

/-! ## What a declaration adds -/

section Declared

variable {k k' : Kernel} {name : String} {id : SignalId}

theorem declareSlice_eq {parent : SignalId} {hi lo : Nat}
    (declared : k.declareSlice name parent hi lo = .ok (id, k')) :
    ∃ b v, k.parentBits parent = .ok b ∧ b.slice hi lo = .ok v ∧
      k' = (k.declareShadow (.ofInit name (.bits v) none) (.slice parent hi lo)).2 := by
  unfold declareSlice at declared
  cases held : k.parentBits parent with
  | error e => simp [held] at declared
  | ok b =>
      simp only [held] at declared
      split at declared
      · cases declared
      · cases sliced : b.slice hi lo with
        | error cause => simp [sliced] at declared
        | ok v =>
            simp only [sliced] at declared
            cases declared
            exact ⟨b, v, rfl, sliced, rfl⟩

theorem declareBit_eq {parent : SignalId} {index : Nat}
    (declared : k.declareBit name parent index = .ok (id, k')) :
    ∃ b v, k.parentBits parent = .ok b ∧ b.bit index = .ok v ∧
      k' = (k.declareShadow (.ofInit name (.bool v) none) (.bit parent index)).2 := by
  unfold declareBit at declared
  cases held : k.parentBits parent with
  | error e => simp [held] at declared
  | ok b =>
      simp only [held] at declared
      split at declared
      · cases declared
      · cases read : b.bit index with
        | error cause => simp [read] at declared
        | ok v =>
            simp only [read] at declared
            cases declared
            exact ⟨b, v, rfl, read, rfl⟩

theorem declareConcat_eq {parts : List ConcatPart}
    (declared : k.declareConcat name parts = .ok (id, k')) :
    parts.any isSignalPart = true ∧
      ∃ values v, k.partValues parts = .ok values ∧ Value.concat values = .ok v ∧
        k' = (k.declareShadow (.ofInit name (.bits v) none) (.concat parts)).2 := by
  unfold declareConcat at declared
  split at declared
  · next follows =>
      refine ⟨follows, ?_⟩
      cases known : k.partValues parts with
      | error e => simp [known] at declared
      | ok values =>
          simp only [known] at declared
          cases joined : Value.concat values with
          | error cause => simp [joined] at declared
          | ok v =>
              simp only [joined] at declared
              cases declared
              exact ⟨values, v, rfl, joined, rfl⟩
  · cases declared

theorem declareDriver_eq {bus : SignalId} (declared : k.declareDriver bus name = .ok (id, k')) :
    ∃ s index, k.signal? bus = some s ∧ k.shadows.findIdx? (isBus bus) = some index ∧
      k' = { (k.register (.ofKind name .highZ s.kind none)).2 with
        shadows := k.shadows.modify index (addDriver ⟨k.size⟩) } := by
  unfold declareDriver lookup at declared
  cases found : k.signal? bus with
  | none => simp [found] at declared
  | some s =>
      simp only [found] at declared
      cases located : k.shadows.findIdx? (isBus bus) with
      | none => simp [located] at declared
      | some index =>
          simp only [located] at declared
          cases declared
          exact ⟨s, index, rfl, rfl, rfl⟩

end Declared

/-! ## Made kernels are well declared -/

/-- What is known of a made kernel. -/
structure Sound (k : Kernel) : Prop where
  atStart : k.AtStart
  declared : k.WellDeclared

theorem Sound.declareShadow {k : Kernel} (sound : k.Sound) {name : String} {init : Value}
    {kind : Kind} {rule : ShadowRule} (proper : (Signal.ofKind name init kind none).Proper)
    (wired : (k.declareShadow (.ofKind name init kind none) rule).2.Wired ⟨⟨k.size⟩, rule⟩) :
    (k.declareShadow (.ofKind name init kind none) rule).2.Sound := by
  have registered := sound.atStart.register
    (s := { Signal.ofKind name init kind none with shadow := true }) rfl
  exact ⟨⟨registered.signals, registered.pending, registered.now, registered.stopRequest⟩,
    sound.declared.declareShadow proper wired⟩

/-- What a shadow starts with is read off where it is declared. -/
theorem Sound.declareFrom {k : Kernel} (sound : k.Sound) {name : String} {init : Value}
    {rule : ShadowRule} (inRange : ∀ b, init = .bits b → b.InRange)
    (wired : ∀ k', k.Extends k' → k'.TargetAt ⟨k.size⟩ init → k'.Wired ⟨⟨k.size⟩, rule⟩) :
    (k.declareShadow (.ofInit name init none) rule).2.Sound :=
  sound.declareShadow (Signal.proper_ofInit name inRange none)
    (wired _ (k.extends_declareShadow _ _) (k.targetAt_declareShadow _ _ rfl))

theorem Sound.of_signals {k k' : Kernel} (sound : k.Sound) (signals : k'.signals = k.signals)
    (shadows : k'.shadows = k.shadows) (pending : k'.pending = []) (now : k'.now = 0)
    (stopRequest : k'.stopRequest = none) : k'.Sound := by
  have found (id : SignalId) : k'.signal? id = k.signal? id := by
    rw [signal?, signals, signal?]
  refine ⟨⟨?_, pending, now, stopRequest⟩, sound.declared.of_extends ?_ ?_ shadows⟩
  · rw [signals, sound.atStart.signals]
  · exact fun id s here => ⟨s, (found id).trans here, rfl⟩
  · exact fun id s here => ⟨s, (found id).symm.trans here, rfl⟩

theorem isBus_eq {bus : SignalId} {shadow : Shadow} (is : isBus bus shadow = true) :
    ∃ drivers, shadow = ⟨bus, .tristate drivers⟩ := by
  obtain ⟨target, rule⟩ := shadow
  cases rule with
  | tristate drivers =>
      have same : target = bus := beq_iff_eq.mp is
      exact ⟨drivers, by rw [same]⟩
  | _ => cases is

theorem target_addDriver (driver : SignalId) (shadow : Shadow) :
    (addDriver driver shadow).target = shadow.target := by
  unfold addDriver
  split <;> rfl

/-- A driver floats at first, and is a new source of its bus. -/
theorem Sound.declareDriver {k k' : Kernel} {bus id : SignalId} {name : String} (sound : k.Sound)
    (declared : k.declareDriver bus name = .ok (id, k')) : k'.Sound := by
  obtain ⟨b, index, found, located, rfl⟩ := declareDriver_eq declared
  obtain ⟨bound, is, -⟩ := List.findIdx?_eq_some_iff_getElem.mp located
  obtain ⟨drivers, shadow⟩ := isBus_eq is
  have registered := sound.atStart.register (s := .ofKind name .highZ b.kind none) rfl
  have extends_ := k.extends_register (.ofKind name .highZ b.kind none)
  have old := sound.declared.register (s := .ofKind name .highZ b.kind none)
    ⟨.inl rfl, fun b same => by cases same⟩
  refine ⟨⟨registered.signals, registered.pending, registered.now, registered.stopRequest⟩,
    old.proper, fun sh listed => ?_, ?_⟩
  · obtain ⟨place, here⟩ := List.mem_iff_getElem?.mp listed
    change (k.shadows.modify index (addDriver ⟨k.size⟩))[place]? = some sh at here
    rw [List.getElem?_modify, Option.map_eq_map, Option.map_eq_some_iff] at here
    obtain ⟨sh', was, same⟩ := here
    have wired := sound.declared.wired sh' (List.mem_of_getElem? was)
    split at same
    · next here =>
        subst here
        rw [List.getElem?_eq_getElem bound, shadow, Option.some.injEq] at was
        subst was
        cases same
        cases wired with
        | tristate sources init =>
            refine .tristate (fun driver listed => ?_) (init.extend extends_)
            rcases List.mem_append.mp listed with listed | listed
            · exact (sources driver listed).extend extends_
            · rw [List.mem_singleton.mp listed]
              exact ⟨b, _, signal?_register_of_found found _,
                (k.signal?_register _ _).trans (if_pos rfl), rfl, rfl⟩
    · rw [← same]
      refine Wired.extend (k := k) ?_ wired
      exact extends_
  · have targets : (k.shadows.modify index (addDriver ⟨k.size⟩)).map Shadow.target =
        k.shadows.map Shadow.target := by
      refine List.ext_getElem? fun place => ?_
      rw [List.getElem?_map, List.getElem?_modify, List.getElem?_map, Option.map_eq_map,
        Option.map_map]
      refine congrArg (Option.map · _) (funext fun sh => ?_)
      dsimp only [Function.comp_apply]
      split
      · exact target_addDriver _ sh
      · rfl
    exact targets.symm ▸ sound.declared.distinct

theorem Sound.configure {k : Kernel} (sound : k.Sound) (config : Config) :
    (Simulation.configure k config).Sound := by
  have policed : ({ k with contention := config.contention } : Kernel).Sound :=
    sound.of_signals rfl rfl sound.atStart.pending sound.atStart.now sound.atStart.stopRequest
  unfold Simulation.configure
  dsimp only
  split
  · refine ⟨⟨?_, sound.atStart.pending, sound.atStart.now, sound.atStart.stopRequest⟩,
      sound.declared.of_extends (fun id s found => ?_) (fun id s' found => ?_) rfl⟩
    · have marked := congrArg
        (Array.map fun s : Signal => { s with traced := config.trace.includes s.name })
        sound.atStart.signals
      rw [Array.map_map] at marked ⊢
      exact marked
    · exact ⟨_, (signal?_marked k (fun s => config.trace.includes s.name) id).trans
        (congrArg (Option.map _) found), rfl⟩
    · have here := (signal?_marked k (fun s => config.trace.includes s.name) id).symm.trans found
      obtain ⟨s, was, rfl⟩ := Option.map_eq_some_iff.mp here
      exact ⟨s, was, rfl⟩
  · exact policed

theorem Sound.slice {k k' : Kernel} (sound : k.Sound) {name : String} {parent : SignalId}
    {hi lo : Nat} {id : SignalId} (declared : k.declareSlice name parent hi lo = .ok (id, k')) :
    k'.Sound := by
  obtain ⟨b, init, held, sliced, rfl⟩ := declareSlice_eq declared
  obtain ⟨s, found, holds⟩ := parentBits_eq held
  have starts := sound.atStart.startsAt found
  rw [holds] at starts
  refine sound.declareFrom (fun b' same => ?_) fun k' extends_ target =>
    .slice (starts.extend extends_) sliced target
  cases same
  exact Bits.inRange_slice sliced

theorem Sound.bit {k k' : Kernel} (sound : k.Sound) {name : String} {parent : SignalId}
    {index : Nat} {id : SignalId} (declared : k.declareBit name parent index = .ok (id, k')) :
    k'.Sound := by
  obtain ⟨b, init, held, read, rfl⟩ := declareBit_eq declared
  obtain ⟨s, found, holds⟩ := parentBits_eq held
  have starts := sound.atStart.startsAt found
  rw [holds] at starts
  exact sound.declareFrom (fun b' same => by cases same) fun k' extends_ target =>
    .bit (starts.extend extends_) read target

theorem Sound.concat {k k' : Kernel} (sound : k.Sound) {name : String} {parts : List ConcatPart}
    {id : SignalId} (declared : k.declareConcat name parts = .ok (id, k')) : k'.Sound := by
  obtain ⟨-, values, init, known, joined, rfl⟩ := declareConcat_eq declared
  have starts := sound.atStart.parts known
  refine sound.declareFrom (fun b' same => ?_) fun k' extends_ target =>
    .concat (starts.imp fun _ _ starts => starts.extend extends_) joined target
  cases same
  exact Value.inRange_concat joined

theorem Made.sound {k : Kernel} (made : k.Made) : k.Sound := by
  induction made with
  | empty =>
      refine ⟨⟨Array.map_empty, rfl, rfl, rfl⟩, fun id s found => ?_,
        fun shadow listed => absurd listed List.not_mem_nil, List.nodup_nil⟩
      simp [signal?] at found
  | @signal k made name init built delay ih =>
      refine ⟨ih.atStart.register (Signal.reset_ofKind ..), ih.declared.register ?_⟩
      refine Signal.proper_ofInit name (fun b same => ?_) delay
      cases built with
      | bits built =>
          cases same
          exact built.inRange
      | _ => cases same
  | slice made declared ih => exact ih.slice declared
  | bit made declared ih => exact ih.bit declared
  | concat made declared ih => exact ih.concat declared
  | @tristate k made name template built ih =>
      refine ih.declareShadow ⟨.inl rfl, fun b same => by cases same⟩ ?_
      exact .tristate (fun driver listed => absurd listed List.not_mem_nil)
        (k.targetAt_declareShadow _ _ rfl)
  | driver made declared ih => exact ih.declareDriver declared
  | configured made config ih => exact ih.configure config
  | @annotated k made id traced driven read ih =>
      refine ⟨ih.atStart.modify id fun s fresh => ?_, ih.declared.modify id fun s => rfl⟩
      have kept := congrArg (fun s : Signal => { s with traced, driven, read }) fresh
      exact kept
  | policed made contention ih =>
      exact ih.of_signals rfl rfl ih.atStart.pending ih.atStart.now ih.atStart.stopRequest
  | handedBack made diagnostics ih => exact ih.of_signals ih.atStart.signals rfl rfl rfl rfl

end Kernel

end DeltaCycle
