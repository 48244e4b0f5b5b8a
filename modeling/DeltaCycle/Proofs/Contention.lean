import DeltaCycle.Proofs.Items
import DeltaCycle.Proofs.ShadowsAtRest

/-!
# Contention

A shadow is checked where it is declared, on the initial values of its sources. Later values have
the same widths and ranges, so the rule gives a value and the target accepts it, whatever happened
meanwhile. Only a bus under the failing policy may be left without a value, and it is so exactly
where several drivers assert it.
-/

set_option autoImplicit false

namespace DeltaCycle

variable {σ ω : Type}

/-- Several drivers assert a bus under the failing policy, and this is the failure. -/
def Shadow.Contends (k : Kernel) (shadow : Shadow) (e : SimError) : Prop :=
  ∃ drivers, shadow.rule = .tristate drivers ∧ k.contention = .fail ∧
    2 ≤ (k.active drivers).length ∧
    e = .busContention (k.name shadow.target) k.now (k.active drivers).length

/-! ## Sources -/

namespace Kernel

variable {k : Kernel}

theorem StartsAt.known {id : SignalId} {v : Value} (starts : k.StartsAt id v) :
    (k.signal? id).isSome = true := by
  obtain ⟨s, found, -⟩ := starts
  rw [found]
  rfl

theorem val_of_found {id : SignalId} {s : Signal} (found : k.signal? id = some s) :
    k.val id = .ok s.val :=
  val_eq_ok.mpr ⟨s, found, rfl⟩

/-- A source that does not float at the start holds a value of the kind that it started with. -/
theorem StartsAt.held {id : SignalId} {v : Value} (starts : k.StartsAt id v) (solid : v ≠ .highZ)
    (declared : k.WellDeclared) (typed : k.Typed) :
    ∃ s, k.signal? id = some s ∧ s.val ≠ .highZ ∧ v.kind.Holds s.val := by
  obtain ⟨s, found, rfl⟩ := starts
  obtain ⟨holds, stays⟩ := (typed id s found).1
  have kind := (declared.proper id s found).kind.resolve_left solid
  rw [kind] at holds
  exact ⟨s, found, stays solid, holds.resolve_left (stays solid)⟩

/-- The parts of a concatenation have as many bits as they started with. -/
theorem parts_total (declared : k.WellDeclared) (typed : k.Typed) (genuine : k.Genuine)
    {parts : List ConcatPart} {inits : List Value} (sources : List.Forall₂ k.PartAt parts inits)
    (solid : ∀ v ∈ inits, v ≠ .highZ) :
    ∃ values, k.partValues parts = .ok values ∧
      List.Forall₂ (fun v v' : Value => ∀ b, v.toBits = .ok b →
        ∃ b', v'.toBits = .ok b' ∧ b'.width = b.width) inits values := by
  induction sources with
  | nil => exact ⟨[], rfl, .nil⟩
  | @cons part init parts inits first others ih =>
      obtain ⟨solidFirst, solidRest⟩ := List.forall_mem_cons.mp solid
      obtain ⟨values, rest, widths⟩ := ih solidRest
      have part : ∃ v, k.partValue part = .ok v ∧
          ∀ b, init.toBits = .ok b → ∃ b', v.toBits = .ok b' ∧ b'.width = b.width := by
        cases part with
        | literal v =>
            have same : v = init := first
            exact ⟨v, rfl, fun b converted => ⟨b, same ▸ converted, rfl⟩⟩
        | signal id =>
            obtain ⟨s, found, -, holds⟩ := StartsAt.held first solidFirst declared typed
            exact ⟨s.val, val_of_found found,
              fun b converted => Value.toBits_total converted holds (genuine id s found).1⟩
      obtain ⟨v, held, width⟩ := part
      refine ⟨v :: values, ?_, .cons width widths⟩
      simp only [partValues, held, rest, Except.map]

/-! ## What rules give -/

/-- The target of a shadow accepts a value. -/
def Accepts (k : Kernel) (id : SignalId) (v : Value) : Prop :=
  ∃ s w, k.signal? id = some s ∧ s.kind.coerce v = .ok w

theorem TargetAt.accepts {id : SignalId} {init v : Value} (target : k.TargetAt id init)
    (declared : k.WellDeclared) (driven : init ≠ .highZ) (holds : init.kind.Holds v) :
    k.Accepts id v := by
  have found := target
  obtain ⟨s, found, -⟩ := found
  rw [← target.kind declared found driven] at holds
  obtain ⟨w, accepted⟩ := Kind.coerce_total holds
  exact ⟨s, w, found, accepted⟩

theorem derive_of_held {parent : SignalId} {s : Signal} {f : Value → Except ValueError Value}
    {v : Value} (found : k.signal? parent = some s) (solid : s.val ≠ .highZ)
    (given : f s.val = .ok v) : Shadow.derive k parent f = .ok v := by
  unfold Shadow.derive
  rw [val_of_found found]
  cases held : s.val with
  | highZ => exact absurd held solid
  | _ =>
      rw [held] at given
      simp only [given]
      rfl

/-- A bus gets the value of a driver or floats, unless it is contended for. -/
theorem resolve_total (bus : SignalId) (drivers : List SignalId) :
    (Shadow.Contends k ⟨bus, .tristate drivers⟩
        (.busContention (k.name bus) k.now (k.active drivers).length) ∧
      (Shadow.resolve k bus drivers).2 =
        .error (.busContention (k.name bus) k.now (k.active drivers).length)) ∨
      (∀ e, ¬ Shadow.Contends k ⟨bus, .tristate drivers⟩ e) ∧
        ∃ v, (Shadow.resolve k bus drivers).2 = .ok v ∧
          (v = .highZ ∨ ∃ driver ∈ drivers, k.val? driver = some v) := by
  have calm (few : (k.active drivers).length < 2) (e : SimError) :
      ¬ Shadow.Contends k ⟨bus, .tristate drivers⟩ e := by
    intro contends
    obtain ⟨drivers', same, -, several, -⟩ := contends
    cases same
    omega
  unfold Shadow.resolve
  rw [asserted_eq]
  split
  · next none_ => exact .inr ⟨calm (by simp [none_]), _, rfl, .inl rfl⟩
  · next v sole =>
      have listed : v ∈ k.active drivers := by simp [sole]
      obtain ⟨driver, known, held⟩ := List.mem_filterMap.mp (List.mem_filter.mp listed).1
      exact .inr ⟨calm (by simp [sole]), v, rfl, .inr ⟨driver, known, held⟩⟩
  · next none_ many =>
      have several : 2 ≤ (k.active drivers).length := by
        match active : k.active drivers with
        | [] => exact absurd active none_
        | [v] => exact absurd active (many v)
        | _ :: _ :: _ => exact Nat.le_add_left 2 _
      cases policy : k.contention with
      | fail => exact .inl ⟨⟨drivers, rfl, policy, several, rfl⟩, rfl⟩
      | warn =>
          refine .inr ⟨fun e contends => ?_, _, rfl, .inl rfl⟩
          obtain ⟨drivers', same, fails, -⟩ := contends
          rw [policy] at fails
          cases fails

/-- A rule other than that of a bus gives a value that the target accepts. -/
theorem evaluate_accepted (declared : k.WellDeclared) (typed : k.Typed) (genuine : k.Genuine)
    {shadow : Shadow} (listed : shadow ∈ k.shadows)
    (derived : ¬ ∃ drivers, shadow.rule = .tristate drivers) :
    ∃ v, (shadow.evaluate k).2 = .ok v ∧ k.Accepts shadow.target v := by
  have bits (b : Bits) : Value.bits b ≠ .highZ := by
    intro same
    cases same
  have bool (b : Bool) : Value.bool b ≠ .highZ := by
    intro same
    cases same
  -- Each rule succeeded on the initial values. Later values have the same widths, which is all that
  -- slicing and joining depend on.
  cases declared.wired shadow listed with
  | @slice target parent hi lo b v source sliced init =>
      obtain ⟨s, found, solid, holds⟩ := source.held (bits b) declared typed
      cases held : s.val with
      | bits b' =>
          obtain ⟨v', sliced', fits⟩ := Bits.slice_total sliced b'
          have accepts := init.accepts declared (bits v) fits
          refine ⟨.bits v', derive_of_held found solid ?_, accepts⟩
          simp only [held, Value.slice, sliced', Except.map]
      | _ =>
          rw [held] at holds
          exact holds.elim
  | @bit target parent index b v source read init =>
      obtain ⟨s, found, solid, holds⟩ := source.held (bits b) declared typed
      cases held : s.val with
      | bits b' =>
          obtain ⟨v', read'⟩ := Bits.bit_total read b'
          have accepts := init.accepts (v := .bool v') declared (bool v) trivial
          refine ⟨.bool v', derive_of_held found solid ?_, accepts⟩
          simp only [held, Value.bit, read', Except.map]
      | _ =>
          rw [held] at holds
          exact holds.elim
  | @concat target parts inits v sources joined init =>
      unfold Value.concat at joined
      cases converted : Value.allToBits inits with
      | error cause => simp [converted] at joined
      | ok bs =>
          simp only [converted] at joined
          have solid := solid_of_allToBits converted
          obtain ⟨values, known, widths⟩ := parts_total declared typed genuine sources solid
          obtain ⟨bs', converted', same⟩ := Value.allToBits_total converted widths
          obtain ⟨v', joined', fits⟩ := Bits.concat_total same joined
          have driven : values.any Value.isHighZ = false := by
            refine List.any_eq_false.mpr fun w here floats => ?_
            refine typed.solid_parts sources solid known w here ?_
            cases w <;> first | rfl | cases floats
          refine ⟨.bits v', ?_, init.accepts declared (bits v) fits⟩
          simp only [Shadow.evaluate, Shadow.join, known, driven, Bool.false_eq_true, if_false,
            Value.concat, converted', joined', Except.map, Except.mapError]
  | tristate sources init => exact absurd ⟨_, rfl⟩ derived

/-- A rule gives a value that the target accepts, unless it is that of a bus that is contended for,
which then fails. -/
theorem evaluate_total (declared : k.WellDeclared) (typed : k.Typed) (genuine : k.Genuine)
    {shadow : Shadow} (listed : shadow ∈ k.shadows) :
    (∃ e, shadow.Contends k e ∧ (shadow.evaluate k).2 = .error e) ∨
      (∀ e, ¬ shadow.Contends k e) ∧
        ∃ v, (shadow.evaluate k).2 = .ok v ∧ k.Accepts shadow.target v := by
  by_cases bus : ∃ drivers, shadow.rule = .tristate drivers
  · obtain ⟨target, rule⟩ := shadow
    obtain ⟨drivers, rfl⟩ := bus
    cases declared.wired _ listed with
    | tristate sources init =>
        rcases k.resolve_total target drivers with ⟨contends, failed⟩ | ⟨calm, v, given, from_⟩
        · exact .inl ⟨_, contends, failed⟩
        · refine .inr ⟨calm, v, given, ?_⟩
          obtain ⟨bus, found, -⟩ := init
          -- A driver has the kind of its bus, so that the bus accepts what the driver holds.
          rcases from_ with rfl | ⟨driver, known, held⟩
          · exact ⟨bus, .highZ, found, rfl⟩
          · obtain ⟨bus', d, here, found', -, kinds⟩ := sources driver known
            cases found.symm.trans here
            obtain ⟨d', here', rfl⟩ := Option.map_eq_some_iff.mp held
            cases found'.symm.trans here'
            rcases (typed driver d found').1.1 with floats | holds
            · rw [floats]
              exact ⟨bus, .highZ, found, rfl⟩
            · rw [kinds] at holds
              obtain ⟨w, accepted⟩ := Kind.coerce_total holds
              exact ⟨bus, w, found, accepted⟩
  · refine .inr ⟨?_, evaluate_accepted declared typed genuine listed bus⟩
    intro e contends
    obtain ⟨drivers, rule, -⟩ := contends
    exact bus ⟨drivers, rule⟩

theorem write_of_accepts {id : SignalId} {v : Value} (accepts : k.Accepts id v) :
    (k.write id v true).2 = .ok () := by
  obtain ⟨s, w, found, accepted⟩ := accepts
  have proposed : k.proposal id v true = .ok w := by
    simp only [proposal, lookup, found, accepted, Bool.not_true, Bool.and_false, Bool.false_and,
      Bool.false_eq_true, if_false, Except.mapError]
  simp only [write, proposed]

end Kernel

/-- A shadow fails exactly where it is a bus that is contended for. -/
theorem Shadow.resume_eq_error {k : Kernel} (declared : k.WellDeclared) (typed : k.Typed)
    (genuine : k.Genuine) {shadow : Shadow} (listed : shadow ∈ k.shadows) (e : SimError) :
    (shadow.resume (σ := σ) k).2 = .error e ↔ shadow.Contends k e := by
  unfold resume
  cases waits : shadow.clause? (σ := σ) with
  | none =>
      -- A shadow that waits for nothing is not recomputed. If it is a bus, it has no drivers.
      refine ⟨nofun, fun contends => ?_⟩
      obtain ⟨drivers, rule, -, several, -⟩ := contends
      rw [clause?, rule] at waits
      cases drivers with
      | nil => cases several
      | cons driver rest => cases waits
  | some clause =>
      have evaluates := k.evaluate_total declared typed genuine listed
      have noted := evaluate_fst k shadow
      dsimp only
      generalize shadow.evaluate k = result at evaluates noted ⊢
      obtain ⟨k', e' | v⟩ := result
      · rcases evaluates with ⟨e'', contends, same⟩ | ⟨-, v, same, -⟩
        · cases same
          constructor
          · intro failed
            cases failed
            exact contends
          · intro contends'
            obtain ⟨drivers, rule, -, -, rfl⟩ := contends
            obtain ⟨drivers', rule', -, -, rfl⟩ := contends'
            cases rule.symm.trans rule'
            rfl
        · cases same
      · rcases evaluates with ⟨e', -, same⟩ | ⟨calm, v', same, accepts⟩
        · cases same
        · cases same
          have accepts' : k'.Accepts shadow.target v := by
            rcases noted with same | ⟨d, same⟩ <;> dsimp only at same <;> rw [same] <;> exact accepts
          have written := k'.write_of_accepts accepts'
          dsimp only
          generalize k'.write shadow.target v true = result at written ⊢
          obtain ⟨k'', e' | _⟩ := result
          · cases written
          · exact ⟨nofun, fun contends => absurd contends (calm e)⟩

/-! ## Turns -/

/-- Every concatenation follows a signal. -/
def Kernel.Followed (k : Kernel) : Prop :=
  ∀ shadow ∈ k.shadows, ∀ parts, shadow.rule = .concat parts → parts.any isSignalPart = true

namespace Kernel

variable {k : Kernel}

theorem Followed.declareShadow (followed : k.Followed) (s : Signal) {rule : ShadowRule}
    (new : ∀ parts, rule = .concat parts → parts.any isSignalPart = true) :
    (k.declareShadow s rule).2.Followed := by
  intro shadow listed parts same
  rcases List.mem_append.mp listed with old | last
  · exact followed shadow old parts same
  · rw [List.mem_singleton.mp last] at same
    exact new parts same

theorem Made.followed (made : k.Made) : k.Followed := by
  induction made with
  | empty => exact fun _ listed => absurd listed List.not_mem_nil
  | slice made declared ih =>
      obtain ⟨b, v, -, -, rfl⟩ := declareSlice_eq declared
      exact ih.declareShadow _ nofun
  | bit made declared ih =>
      obtain ⟨b, v, -, -, rfl⟩ := declareBit_eq declared
      exact ih.declareShadow _ nofun
  | concat made declared ih =>
      obtain ⟨follows, values, v, -, -, rfl⟩ := declareConcat_eq declared
      refine ih.declareShadow _ fun parts same => ?_
      cases same
      exact follows
  | tristate made name built ih => exact ih.declareShadow _ nofun
  | @driver k k' made bus name id declared ih =>
      obtain ⟨s, index, -, -, rfl⟩ := declareDriver_eq declared
      intro shadow listed parts same
      obtain ⟨place, here⟩ := List.mem_iff_getElem?.mp listed
      change (k.shadows.modify index (addDriver ⟨k.size⟩))[place]? = some shadow at here
      rw [List.getElem?_modify, Option.map_eq_map, Option.map_eq_some_iff] at here
      obtain ⟨old, was, new⟩ := here
      have unchanged : old.rule = .concat parts := by
        obtain ⟨target, rule⟩ := old
        subst new
        split at same
        · cases rule <;> first | exact same | cases same
        · exact same
      exact ih old (List.mem_of_getElem? was) parts unchanged
  | @configured k made config ih =>
      have shadows : (Simulation.configure k config).shadows = k.shadows := by
        unfold Simulation.configure
        dsimp only
        split <;> rfl
      intro shadow listed
      rw [shadows] at listed
      exact ih shadow listed
  | _ => assumption

/-- The signals among parts with values are known. -/
theorem known_of_parts {parts : List ConcatPart} {values : List Value}
    (sources : List.Forall₂ k.PartAt parts values) :
    ∀ id ∈ parts.filterMap ConcatPart.source?, (k.signal? id).isSome = true := by
  intro id listed
  obtain ⟨part, here, same⟩ := List.mem_filterMap.mp listed
  cases part with
  | literal v => cases same
  | signal id' =>
      cases same
      clear listed
      induction sources with
      | nil => cases here
      | cons first others ih =>
          rcases List.mem_cons.mp here with rfl | later
          · exact StartsAt.known first
          · exact ih later

/-- The sources of a shadow are known. -/
theorem Wired.known {shadow : Shadow} (wired : k.Wired shadow) :
    ∀ id ∈ shadow.rule.sources, (k.signal? id).isSome = true := by
  intro id listed
  cases wired with
  | slice source sliced init =>
      rw [List.mem_singleton.mp listed]
      exact source.known
  | bit source read init =>
      rw [List.mem_singleton.mp listed]
      exact source.known
  | concat sources joined init => exact known_of_parts sources id listed
  | tristate sources init =>
      obtain ⟨b, d, -, found, -⟩ := sources id listed
      rw [found]
      rfl

end Kernel

/-- A shadow waits for any of its sources to change. -/
theorem Shadow.clause?_spec {shadow : Shadow} {clause : Clause σ}
    (waits : shadow.clause? = some clause)
    (follows : ∀ parts, shadow.rule = .concat parts → parts.any Kernel.isSignalPart = true) :
    clause.alternatives = shadow.rule.sources.map fun id => .trigger (.event id) := by
  have events (id : SignalId) (rest : List SignalId) :
      (Clause.any (σ := σ) ((id :: rest).map .event)).alternatives =
        (id :: rest).map fun id => .trigger (.event id) := by
    change Clause.alternativesOfAll ((id :: rest).map .event) = _
    induction rest generalizing id with
    | nil => rfl
    | cons next rest ih => exact congrArg (.trigger (.event id) :: ·) (ih next)
  obtain ⟨target, rule⟩ := shadow
  cases rule with
  | slice parent hi lo =>
      cases waits
      rfl
  | bit parent index =>
      cases waits
      rfl
  | concat parts =>
      cases waits
      obtain ⟨part, listed, signal⟩ := List.any_eq_true.mp (follows parts rfl)
      cases part with
      | literal v => cases signal
      | signal id =>
          have listed : id ∈ parts.filterMap ConcatPart.source? :=
            List.mem_filterMap.mpr ⟨_, listed, rfl⟩
          change (Clause.any ((parts.filterMap ConcatPart.source?).map .event)).alternatives =
            (parts.filterMap ConcatPart.source?).map _
          cases sources : parts.filterMap ConcatPart.source? with
          | nil =>
              rw [sources] at listed
              cases listed
          | cons id rest => exact events id rest
  | tristate drivers =>
      cases drivers with
      | nil => cases waits
      | cons driver rest =>
          cases waits
          exact events driver rest

namespace Simulation

variable {B : Behaviours σ ω}

/-- A shadow can wait for its sources where these are known. -/
theorem subscribe_of_sources {shadow : Shadow} {clause : Clause σ}
    (waits : shadow.clause? = some clause)
    (follows : ∀ parts, shadow.rule = .concat parts → parts.any Kernel.isSignalPart = true)
    (s : Simulation σ ω) (me : Arming)
    (known : ∀ id ∈ shadow.rule.sources, (s.kernel.signal? id).isSome = true) :
    ∃ s', s.subscribe B me clause = (s', .ok ()) := by
  have known' : ∀ trigger ∈ shadow.rule.sources.map Trigger.event,
      (s.kernel.signal? trigger.signal).isSome = true := by
    intro trigger here
    obtain ⟨id, source, rfl⟩ := List.mem_map.mp here
    exact known id source
  obtain ⟨s', watched⟩ := watchAll_of_known me _ known'
  rw [watchAll_eq B, List.map_map] at watched
  rw [subscribe_eq, Shadow.clause?_spec waits follows]
  exact ⟨s', watched⟩

/-- The waiter of a shadow fails exactly where the shadow does. -/
theorem fails_of_runBody {s s' : Simulation σ ω} {me : Arming} {shadow : Shadow}
    {result : Except SimError Unit} (declared : s.kernel.WellDeclared) (followed : s.kernel.Followed)
    (listed : shadow ∈ s.kernel.shadows)
    (ran : runBody B s me (.shadow shadow) = some (s', result)) (e : SimError) :
    result = .error e ↔ (shadow.resume (σ := σ) s.kernel).2 = .error e := by
  rw [runBody] at ran
  cases resumed : shadow.resume (σ := σ) s.kernel with
  | mk kernel outcome =>
      simp only [resumed] at ran
      obtain e' | _ | clause := outcome
      · cases ran
        constructor
        · intro failed
          cases failed
          rfl
        · intro failed
          cases failed
          rfl
      · cases ran
        constructor
        · intro failed
          cases failed
        · intro failed
          cases failed
      · have succeeds : result ≠ .error e := by
          intro failed
          subst failed
          have goes := Shadow.goes_resume (σ := σ) s.queue listed
          rw [resumed] at goes
          have known : ∀ id ∈ shadow.rule.sources, (kernel.signal? id).isSome = true := by
            intro id source
            have known := (declared.wired shadow listed).known id source
            obtain ⟨signal, found⟩ := Option.isSome_iff_exists.mp known
            obtain ⟨signal', found', -⟩ := goes.extends id signal found
            exact Option.isSome_iff_exists.mpr ⟨signal', found'⟩
          have waits := (Shadow.writes_of_resume resumed).1
          obtain ⟨s₁, subscribed⟩ := subscribe_of_sources (B := B) waits (followed shadow listed)
            { s with kernel, waiters := s.waiters.restore me.slot (.shadow shadow) } me known
          unfold rearm at ran
          dsimp only at ran
          rw [subscribed] at ran
          cases ran
        constructor
        · intro failed
          exact absurd failed succeeds
        · intro failed
          cases failed

theorem Reached.followed {s : Simulation σ ω} (reached : Reached B s) : s.kernel.Followed := by
  obtain ⟨-, kernel, log, made, goes⟩ := reached.goes
  intro shadow listed
  rw [show s.kernel.shadows = kernel.shadows from goes.shadows] at listed
  exact made.followed shadow listed

/-- Shadows cannot fail, except on contention. Where processes and the engine propose items that
exist, in all that is reached and in all that waiters meet in the round that follows, a shadow that
is recomputed fails if and only if it is a bus under the failing policy that several drivers assert;
and a waiter that recomputes a shadow fails exactly where the shadow does. -/
theorem shadows_fail_by_contention_alone {s : Simulation σ ω} (reached : Reached B s)
    (behaves : B.Genuine) (bridge : ∀ b, s.equipment.bridge = some b → b.Genuine)
    {m : Simulation σ ω} (here : m = s ∨ Resumes B s.commitPending.1 m) :
    (∀ shadow ∈ m.kernel.shadows, ∀ e,
      (shadow.resume (σ := σ) m.kernel).2 = .error e ↔ shadow.Contends m.kernel e) ∧
    ∀ a ready me shadow stale m' result, m.ready.pop? = some (a, ready) →
      (m.waiters.consume a).1 = some (me, .shadow shadow, stale) →
      runWaiter B { m with ready } a = some (m', result) →
      ∀ e, result = .error e ↔ shadow.Contends m.kernel e := by
  have start := reached.genuine behaves bridge
  -- The invariants hold where the round begins, and every resume of the round keeps them.
  have safe : m.Genuine ∧ m.desk.Safe ∧ m.kernel.shadows = s.kernel.shadows := by
    rcases here with rfl | resumes
    · exact ⟨start, reached.safe, rfl⟩
    · have commits := s.does_commitPending
      obtain ⟨log, does⟩ := resumes.does (commits.staffed reached.staffed)
      have both := commits.trans does
      exact ⟨start.commitPending.resumes behaves resumes, both.goes.safe reached.safe, both.shadows⟩
  obtain ⟨genuine, safe, shadows⟩ := safe
  have fails : ∀ shadow ∈ m.kernel.shadows, ∀ e,
      (shadow.resume (σ := σ) m.kernel).2 = .error e ↔ shadow.Contends m.kernel e :=
    fun _ listed e =>
      Shadow.resume_eq_error safe.declared safe.typed genuine.desk.kernel listed e
  constructor
  · exact fails
  · intro a ready me shadow stale m' result _ claimed ran e
    have listed := (WaiterTable.Holds.consume genuine.staffed a).2 me _ stale claimed
    have followed : m.kernel.Followed := by
      intro shadow listed
      rw [shadows] at listed
      exact reached.followed shadow listed
    rw [← fails shadow listed e]
    rw [runWaiter] at ran
    dsimp only at ran
    generalize m.waiters.consume a = claim at ran claimed
    obtain ⟨_ | ⟨me', body, stale'⟩, waiters⟩ := claim
    · cases claimed
    · cases claimed
      exact fails_of_runBody (s := noteStale { m with ready, waiters, stats := _ } _) safe.declared
        followed listed ran e

/-- A bus with two drivers, on which contention is an error. -/
def junction : Kernel :=
  { (((((Kernel.declareTristate {} "bus" (.bool false)).2.declareDriver ⟨0⟩ "left").toOption.map
      Prod.snd).bind fun k => (k.declareDriver ⟨0⟩ "right").toOption.map Prod.snd).getD {}) with
    contention := .fail }

theorem made_junction : junction.Made := by
  have bus := Kernel.Made.empty.tristate "bus" (.bool false)
  have left := @Kernel.Made.driver _ _ bus ⟨0⟩ "left" _ rfl
  have right := @Kernel.Made.driver _ _ left ⟨0⟩ "right" _ rfl
  exact right.policed .fail

/-- Processes, each of which asserts the driver of its number. -/
def asserters : Behaviours Nat Unit where
  name _ := "asserter"
  resume driver := (Activity.setNext ⟨driver⟩ (.bool true)).bind fun _ => .done .done
  react := .done

/-- A simulation of two processes that assert both drivers. -/
def crossing : Simulation Nat Unit :=
  (({ kernel := junction, world := () } : Simulation Nat Unit).addShadows.addWaiter "asserter"
    (.process 1) none).addWaiter "asserter" (.process 2) none

/-- Whether a cycle is followed by another one in which two drivers assert the bus. -/
def contendsNext : Except Stuck (Simulation Nat Unit × Verdict) → Bool
  | .ok (s, .again) =>
      let k := s.commitPending.1.kernel
      k.shadows == [⟨⟨0⟩, .tristate [⟨1⟩, ⟨2⟩]⟩] && k.contention == .fail && k.name ⟨0⟩ == "bus" &&
        k.now == 0 && (k.active [⟨1⟩, ⟨2⟩]).length == 2
  | _ => false

/-- Where both drivers assert the bus, its shadow fails. -/
theorem both_drivers_contend :
    ∃ s, cycle asserters 9 crossing none = .ok (s, .again) ∧
      ∃ shadow ∈ s.commitPending.1.kernel.shadows,
        (shadow.resume (σ := Nat) s.commitPending.1.kernel).2 =
          .error (.busContention "bus" 0 2) := by
  have reached : Reached asserters crossing :=
    .built made_junction
      (show build asserters junction [.process 1, .process 2] () = .ok crossing from rfl)
  have behaves : asserters.Genuine := by
    constructor
    · intro driver
      refine ⟨trivial, fun reply _ => ?_⟩
      cases reply <;> trivial
    · exact fun _ => trivial
  have contends : contendsNext (cycle asserters 9 crossing none) = true := by decide +kernel
  rcases turned : cycle asserters 9 crossing none with stuck | ⟨s, _ | result⟩
  · rw [turned] at contends
    cases contends
  · rw [turned] at contends
    simp only [contendsNext, Bool.and_eq_true, beq_iff_eq] at contends
    obtain ⟨⟨⟨⟨shadows, fails⟩, name⟩, now⟩, several⟩ := contends
    have unbridged : ∀ b, s.equipment.bridge = some b → b.Genuine := by
      rw [equipment_cycle turned]
      nofun
    have listed : (⟨⟨0⟩, .tristate [⟨1⟩, ⟨2⟩]⟩ : Shadow) ∈ s.commitPending.1.kernel.shadows := by
      rw [shadows]
      exact List.mem_singleton_self _
    have safe := shadows_fail_by_contention_alone (reached.cycled turned) behaves unbridged
      (.inr .start)
    refine ⟨s, rfl, _, listed, (safe.1 _ listed _).mpr ⟨_, rfl, fails, ?_, ?_⟩⟩
    · rw [several]
    · rw [several, name, now]
  · rw [turned] at contends
    cases contends

end Simulation

end DeltaCycle
