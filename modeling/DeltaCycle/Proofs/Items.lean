import DeltaCycle.Proofs.Equipment
import DeltaCycle.Proofs.Rules
import DeltaCycle.Proofs.Widths

/-!
# Items that exist

A written value may name an item that its enumeration lacks, see the form of written values. The
constructors of values never give one. Where processes and the engine propose items that exist, as
long as those they read exist, all signals hold such items in all that is reached.
-/

set_option autoImplicit false

namespace DeltaCycle

variable {σ ω α : Type}

/-! ## Who proposes what -/

/-- A request proposes nothing but items that exist. -/
def Request.Genuine : Request ω → Prop
  | .setNext _ proposed => proposed.Existing
  | _ => True

/-- A reply shows nothing but items that exist. -/
def Request.Shows : (request : Request ω) → request.Reply → Prop
  | .value _, reply => ∀ v, reply = .ok v → v.Existing
  | .next _, proposed => Value.Existing proposed
  | _, _ => True

/-- An activity proposes items that exist as long as it is shown such items. -/
def Activity.Genuine : Activity ω α → Prop
  | .ask request go => request.Genuine ∧ ∀ reply, request.Shows reply → (go reply).Genuine
  | .later go => (go ()).Genuine
  | _ => True

/-- All processes and always blocks propose items that exist. -/
structure Behaviours.Genuine (B : Behaviours σ ω) : Prop where
  resume : ∀ state, (B.resume state).Genuine
  react : ∀ state, (B.react state).Genuine

/-- The engine drives signals with items that exist. -/
def Bridge.Genuine (b : Bridge ω) : Prop :=
  ∀ now w w' values, b.receive now w = (w', .ok values) → ∀ value ∈ values, value.2.Existing

/-- All signals hold and propose items that exist. -/
def Kernel.Genuine (k : Kernel) : Prop :=
  ∀ id s, k.signal? id = some s → s.val.Existing ∧ s.next.Existing

/-- The signals are genuine, and so is what the queue holds for them. -/
structure Desk.Genuine (d : Desk) : Prop where
  kernel : d.kernel.Genuine
  due : ∀ e ∈ d.queue.toList, ∀ id value stamp, e.payload = .apply id value stamp → value.Existing

/-! ## Steps -/

namespace Desk

theorem Step.genuine {d d' : Desk} {happening : Option Happening} (step : Desk.Step d happening d')
    (written : ∀ h ∈ happening, ∀ write, h.write? = some write → write.2.Existing)
    (genuine : d.Genuine) : d'.Genuine := by
  constructor
  · intro id s' found
    have turns := step.turns id
    rw [found] at turns
    generalize here : d.kernel.signal? id = signal at turns
    cases turns with
    | @some s _ turn =>
        obtain ⟨val, next⟩ := genuine.kernel id s here
        refine turn.admits val next (fun v same => ?_) (fun v stamp same => ?_)
        · exact written _ same _ rfl
        · subst same
          cases step with
          | arrived k popped =>
              obtain ⟨first, -, payload, -, perm⟩ := EventQueue.toList_popDue popped
              exact genuine.due first (perm.mem_iff.mpr (List.mem_cons_self ..)) id v stamp payload
  · intro e listed id value stamp applies
    rcases step.due listed applies with listed | ⟨s, i, found, -, rfl, -⟩
    · exact genuine.due e listed id value stamp applies
    · exact (genuine.kernel id s found).2

theorem Goes.genuine {d d' : Desk} {log : List Happening} (goes : Goes d log d')
    (written : ∀ write ∈ log.filterMap Happening.write?, write.2.Existing) (genuine : d.Genuine) :
    d'.Genuine := by
  have allowed : ∀ h ∈ log, ∀ write, h.write? = some write → write.2.Existing := by
    intro h listed write writes
    exact written write (List.mem_filterMap.mpr ⟨h, listed, writes⟩)
  exact goes.keeps_of_log (fun step written genuine => step.genuine written genuine) allowed genuine

/-- A course that writes these values. -/
theorem Goes.genuine_of_writes {d d' : Desk} {writes : List (SignalId × Value)}
    (goes : Goes d (logOfWrites writes) d') (written : ∀ write ∈ writes, write.2.Existing)
    (genuine : d.Genuine) : d'.Genuine := by
  refine goes.genuine ?_ genuine
  rw [write?_logOfWrites]
  exact written

/-- A course that writes nothing. -/
theorem Goes.genuine_of_silence {d d' : Desk} {log : List Happening} (goes : Goes d log d')
    (silent : log.filterMap Happening.write? = []) (genuine : d.Genuine) : d'.Genuine := by
  refine goes.genuine ?_ genuine
  rw [silent]
  exact fun _ listed => absurd listed List.not_mem_nil

end Desk

/-! ## What is written -/

/-- An item is accepted as it is, and nothing else becomes one. -/
theorem Kind.eq_of_coerce_item {kind : Kind} {v : Value} {item : EnumItem}
    (accepted : kind.coerce v = .ok (.enum item)) : v = .enum item := by
  by_cases floats : v = .highZ
  · subst floats
    cases accepted
  · cases accepts_of_coerce floats accepted <;> rfl

theorem Kind.existing_of_coerce {kind : Kind} {v w : Value} (accepted : kind.coerce v = .ok w)
    (existing : v.Existing) : w.Existing := by
  cases w with
  | enum item =>
      rw [Kind.eq_of_coerce_item accepted] at existing
      exact existing
  | _ => trivial

namespace Kernel

variable {k : Kernel}

theorem existing_writes (id : SignalId) {value : Value} (fromRule : Bool)
    (existing : value.Existing) : ∀ write ∈ k.writes id value fromRule, write.2.Existing := by
  unfold writes
  cases proposed : k.proposal id value fromRule with
  | error e => exact fun _ listed => absurd listed List.not_mem_nil
  | ok next =>
      obtain ⟨s, -, accepted, -⟩ := proposal_spec proposed
      intro write listed
      rw [List.mem_singleton.mp listed]
      exact Kind.existing_of_coerce accepted existing

theorem existing_rewrites (id : SignalId) (change : Value → Except ValueError Value)
    (changes : ∀ v w, change v = .ok w → w.Existing) :
    ∀ write ∈ k.rewrites id change, write.2.Existing := by
  unfold rewrites
  cases k.signal? id with
  | none => exact fun _ listed => absurd listed List.not_mem_nil
  | some s =>
      dsimp only
      cases changed : change s.next with
      | error cause => exact fun _ listed => absurd listed List.not_mem_nil
      | ok value => exact existing_writes id false (changes _ _ changed)

/-- What a rule gives exists, if the sources do. -/
theorem Genuine.evaluate (genuine : k.Genuine) {shadow : Shadow} {value : Value}
    (given : (shadow.evaluate k).2 = .ok value) : value.Existing := by
  cases value with
  | enum item =>
      obtain ⟨target, rule⟩ := shadow
      cases rule with
      | slice parent hi lo =>
          obtain ⟨v, -, cut⟩ := of_derive given nofun
          cases sliced : v.slice hi lo <;> rw [sliced] at cut <;> cases cut
      | bit parent index =>
          obtain ⟨v, -, cut⟩ := of_derive given nofun
          cases read : v.bit index <;> rw [read] at cut <;> cases cut
      | concat parts =>
          obtain ⟨values, b, -, -, same⟩ := of_join given nofun
          cases same
      | tristate drivers =>
          rcases of_resolve given with ⟨driver, -, held, -, -⟩ | ⟨-, floats⟩
          · obtain ⟨s, found, val⟩ := Option.map_eq_some_iff.mp held
            exact val ▸ (genuine driver s found).1
          · cases floats
  | _ => trivial

end Kernel

theorem Request.existing_writes {request : Request ω} (genuine : request.Genuine) (k : Kernel) :
    ∀ write ∈ request.writes k, write.2.Existing := by
  cases request with
  | setNext id proposed => exact Kernel.existing_writes id false genuine
  | setNextBit id index bit =>
      refine Kernel.existing_rewrites id (·.withBit index bit) fun v w changed => ?_
      cases v with
      | bits b =>
          change (b.withBit index bit).map Value.bits = .ok w at changed
          cases replaced : b.withBit index bit <;> rw [replaced] at changed <;> cases changed
          trivial
      | _ => cases changed
  | setNextSlice id hi lo content =>
      refine Kernel.existing_rewrites id (·.withSlice hi lo content) fun v w changed => ?_
      cases v with
      | bits b =>
          change (b.withSlice hi lo content).map Value.bits = .ok w at changed
          cases replaced : b.withSlice hi lo content <;> rw [replaced] at changed <;> cases changed
          trivial
      | _ => cases changed
  | _ => exact fun _ listed => absurd listed List.not_mem_nil

/-- A genuine kernel shows what exists. -/
theorem Request.shows {request : Request ω} {k k' : Kernel} {w w' : ω} {reply : request.Reply}
    (performed : request.perform k w = some (reply, k', w')) (genuine : k.Genuine) :
    request.Shows reply := by
  cases request with
  | value id =>
      simp only [Request.perform, Option.some.injEq, Prod.mk.injEq] at performed
      intro v shown
      rw [← performed.1] at shown
      obtain ⟨s, found, rfl⟩ := Kernel.val_eq_ok.mp shown
      exact (genuine id s found).1
  | next id =>
      simp only [Request.perform, Option.map_eq_some_iff, Prod.mk.injEq, Prod.exists] at performed
      obtain ⟨proposed, marked, read, same, -⟩ := performed
      obtain ⟨s, found, shown⟩ := Option.map_eq_some_iff.mp read
      cases shown
      exact same ▸ (genuine id s found).2
  | _ => trivial

theorem Activity.existing_writes {activity : Activity ω α} (genuine : activity.Genuine) {k : Kernel}
    (w : ω) (q : EventQueue) (desk : Desk.Genuine ⟨k, q⟩) :
    ∀ write ∈ activity.writes k w, write.2.Existing := by
  induction activity generalizing k w with
  | ask request go ih =>
      obtain ⟨asks, goes⟩ := genuine
      rw [writes]
      cases performed : request.perform k w with
      | none => exact fun _ listed => absurd listed List.not_mem_nil
      | some result =>
          obtain ⟨reply, k', w'⟩ := result
          have first := Request.existing_writes asks k
          have desk' := (Request.goes_perform q performed).genuine_of_writes first desk
          have rest := ih reply (goes reply (Request.shows performed desk.kernel)) w' desk'
          exact List.forall_mem_append.mpr ⟨first, rest⟩
  | later go ih => exact ih () genuine w desk
  | _ => exact fun _ listed => absurd listed List.not_mem_nil

theorem Shadow.existing_writes {k : Kernel} (genuine : k.Genuine) (shadow : Shadow) :
    ∀ write ∈ shadow.writes σ k, write.2.Existing := by
  unfold writes
  split
  · exact fun _ listed => absurd listed List.not_mem_nil
  · split
    · exact fun _ listed => absurd listed List.not_mem_nil
    · next k' value evaluated =>
        exact Kernel.existing_writes _ true (genuine.evaluate (congrArg Prod.snd evaluated))

theorem Body.existing_writes {B : Behaviours σ ω} (behaves : B.Genuine) {k : Kernel} {q : EventQueue}
    (desk : Desk.Genuine ⟨k, q⟩) (w : ω) (body : Body σ) :
    ∀ write ∈ body.writes B k w, write.2.Existing := by
  cases body with
  | process state => exact Activity.existing_writes (behaves.resume state) w q desk
  | shadow shadow => exact shadow.existing_writes desk.kernel
  | always block started =>
      cases started with
      | false => exact fun _ listed => absurd listed List.not_mem_nil
      | true => exact Activity.existing_writes (behaves.react block.body) w q desk
  | branch clause => exact fun _ listed => absurd listed List.not_mem_nil
  | outputs => exact fun _ listed => absurd listed List.not_mem_nil

/-! ## Made kernels -/

/-- All signals start with items that exist. -/
def Kernel.StartsGenuine (k : Kernel) : Prop := ∀ id s, k.signal? id = some s → s.init.Existing

namespace Kernel

variable {k k' : Kernel}

theorem StartsGenuine.register (starts : k.StartsGenuine) {s : Signal} (new : s.init.Existing) :
    (k.register s).2.StartsGenuine := by
  intro id s' found
  rw [signal?_register] at found
  split at found
  · cases found
    exact new
  · exact starts id s' found

theorem StartsGenuine.declareShadow (starts : k.StartsGenuine) {s : Signal} (new : s.init.Existing)
    (rule : ShadowRule) : (k.declareShadow s rule).2.StartsGenuine :=
  starts.register (s := { s with shadow := true }) new

theorem StartsGenuine.of_inits (starts : k.StartsGenuine)
    (inits : ∀ id s', k'.signal? id = some s' → ∃ s, k.signal? id = some s ∧ s'.init = s.init) :
    k'.StartsGenuine := by
  intro id s' found
  obtain ⟨s, was, same⟩ := inits id s' found
  rw [same]
  exact starts id s was

theorem StartsGenuine.configure (starts : k.StartsGenuine) (config : Config) :
    (Simulation.configure k config).StartsGenuine := by
  refine starts.of_inits fun id s' found => ?_
  unfold Simulation.configure at found
  dsimp only at found
  split at found
  · have here := (signal?_marked k (fun s => config.trace.includes s.name) id).symm.trans found
    obtain ⟨s, was, rfl⟩ := Option.map_eq_some_iff.mp here
    exact ⟨s, was, rfl⟩
  · exact ⟨s', found, rfl⟩

theorem Made.startsGenuine {k : Kernel} (made : k.Made) : k.StartsGenuine := by
  induction made with
  | empty =>
      intro id s found
      simp [signal?] at found
  | signal made name built delay ih => exact ih.register built.existing
  | slice made declared ih =>
      obtain ⟨b, v, -, -, rfl⟩ := declareSlice_eq declared
      exact ih.declareShadow (by trivial) _
  | bit made declared ih =>
      obtain ⟨b, v, -, -, rfl⟩ := declareBit_eq declared
      exact ih.declareShadow (by trivial) _
  | concat made declared ih =>
      obtain ⟨-, values, v, -, -, rfl⟩ := declareConcat_eq declared
      exact ih.declareShadow (by trivial) _
  | tristate made name built ih => exact ih.declareShadow (by trivial) _
  | driver made declared ih =>
      obtain ⟨s, index, -, -, rfl⟩ := declareDriver_eq declared
      exact ih.register trivial
  | configured made config ih => exact ih.configure config
  | annotated made id traced driven read ih =>
      refine ih.of_inits fun id' s' found => ?_
      rw [signal?_modify] at found
      split at found
      · obtain ⟨s, was, rfl⟩ := Option.map_eq_some_iff.mp found
        exact ⟨s, was, rfl⟩
      · exact ⟨s', found, rfl⟩
  | policed made contention ih => exact ih
  | @handedBack k made diagnostics ih =>
      refine ih.of_inits fun id s' found => ?_
      obtain ⟨s, was, rfl⟩ := Option.map_eq_some_iff.mp ((signal?_reset k id).symm.trans found)
      exact ⟨s, was, rfl⟩

end Kernel

theorem Desk.genuine_of_made {k : Kernel} (made : k.Made) : Desk.Genuine ⟨k, {}⟩ := by
  constructor
  · intro id s found
    have existing := made.startsGenuine id s found
    rw [← made.sound.atStart.signal found]
    exact ⟨existing, existing⟩
  · exact fun _ listed => absurd listed List.not_mem_nil

/-! ## Runs -/

namespace Simulation

variable {B : Behaviours σ ω} {s s' : Simulation σ ω}

/-- All signals of a simulation hold items that exist, and the engine drives such items only. -/
structure Genuine (s : Simulation σ ω) : Prop where
  staffed : s.Staffed
  desk : s.desk.Genuine
  bridge : ∀ b, s.equipment.bridge = some b → b.Genuine

theorem Genuine.of_silence (genuine : s.Genuine) {log : List Happening} (does : Does s log s')
    (silent : log.filterMap Happening.write? = []) (equipped : s'.equipment = s.equipment) :
    s'.Genuine := by
  constructor
  · exact does.staffed genuine.staffed
  · exact does.goes.genuine_of_silence silent genuine.desk
  · rw [equipped]
    exact genuine.bridge

theorem Genuine.commitPending (genuine : s.Genuine) : s.commitPending.1.Genuine :=
  genuine.of_silence s.does_commitPending (write?_happenings _ _) s.equipment_commitPending

theorem Genuine.withReady (genuine : s.Genuine) (ready : Fifo Arming) :
    ({ s with ready } : Simulation σ ω).Genuine :=
  ⟨genuine.staffed, genuine.desk, genuine.bridge⟩

theorem Genuine.runWaiter (genuine : s.Genuine) (behaves : B.Genuine) {a : Arming}
    {result : Except SimError Unit} (ran : runWaiter B s a = some (s', result)) : s'.Genuine := by
  have does := does_runWaiter genuine.staffed ran
  constructor
  · exact does.staffed genuine.staffed
  · refine does.goes.genuine_of_writes ?_ genuine.desk
    unfold waiterWrites
    split
    · exact fun _ listed => absurd listed List.not_mem_nil
    · exact Body.existing_writes behaves genuine.desk s.world _
  · rw [equipment_runWaiter ran]
    exact genuine.bridge

theorem Genuine.resumes {m : Simulation σ ω} (genuine : m.Genuine) (behaves : B.Genuine)
    (resumes : Resumes B m s) : s.Genuine := by
  induction resumes with
  | start => exact genuine
  | next resumes popped ran ih =>
      exact (ih.withReady _).runWaiter behaves ran

theorem Genuine.runReady (genuine : s.Genuine) (behaves : B.Genuine) {fuel : Nat}
    {failure failure' : Except SimError Unit}
    (ran : runReady B fuel s failure = .ok (s', failure')) : s'.Genuine := by
  replace ran := way_of_runReady ran
  induction ran with
  | idle => exact genuine
  | resumed popped resumed further ih =>
      exact ih ((genuine.withReady _).runWaiter behaves resumed)

theorem genuine_takeIn (desk : s.desk.Genuine) (changed : Bool) {values : List (SignalId × Value)}
    (existing : ∀ value ∈ values, value.2.Existing) : (s.takeIn changed values).1.desk.Genuine := by
  induction values generalizing s changed with
  | nil => exact desk
  | cons value rest ih =>
      obtain ⟨first, others⟩ := List.forall_mem_cons.mp existing
      obtain ⟨id, value⟩ := value
      have writes := (s.kernel.goes_setNext s.queue id value).genuine_of_writes
        (Kernel.existing_writes id false first) desk
      rw [takeIn]
      generalize s.kernel.write id value false = result at writes ⊢
      obtain ⟨kernel, _ | _⟩ := result
      · exact desk
      · exact ih (s := { s with kernel }) writes _ others

theorem genuine_exchange (desk : s.desk.Genuine)
    (bridge : ∀ b, s.equipment.bridge = some b → b.Genuine) : s.exchange.1.desk.Genuine := by
  have read {l : Link ω} (linked : s.openLink? = some l) : (s.readReply l).1.desk.Genuine := by
    have genuine : l.bridge.Genuine := by
      refine bridge l.bridge ?_
      rw [equipment, (Option.filter_eq_some_iff.mp linked).1, Option.map_some]
    unfold readReply
    split
    · dsimp only [changeLink]
      generalize received : l.bridge.receive _ _ = result
      obtain ⟨world, _ | values⟩ := result
      · exact desk
      · refine genuine_takeIn (s := { s with link := _, world }) ?_ false (genuine _ _ _ _ received)
        exact desk
    · exact desk
  unfold exchange
  cases linked : s.openLink? with
  | none => exact desk
  | some l =>
      have taken := read linked
      dsimp only
      generalize s.readReply l = result at taken ⊢
      obtain ⟨s₁, _ | inbound⟩ := result
      · exact taken
      · dsimp only
        split
        · have sent := (s₁.does_sendOutputs l.bridge).goes.genuine_of_silence rfl taken
          generalize s₁.sendOutputs l.bridge = result at sent ⊢
          obtain ⟨s₂, _ | _⟩ := result <;> exact sent
        · exact taken

theorem Genuine.proceed (genuine : s.Genuine) (cap : Option Nat) : (s.proceed cap).1.Genuine := by
  constructor
  · obtain ⟨writes, log, -, does, -⟩ := s.does_proceed cap
    exact does.staffed genuine.staffed
  · have exchanged := genuine_exchange genuine.desk genuine.bridge
    have way := s.way_of_proceed
    generalize s.settled? = settled at way
    cases way with
    | failed exchanges proceeds =>
        rw [exchanges] at exchanged
        rw [proceeds]
        exact exchanged
    | @entered m sent exchanges proceeds =>
        rw [exchanges] at exchanged
        rw [proceeds, fst_goOn]
        exact (m.does_purge.quietly m.purge.does_nextDelta).goes.genuine_of_silence rfl exchanged
    | @settled m exchanges pending proceeds =>
        rw [exchanges] at exchanged
        obtain ⟨log, arrivals, leaves⟩ := m.purge.does_leaveTick cap
        rw [proceeds]
        exact leaves.goes.genuine_of_silence (write?_of_arrivals arrivals)
          (m.does_purge.goes.genuine_of_silence rfl exchanged)
  · rw [s.equipment_proceed cap]
    exact genuine.bridge

theorem Genuine.wrapUp (genuine : s.Genuine) (failure : Except SimError Unit) :
    (s.wrapUp failure).1.Genuine := by
  have purged := genuine.commitPending.of_silence s.commitPending.1.does_purge rfl
    s.commitPending.1.equipment_purge
  obtain ⟨stopRequest, same⟩ := s.wrapUp_eq failure
  rw [same]
  exact purged.of_silence (.of_goes (Desk.Step.noted _ _ stopRequest _).goes rfl) rfl rfl

theorem Genuine.cycle (genuine : s.Genuine) (behaves : B.Genuine) {fuel : Nat} {cap : Option Nat}
    {verdict : Verdict} (turned : s.cycle B fuel cap = .ok (s', verdict)) : s'.Genuine :=
  cycle_induction turned genuine.commitPending (fun genuine ran => genuine.runReady behaves ran)
    (fun _ genuine => genuine.proceed cap) fun _ failure genuine => genuine.wrapUp failure

theorem Genuine.loop (genuine : s.Genuine) (behaves : B.Genuine) {fuel : Nat} {cap : Option Nat}
    {result : Except SimError Outcome} (looped : loop B fuel s cap = .ok (s', result)) :
    s'.Genuine := by
  replace looped := way_of_loop looped
  induction looped with
  | ended turned => exact genuine.cycle behaves turned
  | again turned further ih => exact ih (genuine.cycle behaves turned)

theorem Genuine.run (genuine : s.Genuine) (behaves : B.Genuine) {fuel : Nat} {duration : Option Nat}
    {result : Except SimError Outcome} (ran : run B fuel s duration = .ok (s', result)) :
    s'.Genuine := by
  have starts := genuine.of_silence (.of_office s.office_startHook) rfl s.equipment_startHook
  cases way_of_run ran with
  | terminated ended => exact genuine
  | untold running started =>
      rw [started] at starts
      exact starts
  | @played s₁ s₂ _ final _ running started looped concluded =>
      rw [started] at starts
      have concludes := (starts.loop behaves looped).of_silence (.of_office (s₂.office_conclude final))
        rfl (s₂.equipment_conclude final)
      rw [concluded] at concludes
      exact concludes

/-- Where processes and the engine propose items that exist, all signals hold such items. -/
theorem Reached.genuine (reached : Reached B s) (behaves : B.Genuine)
    (bridge : ∀ b, s.equipment.bridge = some b → b.Genuine) : s.Genuine := by
  induction reached with
  | @built kernel instances world s made built =>
      constructor
      · exact staffed_build built
      · rw [desk_build built]
        exact Desk.genuine_of_made made
      · exact bridge
  | @adjusted s s' reached adjusts ih =>
      -- What is adjusted from outside holds no values of signals.
      have same : s'.equipment.bridge = s.equipment.bridge := by
        obtain ⟨hook, hookStarted, state, maxDeltas, defaultDuration, world, rfl⟩ := adjusts
        rfl
      have genuine := ih (same ▸ bridge)
      constructor
      · exact (Does.of_office (office_adjusts adjusts)).staffed genuine.staffed
      · rw [show s'.desk = s.desk from congrArg Prod.fst (office_adjusts adjusts)]
        exact genuine.desk
      · exact bridge
  | cycled reached turned ih =>
      exact (ih (equipment_cycle turned ▸ bridge)).cycle behaves turned
  | ran reached ran ih => exact (ih (equipment_run ran ▸ bridge)).run behaves ran

end Simulation

end DeltaCycle
