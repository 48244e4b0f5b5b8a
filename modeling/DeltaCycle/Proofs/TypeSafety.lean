import DeltaCycle.Proofs.LastWrite

/-!
# Type safety

Every signal holds, proposes and awaits values of its kind alone, or floats, and a signal that
does not float at the start never does. Rules may write high impedance, but they do so only where
a source floats, and no source of a slice, a bit or a concatenation floats.
-/

set_option autoImplicit false

namespace DeltaCycle

variable {σ ω α : Type}

/-! ## Values of a kind -/

/-- A value of the kind: an item of the same enumeration, or a vector with the range and the width
of the template whose integer is in that range. -/
def Kind.Holds : Kind → Value → Prop
  | .bool, .bool _ => True
  | .int, .int _ => True
  | .bits template, .bits b =>
      b.min = template.min ∧ b.max = template.max ∧ b.width = template.width ∧ b.InRange
  | .enum type, .enum item => item.type = type
  | .any, _ => True
  | _, _ => False

theorem Value.holds_kind {v : Value} (inRange : ∀ b, v = .bits b → b.InRange) : v.kind.Holds v := by
  cases v with
  | bits b => exact ⟨rfl, rfl, rfl, inRange b rfl⟩
  | enum item => exact (rfl : item.type = item.type)
  | _ => trivial

/-! ## What a kind accepts -/

theorem Value.item_of_toInt?_eq_none {v : Value} (numberless : v.toInt? = none)
    (solid : v ≠ .highZ) : ∃ item, v = .enum item := by
  cases v with
  | enum item => exact ⟨item, rfl⟩
  | highZ => exact absurd rfl solid
  | _ => cases numberless

namespace Kind

variable {kind : Kind} {template : Bits} {v w : Value} {n : Int}

theorem coerce_any (v : Value) : any.coerce v = .ok v := by
  cases v <;> rfl

theorem coerce_bool (numeric : v.toInt? = some n) :
    bool.coerce v =
      if n = 0 then .ok (.bool false)
      else if n = 1 then .ok (.bool true)
      else .error (.outOfBounds n 0 2) := by
  cases v with
  | bool b =>
      cases numeric
      cases b <;> rfl
  | int _ | bits _ =>
      cases numeric
      rfl
  | _ => cases numeric

theorem coerce_int (numeric : v.toInt? = some n) : int.coerce v = .ok (.int n) := by
  cases v with
  | bool _ | int _ | bits _ =>
      cases numeric
      rfl
  | _ => cases numeric

theorem coerce_bits (numeric : v.toInt? = some n) :
    (bits template).coerce v = (template.withVal n).map .bits := by
  cases v with
  | bool _ | int _ | bits _ =>
      cases numeric
      rfl
  | _ => cases numeric

/-- The ways in which a value that does not float is accepted: as it is, for its number, or as an
item of the enumeration. -/
inductive Accepts : Kind → Value → Value → Prop where
  | any (v : Value) : Accepts any v v
  | bool {v : Value} (b : Bool) (numeric : v.toInt? = some (if b then 1 else 0)) :
      Accepts bool v (.bool b)
  | int {v : Value} {n : Int} (numeric : v.toInt? = some n) : Accepts int v (.int n)
  | bits {v : Value} {n : Int} {template b : Bits} (numeric : v.toInt? = some n)
      (fits : template.withVal n = .ok b) : Accepts (bits template) v (.bits b)
  | enum (item : EnumItem) : Accepts (enum item.type) (.enum item) (.enum item)

theorem accepts_of_coerce (solid : v ≠ .highZ) (accepted : kind.coerce v = .ok w) :
    kind.Accepts v w := by
  cases kind with
  | any =>
      rw [coerce_any] at accepted
      cases accepted
      exact .any v
  | bool =>
      cases numeric : v.toInt? with
      | none =>
          obtain ⟨item, rfl⟩ := Value.item_of_toInt?_eq_none numeric solid
          cases accepted
      | some n =>
          rw [coerce_bool numeric] at accepted
          split at accepted
          · next zero =>
              cases accepted
              exact .bool false (numeric.trans (congrArg some zero))
          · split at accepted
            · next one =>
                cases accepted
                exact .bool true (numeric.trans (congrArg some one))
            · cases accepted
  | int =>
      cases numeric : v.toInt? with
      | none =>
          obtain ⟨item, rfl⟩ := Value.item_of_toInt?_eq_none numeric solid
          cases accepted
      | some n =>
          rw [coerce_int numeric] at accepted
          cases accepted
          exact .int numeric
  | bits template =>
      cases numeric : v.toInt? with
      | none =>
          obtain ⟨item, rfl⟩ := Value.item_of_toInt?_eq_none numeric solid
          cases accepted
      | some n =>
          rw [coerce_bits numeric] at accepted
          cases fits : template.withVal n with
          | error cause =>
              rw [fits] at accepted
              cases accepted
          | ok b =>
              rw [fits] at accepted
              cases accepted
              exact .bits numeric fits
  | enum type =>
      cases v with
      | enum item =>
          simp only [coerce] at accepted
          split at accepted
          · next same =>
              subst same
              cases accepted
              exact .enum item
          · cases accepted
      | highZ => exact absurd rfl solid
      | _ => cases accepted

/-- A value that is accepted floats if the given one does, and is of the kind otherwise. -/
theorem coerce_spec (accepted : kind.coerce v = .ok w) :
    v = .highZ ∧ w = .highZ ∨ v ≠ .highZ ∧ w ≠ .highZ ∧ kind.Holds w := by
  by_cases floats : v = .highZ
  · subst floats
    cases accepted
    exact .inl ⟨rfl, rfl⟩
  · refine .inr ⟨floats, ?_⟩
    cases accepts_of_coerce floats accepted with
    | any => exact ⟨floats, trivial⟩
    | bool b numeric => exact ⟨nofun, trivial⟩
    | int numeric => exact ⟨nofun, trivial⟩
    | bits numeric fits =>
        obtain ⟨rfl, inRange⟩ := Bits.withVal_eq fits
        exact ⟨nofun, rfl, rfl, rfl, inRange⟩
    | enum item => exact ⟨nofun, rfl⟩

end Kind

/-! ## What a signal admits -/

/-- A value that the signal may hold. -/
def Signal.Admits (s : Signal) (v : Value) : Prop :=
  (v = .highZ ∨ s.kind.Holds v) ∧ (s.init ≠ .highZ → v ≠ .highZ)

theorem Signal.Admits.of_design {s s' : Signal} {v : Value} (admits : s.Admits v)
    (same : s'.design = s.design) : s'.Admits v := by
  unfold Admits
  rw [kind_of_design same, init_of_design same]
  exact admits

theorem Signal.Proper.admits {s : Signal} (proper : s.Proper) : s.Admits s.init := by
  refine ⟨?_, id⟩
  rcases proper.kind with floats | same
  · exact .inl floats
  · rw [same]
    exact .inr (Value.holds_kind proper.inRange)

/-- All signals of a kernel hold and propose what they admit. -/
def Kernel.Typed (k : Kernel) : Prop :=
  ∀ id s, k.signal? id = some s → s.Admits s.val ∧ s.Admits s.next

namespace Kernel

theorem Sound.typed {k : Kernel} (sound : k.Sound) : k.Typed := by
  intro id s found
  have admits := (sound.declared.proper id s found).admits
  rw [← sound.atStart.signal found]
  exact ⟨admits, admits⟩

theorem lookup_eq_ok {k : Kernel} {id : SignalId} {s : Signal} (known : k.lookup id = .ok s) :
    k.signal? id = some s := by
  unfold lookup at known
  cases found : k.signal? id with
  | none => simp [found] at known
  | some s' =>
      simp only [found, Except.ok.injEq] at known
      rw [known]

/-- A proposal is what the kind makes of a value; one that floats is refused where the signal does
not float at the start, unless it is by a rule. -/
theorem proposal_spec {k : Kernel} {id : SignalId} {value next : Value} {fromRule : Bool}
    (proposed : k.proposal id value fromRule = .ok next) :
    ∃ s, k.signal? id = some s ∧ s.kind.coerce value = .ok next ∧
      (fromRule = false → s.shadow = false ∧ (s.init ≠ .highZ → value ≠ .highZ)) := by
  unfold proposal at proposed
  cases known : k.lookup id with
  | error e => simp [known] at proposed
  | ok s =>
      refine ⟨s, lookup_eq_ok known, ?_⟩
      simp only [known] at proposed
      split at proposed
      · cases proposed
      · next writable =>
          split at proposed
          · cases proposed
          · next sound =>
              refine ⟨?_, ?_⟩
              · cases accepted : s.kind.coerce value with
                | error cause =>
                    rw [accepted] at proposed
                    cases proposed
                | ok w =>
                    rw [accepted] at proposed
                    cases proposed
                    rfl
              · rintro rfl
                refine ⟨by simpa using writable, ?_⟩
                rintro driven rfl
                refine absurd ?_ sound
                cases init : s.init <;> first | rfl | exact absurd init driven

/-- A source that does not float at the start does not float. -/
theorem Typed.solid {k : Kernel} (typed : k.Typed) {id : SignalId} {v w : Value}
    (starts : k.StartsAt id v) (solid : v ≠ .highZ) (holds : k.val id = .ok w) : w ≠ .highZ := by
  obtain ⟨s, found, rfl⟩ := starts
  obtain ⟨s', found', rfl⟩ := val_eq_ok.mp holds
  cases found.symm.trans found'
  exact (typed id s found).1.2 solid

theorem solid_of_allToBits {values : List Value} {bits : List Bits}
    (converted : Value.allToBits values = .ok bits) : ∀ v ∈ values, v ≠ .highZ := by
  induction values generalizing bits with
  | nil => exact fun v listed => absurd listed List.not_mem_nil
  | cons v rest ih =>
      rw [Value.allToBits] at converted
      split at converted
      · cases converted
      · next b first =>
          split at converted
          · cases converted
          · next bs others =>
              refine List.forall_mem_cons.mpr ⟨?_, ih others⟩
              rintro rfl
              cases first

/-- Parts that do not float at the start do not float. -/
theorem Typed.solid_parts {k : Kernel} (typed : k.Typed) {parts : List ConcatPart}
    {inits values : List Value} (starts : List.Forall₂ k.PartAt parts inits)
    (solid : ∀ v ∈ inits, v ≠ .highZ) (known : k.partValues parts = .ok values) :
    ∀ v ∈ values, v ≠ .highZ := by
  induction starts generalizing values with
  | nil =>
      cases known
      exact fun v listed => absurd listed List.not_mem_nil
  | @cons part init parts inits first others ih =>
      obtain ⟨solidFirst, solidRest⟩ := List.forall_mem_cons.mp solid
      rw [partValues] at known
      cases held : k.partValue part with
      | error e => simp [held] at known
      | ok v =>
          simp only [held] at known
          cases rest : k.partValues parts with
          | error e =>
              rw [rest] at known
              cases known
          | ok vs =>
              rw [rest] at known
              cases known
              refine List.forall_mem_cons.mpr ⟨?_, ih solidRest rest⟩
              cases part with
              | literal w =>
                  cases held
                  rw [show v = init from first]
                  exact solidFirst
              | signal id => exact typed.solid first solidFirst held

/-- What a rule gives to a signal that does not float at the start does not float. -/
theorem Gives.solid {k : Kernel} {id : SignalId} {value : Value} {s : Signal}
    (gives : k.Gives id value) (declared : k.WellDeclared) (typed : k.Typed)
    (found : k.signal? id = some s) (driven : s.init ≠ .highZ) : value ≠ .highZ := by
  obtain ⟨shadow, listed, rfl, given⟩ := gives
  have wired := declared.wired shadow listed
  rintro rfl
  cases wired with
  | @slice target parent hi lo b v source sliced init =>
      simp only [Shadow.evaluate, Shadow.derive] at given
      split at given
      · cases given
      · next holds => exact typed.solid source nofun holds rfl
      · next v' solid holds =>
          cases cut : v'.slice hi lo <;> rw [cut] at given <;> cases given
  | @bit target parent index b v source read init =>
      simp only [Shadow.evaluate, Shadow.derive] at given
      split at given
      · cases given
      · next holds => exact typed.solid source nofun holds rfl
      · next v' solid holds =>
          cases cut : v'.bit index <;> rw [cut] at given <;> cases given
  | @concat target parts values v sources joined init =>
      simp only [Shadow.evaluate, Shadow.join] at given
      cases known : k.partValues parts with
      | error e => simp [known] at given
      | ok now =>
          simp only [known] at given
          split at given
          · next floats =>
              obtain ⟨w, listed, floating⟩ := List.any_eq_true.mp floats
              unfold Value.concat at joined
              split at joined
              · cases joined
              · next converted =>
                  refine typed.solid_parts sources (solid_of_allToBits converted) known w listed ?_
                  cases w <;> first | rfl | cases floating
          · cases cut : Value.concat now <;> rw [cut] at given <;> cases given
  | @tristate target drivers sources init =>
      obtain ⟨s', found', floats, -⟩ := init
      cases found.symm.trans found'
      exact driven floats

end Kernel

/-! ## The invariant -/

/-- A desk whose signals are typed, and whose queue holds what they admit. -/
structure Desk.Safe (d : Desk) : Prop where
  declared : d.kernel.WellDeclared
  typed : d.kernel.Typed
  due : ∀ e ∈ d.queue.toList, ∀ id value stamp, e.payload = .apply id value stamp →
    ∀ s, d.kernel.signal? id = some s → s.Admits value

namespace Signal

variable {id : SignalId} {s s' : Signal} {happening : Option Happening}

theorem val_update (s : Signal) : s.update.1.val = s.val ∨ s.update.1.val = s.next := by
  cases inertia : s.inertia with
  | none =>
      obtain ⟨val, waits, same, -, from_⟩ := s.apply_spec s.next
      rw [update_of_prompt inertia, same]
      exact from_
  | some i =>
      rw [update_of_inertial inertia]
      exact .inl rfl

theorem val_applyDeferred (s : Signal) (value : Value) (stamp : Nat) :
    (s.applyDeferred value stamp).1.val = s.val ∨ (s.applyDeferred value stamp).1.val = value := by
  cases inertia : s.inertia with
  | none =>
      rw [applyDeferred_of_prompt inertia]
      exact .inl rfl
  | some i =>
      rw [applyDeferred_of_inertial inertia]
      split
      · obtain ⟨val, waits, same, -, from_⟩ := s.apply_spec value
        rw [same]
        exact from_
      · exact .inl rfl

/-- The committed value of a signal is the one before, or the one that it proposes, or the one
that came due. -/
theorem Turns.admits {P : Value → Prop} (turns : s.Turns id happening s') (val : P s.val)
    (next : P s.next) (given : ∀ v, happening = some (.written id v) → P v)
    (due : ∀ v stamp, happening = some (.arrived id v stamp) → P v) : P s'.val ∧ P s'.next := by
  have updated : P s.update.1.val ∧ P s.update.1.next := by
    refine ⟨?_, s.next_update ▸ next⟩
    rcases s.val_update with same | same <;> rw [same] <;> assumption
  cases turns with
  | kept other => exact ⟨val, next⟩
  | rewired waits => exact ⟨val, next⟩
  | written v => exact ⟨val, given v rfl⟩
  | updated time => exact updated
  | lost => exact updated
  | arrived v stamp =>
      refine ⟨?_, s.next_applyDeferred v stamp ▸ next⟩
      rcases s.val_applyDeferred v stamp with same | same
      · rw [same]
        exact val
      · rw [same]
        exact due v stamp rfl

end Signal

namespace Desk

/-- The entries of the queue are those before, and the value that an update phase put there. -/
theorem Step.due {d d' : Desk} {happening : Option Happening} (step : Desk.Step d happening d')
    {e : Entry} (listed : e ∈ d'.queue.toList) {id : SignalId} {value : Value} {stamp : Nat}
    (applies : e.payload = .apply id value stamp) :
    e ∈ d.queue.toList ∨
      ∃ s i, d.kernel.signal? id = some s ∧ s.inertia = some i ∧ value = s.next ∧
        stamp = (i.propose s.next).stamp ∧ e.time = d.kernel.now + i.delay ∧
        happening = some (.updated d.kernel.now id s.next) := by
  cases step with
  | @updated k q id' signal found =>
      cases inertia : signal.inertia with
      | none =>
          have same : q.defer k.now id' signal.update.2 = q := by
            rw [Signal.update_of_prompt inertia]
            rcases signal.apply_cases signal.next with ⟨-, kept⟩ | ⟨-, waits, woken, changed⟩
            · rw [kept]
              rfl
            · rw [changed]
              rfl
          rw [same] at listed
          exact .inl listed
      | some i =>
          rw [Signal.update_of_inertial inertia] at listed
          rcases List.mem_cons.mp ((EventQueue.toList_push ..).mem_iff.mp listed) with rfl | listed
          · cases applies
            exact .inr ⟨signal, i, found, inertia, rfl, rfl, rfl, rfl⟩
          · exact .inl listed
  | queued q a ahead =>
      rcases List.mem_cons.mp ((EventQueue.toList_push ..).mem_iff.mp listed) with rfl | listed
      · cases applies
      · exact .inl listed
  | taken k popped => exact .inl (EventQueue.mem_of_popDue popped listed)
  | arrived k popped => exact .inl (EventQueue.mem_of_popDue popped listed)
  | _ => exact .inl listed

/-- Every step keeps a desk safe. -/
theorem Step.safe {d d' : Desk} {happening : Option Happening} (step : Desk.Step d happening d')
    (safe : d.Safe) : d'.Safe := by
  have grown := step.extends
  refine ⟨safe.declared.of_extends grown.1 grown.2 step.shadows, fun id s' found => ?_,
    fun e listed id value stamp applies s' found => ?_⟩
  · have turns := step.turns id
    rw [found] at turns
    generalize here : d.kernel.signal? id = signal at turns
    cases turns with
    | @some s _ turn =>
        obtain ⟨val, next⟩ := safe.typed id s here
        have admits := turn.admits (P := s.Admits) val next ?_ ?_
        · exact ⟨admits.1.of_design turn.design, admits.2.of_design turn.design⟩
        · rintro v rfl
          cases step with
          | @written k q _ value _ fromRule proposed given =>
              obtain ⟨s₁, found₁, accepted, checked⟩ := Kernel.proposal_spec proposed
              cases here.symm.trans found₁
              rcases Kind.coerce_spec accepted with ⟨floats, rfl⟩ | ⟨-, solid, holds⟩
              · refine ⟨.inl rfl, fun driven => absurd floats ?_⟩
                cases fromRule with
                | false => exact (checked rfl).2 driven
                | true => exact (given rfl).solid safe.declared safe.typed here driven
              · exact ⟨.inr holds, fun _ => solid⟩
        · rintro v stamp rfl
          cases step with
          | arrived k popped =>
              obtain ⟨first, -, payload, -, perm⟩ := EventQueue.toList_popDue popped
              exact safe.due first (perm.mem_iff.mpr (List.mem_cons_self ..)) id v stamp payload s
                here
  · obtain ⟨s, here, same⟩ := grown.2 id s' found
    refine Signal.Admits.of_design (s := s) ?_ same.symm
    rcases step.due listed applies with listed | ⟨s₁, i, found₁, -, rfl, -⟩
    · exact safe.due e listed id value stamp applies s here
    · cases here.symm.trans found₁
      exact (safe.typed id s here).2

theorem safe_of_made {k : Kernel} (made : k.Made) : Safe ⟨k, {}⟩ where
  declared := made.sound.declared
  typed := made.sound.typed
  due _ listed := absurd listed List.not_mem_nil

theorem Goes.safe {d d' : Desk} {log : List Happening} (goes : Goes d log d') (safe : d.Safe) :
    d'.Safe :=
  goes.keeps (fun step safe => step.safe safe) safe

end Desk

/-! ## Courses of rounds -/

/-- What an activity meets is reached by steps of the desk. -/
theorem Activity.Meets.goes {k k' : Kernel} {w : ω} {activity : Activity ω α}
    (meets : activity.Meets k w k') (q : EventQueue) : ∃ log, Desk.Goes ⟨k, q⟩ log ⟨k', q⟩ := by
  induction meets with
  | here k w activity => exact ⟨[], .rest _⟩
  | ask performed rest ih =>
      obtain ⟨log, goes⟩ := ih
      exact ⟨_, (Request.goes_perform q performed).trans goes⟩
  | later rest ih => exact ih

theorem Body.Meets.goes {B : Behaviours σ ω} {k k' : Kernel} {w : ω} {body : Body σ}
    (meets : body.Meets B k w k') (q : EventQueue) : ∃ log, Desk.Goes ⟨k, q⟩ log ⟨k', q⟩ := by
  have still (same : k' = k) : ∃ log, Desk.Goes ⟨k, q⟩ log ⟨k', q⟩ := ⟨[], same ▸ .rest _⟩
  cases body with
  | process state => exact Activity.Meets.goes meets q
  | always block started =>
      cases started with
      | false => exact still meets
      | true => exact Activity.Meets.goes meets q
  | branch clause => exact still meets
  | shadow shadow => exact still meets
  | outputs => exact still meets

namespace Simulation

variable {B : Behaviours σ ω}

theorem Resumes.does {m s : Simulation σ ω} (resumes : Resumes B m s) (staffed : m.Staffed) :
    ∃ log, Does m log s := by
  induction resumes with
  | start => exact ⟨[], .refl m⟩
  | @next s s' a ready result resumes popped ran ih =>
      obtain ⟨log, does⟩ := ih
      have taken : Does s [] { s with ready } := .of_desk rfl rfl
      have before := does.quietly taken
      exact ⟨_, before.trans (does_runWaiter (before.staffed staffed) ran)⟩

/-- What a waiter meets is reached by steps of the desk. -/
theorem Sees.goes {m : Simulation σ ω} {k : Kernel} (sees : m.Sees B k) (staffed : m.Staffed) :
    ∃ log q, Desk.Goes m.desk log ⟨k, q⟩ := by
  obtain ⟨s, a, ready, me, body, stale, waiters, resumes, -, -, meets⟩ := sees
  obtain ⟨log, does⟩ := resumes.does staffed
  obtain ⟨more, goes⟩ := meets.goes s.queue
  exact ⟨log ++ more, s.queue, does.goes.trans goes⟩

theorem Reached.safe {s : Simulation σ ω} (reached : Reached B s) : s.desk.Safe :=
  reached.keeps (fun _ made => Desk.safe_of_made made) fun step safe => step.safe safe

/-- Signals are type safe in all that is reached by runs, whether they failed or not, in all that
waiters meet while they run, and in the kernel that is handed back. -/
theorem every_signal_holds_and_proposes_its_kind {s : Simulation σ ω} (reached : Reached B s) :
    s.kernel.Typed ∧ s.commitPending.1.kernel.Typed ∧
      (∀ k, s.commitPending.1.Sees B k → k.Typed) ∧
      ∀ k world, s.quit = (.ok k, world) → k.Typed := by
  have commits := s.does_commitPending
  have safe := commits.goes.safe reached.safe
  refine ⟨reached.safe.typed, safe.typed, fun k sees => ?_, fun k world quits => ?_⟩
  · obtain ⟨log, q, goes⟩ := sees.goes (commits.staffed reached.staffed)
    exact (goes.safe safe).typed
  · exact (reached.quit quits).sound.typed

/-- A word of four bits and its lowest bit. -/
def word : Kernel :=
  ((Kernel.declare {} "word" (.bits ⟨5, some 0, some 16, 4⟩) none).2.declareShadow
    (.ofInit "low" (.bool true) none) (.bit ⟨0⟩ 0)).2

theorem made_word : word.Made := by
  have five : Bits.unsigned 5 4 = .ok ⟨5, some 0, some 16, 4⟩ := rfl
  have made := Kernel.Made.empty.signal "word" (.bits (.unsigned five)) none
  have low : (Kernel.declare {} "word" (.bits ⟨5, some 0, some 16, 4⟩) none).2.declareBit "low"
    ⟨0⟩ 0 = .ok (⟨1⟩, word) := rfl
  exact made.bit low

/-- A simulation of a clerk that writes another number to the word. -/
def revision : Simulation Int Unit :=
  ({ kernel := word, world := () } : Simulation Int Unit).addShadows.addWaiter "clerk" (.process 2)
    none

/-- Whether a cycle is followed by another one that commits a value to the word. -/
def commitsNext (value : Value) : Except Stuck (Simulation Int Unit × Verdict) → Bool
  | .ok (s, .again) => s.commitPending.1.kernel.val? ⟨0⟩ == some value
  | _ => false

/-- A number that is written to the word becomes a vector of four bits. -/
theorem a_number_becomes_a_word :
    ∃ s, cycle clerks 9 revision none = .ok (s, .again) ∧
      s.commitPending.1.kernel.val? ⟨0⟩ = some (.bits ⟨2, some 0, some 16, 4⟩) ∧
      s.commitPending.1.kernel.Typed := by
  have reached : Reached clerks revision :=
    .built made_word (show build clerks word [.process 2] () = .ok revision from rfl)
  have commits : commitsNext (.bits ⟨2, some 0, some 16, 4⟩) (cycle clerks 9 revision none) =
    true := by decide +kernel
  rcases turned : cycle clerks 9 revision none with stuck | ⟨s, _ | result⟩
  · rw [turned] at commits
    cases commits
  · rw [turned] at commits
    have safe := every_signal_holds_and_proposes_its_kind (reached.cycled turned)
    exact ⟨s, rfl, eq_of_beq commits, safe.2.1⟩
  · rw [turned] at commits
    cases commits

end Simulation

end DeltaCycle
