import DeltaCycle.Simulation.Run

/-!
# Alternatives

A clause arms its waiter on a list of alternatives, the first of which wins: a clause for
the first of several clauses has the alternatives of all of them. Whatever a waiter runs, one
resume comes down to an act: it completes, it fails, or it waits for alternatives.
-/

set_option autoImplicit false

namespace DeltaCycle

/-- Something that a waiter is armed on by itself. -/
inductive Alternative (σ : Type) where
  | trigger (trigger : Trigger)
  | delay (ticks : Nat)
  | noop
  | spawn (child : σ)
  | join (clauses : List (Clause σ))
  /-- Nothing, for a clause without arguments. -/
  | refused (error : SimError)

/-- The signal whose proposed value a request reads or writes, if it does: a value that is refused
is not written, and an unknown signal has no proposed value. -/
def Request.touched? {ω : Type} (k : Kernel) : Request ω → Option SignalId
  | next signal => some signal
  | setNext signal proposed =>
      match k.proposal signal proposed false with
      | .ok _ => some signal
      | .error _ => none
  | setNextBit signal .. | setNextSlice signal .. => (k.signal? signal).map fun _ => signal
  | _ => none

/-- The signals whose proposed values are read or written where an activity is carried out. -/
def Activity.touched {ω α : Type} (k : Kernel) (w : ω) : Activity ω α → List SignalId
  | ask request go =>
      match request.perform k w with
      | none => []
      | some (reply, k', w') => (request.touched? k).toList ++ (go reply).touched k' w'
  | later go => (go ()).touched k w
  | _ => []

/-- The signals whose proposed values are written where a shadow is recomputed. -/
def Shadow.touched (σ : Type) (k : Kernel) (s : Shadow) : List SignalId :=
  match Shadow.clause? (σ := σ) s, (s.evaluate k).2 with
  | some _, .ok _ => [s.target]
  | _, _ => []

/-- What a waiter does in one resume. -/
inductive Act (σ : Type) where
  | completes
  | fails (error : SimError)
  /-- It is to be resumed with the body when one of the alternatives comes about. -/
  | waits (body : Body σ) (alternatives : List (Alternative σ))

namespace Clause

variable {σ : Type}

mutual

/-- The alternatives that a clause stands for. -/
def alternatives : Clause σ → List (Alternative σ)
  | event signal => [.trigger (.event signal)]
  | edge e => [.trigger (.edge e)]
  | delay ticks => [.delay ticks]
  | noop => [.noop]
  | spawn child => [.spawn child]
  | any [] => [.refused .emptyAny]
  | any clauses => alternativesOfAll clauses
  | join [] => [.refused .emptyJoin]
  | join clauses => [.join clauses]

/-- The alternatives that clauses stand for, in order. -/
def alternativesOfAll : List (Clause σ) → List (Alternative σ)
  | [] => []
  | clause :: rest => clause.alternatives ++ alternativesOfAll rest

end

end Clause

/-- The alternatives that a sensitivity stands for. -/
def Sensitivity.alternatives {σ : Type} : Sensitivity → List (Alternative σ)
  | triggers list => list.map .trigger
  | delay ticks => [.delay ticks]

namespace Act

variable {σ : Type}

/-- What a waiter does whose process gave an answer. -/
def ofStep : Except SimError (Step σ) → Act σ
  | .error e => .fails e
  | .ok .done => .completes
  | .ok (.wait state clause) => .waits (.process state) clause.alternatives

/-- What a waiter does whose shadow gave an answer. -/
def ofShadow (shadow : Shadow) : Except SimError (Option (Clause σ)) → Act σ
  | .error e => .fails e
  | .ok none => .completes
  | .ok (some clause) => .waits (.shadow shadow) clause.alternatives

/-- What a waiter does whose block gave an answer. -/
def ofReaction (block : Always σ) : Except SimError σ → Act σ
  | .error e => .fails e
  | .ok body => .waits (.always { block with body } true) block.sensitivity.alternatives

end Act

namespace Simulation

variable {σ ω : Type} {B : Behaviours σ ω}

/-! ## Arming -/

/-- Arms a waiter on an alternative. -/
def armOn (B : Behaviours σ ω) (s : Simulation σ ω) (me : Arming) :
    Alternative σ → Simulation σ ω × Except SimError Unit
  | .trigger trigger => s.watch me trigger
  | .delay ticks => s.wakeAfter me ticks
  | .noop => ({ s with queue := s.queue.push s.kernel.now (.wake me) }, .ok ())
  | .spawn child => (s.addWaiter (B.name child) (.process child) (some (.resume me)), .ok ())
  | .join clauses =>
      let (group, waiters) := s.waiters.openJoin clauses.length me
      (clauses.foldl (addBranch B group) { s with waiters }, .ok ())
  | .refused error => (s, .error error)

/-- Arms a waiter on alternatives in order, up to the first that is refused. -/
def armOnAll (B : Behaviours σ ω) (s : Simulation σ ω) (me : Arming) :
    List (Alternative σ) → Simulation σ ω × Except SimError Unit
  | [] => (s, .ok ())
  | alternative :: rest =>
      match s.armOn B me alternative with
      | (s, .ok _) => armOnAll B s me rest
      | (s, .error e) => (s, .error e)

theorem armOnAll_singleton (B : Behaviours σ ω) (s : Simulation σ ω) (me : Arming) (alternative : Alternative σ) :
    s.armOnAll B me [alternative] = s.armOn B me alternative := by
  rw [armOnAll]
  generalize s.armOn B me alternative = result
  obtain ⟨s', _ | _⟩ := result <;> rfl

theorem armOnAll_append (s : Simulation σ ω) (me : Arming) (first rest : List (Alternative σ)) :
    s.armOnAll B me (first ++ rest) =
      match s.armOnAll B me first with
      | (s, .ok _) => s.armOnAll B me rest
      | (s, .error e) => (s, .error e) := by
  induction first generalizing s with
  | nil => rfl
  | cons alternative first ih =>
      rw [List.cons_append, armOnAll, armOnAll]
      generalize s.armOn B me alternative = result
      obtain ⟨s', _ | _⟩ := result
      · rfl
      · exact ih s'

/-- What each of the alternatives keeps, all of them keep. -/
theorem armOnAll_induction {P : Simulation σ ω → Prop} {s : Simulation σ ω} {me : Arming}
    {alternatives : List (Alternative σ)} (start : P s)
    (arms : ∀ s, ∀ alternative ∈ alternatives, P s → P (s.armOn B me alternative).1) :
    P (s.armOnAll B me alternatives).1 := by
  induction alternatives generalizing s with
  | nil => exact start
  | cons alternative rest ih =>
      have armed := arms s alternative List.mem_cons_self start
      rw [armOnAll]
      generalize s.armOn B me alternative = result at armed ⊢
      obtain ⟨s', e | _⟩ := result
      · exact armed
      · exact ih armed fun s later listed => arms s later (List.mem_cons_of_mem _ listed)

mutual

/-- To subscribe to a clause is to be armed on its alternatives. -/
theorem subscribe_eq (s : Simulation σ ω) (me : Arming) (clause : Clause σ) :
    s.subscribe B me clause = s.armOnAll B me clause.alternatives := by
  cases clause with
  | event signal => exact (armOnAll_singleton B s me (.trigger (.event signal))).symm
  | edge e => exact (armOnAll_singleton B s me (.trigger (.edge e))).symm
  | delay ticks => exact (armOnAll_singleton B s me (.delay ticks)).symm
  | noop => rfl
  | spawn child => rfl
  | any clauses =>
      cases clauses with
      | nil => rfl
      | cons clause rest => exact subscribeAll_eq s me (clause :: rest)
  | join clauses =>
      cases clauses with
      | nil => rfl
      | cons clause rest => rfl

theorem subscribeAll_eq (s : Simulation σ ω) (me : Arming) (clauses : List (Clause σ)) :
    s.subscribeAll B me clauses = s.armOnAll B me (Clause.alternativesOfAll clauses) := by
  cases clauses with
  | nil => rfl
  | cons clause rest =>
      rw [subscribeAll, Clause.alternativesOfAll, armOnAll_append, subscribe_eq s me clause]
      generalize s.armOnAll B me clause.alternatives = result
      obtain ⟨s', _ | _⟩ := result
      · rfl
      · exact subscribeAll_eq s' me rest

end

theorem watchAll_eq (B : Behaviours σ ω) (s : Simulation σ ω) (me : Arming) (triggers : List Trigger) :
    s.watchAll me triggers = s.armOnAll B me (triggers.map .trigger) := by
  induction triggers generalizing s with
  | nil => rfl
  | cons trigger rest ih =>
      rw [watchAll, List.map_cons, armOnAll, armOn]
      generalize s.watch me trigger = result
      obtain ⟨s', _ | _⟩ := result
      · rfl
      · exact ih s'

theorem arm_eq (s : Simulation σ ω) (me : Arming) (sensitivity : Sensitivity) :
    s.arm me sensitivity = s.armOnAll B me sensitivity.alternatives := by
  cases sensitivity with
  | triggers list => exact watchAll_eq B s me list
  | delay ticks => exact (armOnAll_singleton B s me (.delay ticks)).symm

/-- The branches of a join only come into the table, and become ready. -/
theorem addBranches_spec (B : Behaviours σ ω) (s : Simulation σ ω) (group : Nat)
    (clauses : List (Clause σ)) :
    ∃ waiters ready, clauses.foldl (addBranch B group) s = { s with waiters, ready } := by
  induction clauses generalizing s with
  | nil => exact ⟨s.waiters, s.ready, rfl⟩
  | cons clause rest ih =>
      obtain ⟨waiters, ready, same⟩ := ih (addBranch B group s clause)
      refine ⟨waiters, ready, ?_⟩
      rw [List.foldl_cons, same]
      cases clause <;> rfl

/-! ## Acting -/

/-- What the body of a waiter does when it is resumed, and the kernel and the world afterwards.
The waiter of a bridge watches the outputs. -/
def act (B : Behaviours σ ω) (kernel : Kernel) (world : ω) (outputs : List SignalId) :
    Body σ → Option (Act σ × Kernel × ω)
  | .process state =>
      match (B.resume state).run kernel world with
      | none => none
      | some (.error e, kernel, world) => some (.fails e, kernel, world)
      | some (.ok .done, kernel, world) => some (.completes, kernel, world)
      | some (.ok (.wait state clause), kernel, world) =>
          some (.waits (.process state) clause.alternatives, kernel, world)
  | .branch none => some (.completes, kernel, world)
  | .branch (some clause) => some (.waits (.branch none) clause.alternatives, kernel, world)
  | .shadow shadow =>
      match shadow.resume kernel with
      | (kernel, .error e) => some (.fails e, kernel, world)
      | (kernel, .ok none) => some (.completes, kernel, world)
      | (kernel, .ok (some clause)) =>
          some (.waits (.shadow shadow) clause.alternatives, kernel, world)
  | .always block false =>
      some (.waits (.always block true) block.sensitivity.alternatives, kernel, world)
  | .always block true =>
      match (B.react block.body).run kernel world with
      | none => none
      | some (.error e, kernel, world) => some (.fails e, kernel, world)
      | some (.ok body, kernel, world) =>
          some (.waits (.always { block with body } true) block.sensitivity.alternatives,
            kernel, world)
  | .outputs => some (.waits .outputs (outputs.map fun id => .trigger (.event id)), kernel, world)

/-- The ways of an act: a process or a block runs, a shadow is recomputed, or nothing is touched. -/
inductive ActWay (B : Behaviours σ ω) (k : Kernel) (w : ω) (outputs : List SignalId) :
    Body σ → Act σ → Kernel → ω → Prop where
  | process {state : σ} {answer : Except SimError (Step σ)} {k' : Kernel} {w' : ω}
      (ran : (B.resume state).run k w = some (answer, k', w')) :
      ActWay B k w outputs (.process state) (.ofStep answer) k' w'
  | shadow {shadow : Shadow} {answer : Except SimError (Option (Clause σ))} {k' : Kernel}
      (resumed : shadow.resume k = (k', answer)) :
      ActWay B k w outputs (.shadow shadow) (.ofShadow shadow answer) k' w
  | reacts {block : Always σ} {answer : Except SimError σ} {k' : Kernel} {w' : ω}
      (ran : (B.react block.body).run k w = some (answer, k', w')) :
      ActWay B k w outputs (.always block true) (.ofReaction block answer) k' w'
  | joins : ActWay B k w outputs (.branch none) .completes k w
  | branch (clause : Clause σ) :
      ActWay B k w outputs (.branch (some clause)) (.waits (.branch none) clause.alternatives) k w
  | begins (block : Always σ) :
      ActWay B k w outputs (.always block false)
        (.waits (.always block true) block.sensitivity.alternatives) k w
  | outputs :
      ActWay B k w outputs .outputs
        (.waits .outputs (outputs.map fun id => .trigger (.event id))) k w

theorem way_of_act {k k' : Kernel} {w w' : ω} {outputs : List SignalId} {body : Body σ}
    {done : Act σ} (acted : act B k w outputs body = some (done, k', w')) :
    ActWay B k w outputs body done k' w' := by
  cases body with
  | process state =>
      simp only [act] at acted
      cases ran : (B.resume state).run k w with
      | none => simp [ran] at acted
      | some turn =>
          obtain ⟨e | ⟨state', clause⟩ | _, k₁, w₁⟩ := turn
          all_goals
            simp only [ran] at acted
            cases acted
            exact .process ran
  | branch clause =>
      cases clause with
      | none =>
          cases acted
          exact .joins
      | some clause =>
          cases acted
          exact .branch clause
  | shadow shadow =>
      simp only [act] at acted
      cases resumed : Shadow.resume (σ := σ) k shadow with
      | mk k₁ answer =>
          obtain e | _ | clause := answer
          all_goals
            simp only [resumed] at acted
            cases acted
            exact .shadow resumed
  | always block started =>
      cases started with
      | false =>
          cases acted
          exact .begins block
      | true =>
          simp only [act] at acted
          cases ran : (B.react block.body).run k w with
          | none => simp [ran] at acted
          | some turn =>
              obtain ⟨e | body, k₁, w₁⟩ := turn
              all_goals
                simp only [ran] at acted
                cases acted
                exact .reacts ran
  | outputs =>
      cases acted
      exact .outputs

theorem act_of_way {k k' : Kernel} {w w' : ω} {outputs : List SignalId} {body : Body σ}
    {done : Act σ} (way : ActWay B k w outputs body done k' w') :
    act B k w outputs body = some (done, k', w') := by
  cases way with
  | @process state answer k' w' ran =>
      rw [act, ran]
      obtain e | ⟨state', clause⟩ | _ := answer <;> rfl
  | @shadow shadow answer k' resumed =>
      rw [act, resumed]
      obtain e | _ | clause := answer <;> rfl
  | @reacts block answer k' w' ran =>
      rw [act, ran]
      obtain e | body := answer <;> rfl
  | joins => rfl
  | branch clause => rfl
  | begins block => rfl
  | outputs => rfl

/-- The signals whose proposed values are read or written where a body does what it does. -/
def touched (B : Behaviours σ ω) (kernel : Kernel) (world : ω) : Body σ → List SignalId
  | .process state => (B.resume state).touched kernel world
  | .shadow shadow => Shadow.touched σ kernel shadow
  | .always block true => (B.react block.body).touched kernel world
  | _ => []

/-- What the books make of an act. -/
def settle (B : Behaviours σ ω) (s : Simulation σ ω) (me : Arming) :
    Act σ → Simulation σ ω × Except SimError Unit
  | .completes => (s.complete me.slot, .ok ())
  | .fails e => (s.drop me.slot e, .error e)
  | .waits body alternatives => s.rearm me.slot body fun s => s.armOnAll B me alternatives

/-- Whoever completes leaves the table, and may make another one ready. -/
theorem complete_spec (s : Simulation σ ω) (slot : Nat) :
    ∃ waiters ready, s.complete slot = { s with waiters, ready } := by
  have released (result : Option Arming × WaiterTable (Body σ)) :
      ∃ waiters ready, s.release result = { s with waiters, ready } := by
    obtain ⟨_ | caller, waiters⟩ := result <;> exact ⟨_, _, rfl⟩
  unfold complete
  generalize s.waiters.remove slot = result
  obtain ⟨_ | caller | group, waiters⟩ := result <;> exact released _

/-- A waiter is put back and armed, and dropped again if an alternative is refused. -/
theorem rearm_induction {P : Simulation σ ω → Prop} {s : Simulation σ ω} {slot : Nat}
    {body : Body σ} {armed : Simulation σ ω → Simulation σ ω × Except SimError Unit}
    (restored : P { s with waiters := s.waiters.restore slot body })
    (arms : ∀ s, P s → P (armed s).1) (drops : ∀ s e, P s → P (s.drop slot e)) :
    P (s.rearm slot body armed).1 := by
  have after := arms _ restored
  unfold rearm
  generalize armed { s with waiters := s.waiters.restore slot body } = result at after ⊢
  obtain ⟨s', e | _⟩ := result
  · exact drops s' e after
  · exact after

/-- The link after a body was resumed. -/
def noted (link : Option (Link ω)) : Body σ → Option (Link ω)
  | .outputs => link.map fun l => { l with changed := true }
  | _ => link

/-- The outputs of the bridge exist. -/
def OutputsKnown (s : Simulation σ ω) : Prop :=
  ∀ id ∈ s.outputs, (s.kernel.signal? id).isSome = true

/-- Putting a body back and noting a subscription can be done in either order. -/
theorem restore_noteSubscription {β : Type} (t : WaiterTable β) (slot : Nat) (body : β)
    (signal : SignalId) :
    (t.restore slot body).noteSubscription slot signal =
      (t.noteSubscription slot signal).restore slot body := by
  simp only [WaiterTable.restore, WaiterTable.noteSubscription, WaiterTable.modify]
  congr 1
  refine Array.ext_getElem? fun index => ?_
  simp only [Array.getElem?_modify]
  by_cases here : slot = index
  · simp only [if_pos here]
    rcases t.slots[index]? with _ | _ | waiter <;> rfl
  · simp only [if_neg here]

theorem watchAll_restore {s s' : Simulation σ ω} {me : Arming} {triggers : List Trigger}
    (body : Body σ) (watched : s.watchAll me triggers = (s', .ok ())) :
    ({ s with waiters := s.waiters.restore me.slot body } : Simulation σ ω).watchAll me triggers =
      ({ s' with waiters := s'.waiters.restore me.slot body }, .ok ()) := by
  induction triggers generalizing s with
  | nil =>
      cases watched
      rfl
  | cons trigger rest ih =>
      rw [watchAll] at watched ⊢
      unfold watch at watched ⊢
      dsimp only at watched ⊢
      cases known : s.kernel.signal? trigger.signal with
      | none => simp [known] at watched
      | some signal =>
          simp only [known] at watched ⊢
          rw [restore_noteSubscription]
          exact ih watched

theorem watchAll_of_known {s : Simulation σ ω} (me : Arming) (triggers : List Trigger)
    (known : ∀ trigger ∈ triggers, (s.kernel.signal? trigger.signal).isSome = true) :
    ∃ s', s.watchAll me triggers = (s', .ok ()) := by
  induction triggers generalizing s with
  | nil => exact ⟨s, rfl⟩
  | cons trigger rest ih =>
      obtain ⟨signal, found⟩ := Option.isSome_iff_exists.mp (known trigger (List.mem_cons_self ..))
      simp only [watchAll, watch, found]
      refine ih fun later listed => ?_
      have still := known later (List.mem_cons_of_mem _ listed)
      simp only [Kernel.signal?, Kernel.modify, Array.getElem?_modify] at still ⊢
      split
      · rw [Option.isSome_map]
        exact still
      · exact still

/-- The waiter of a bridge is armed like any other waiter. -/
theorem noteOutputs_eq {s : Simulation σ ω} (me : Arming) (known : s.OutputsKnown) :
    s.noteOutputs me =
      ({ s with link := noted (σ := σ) s.link .outputs } : Simulation σ ω).rearm me.slot .outputs
        fun s' => s'.armOnAll B me (s.outputs.map fun id => .trigger (.event id)) := by
  have known' : ∀ trigger ∈ s.outputs.map Trigger.event,
      (s.kernel.signal? trigger.signal).isSome = true := by
    intro trigger listed
    obtain ⟨id, output, rfl⟩ := List.mem_map.mp listed
    exact known id output
  obtain ⟨s', watched⟩ := watchAll_of_known
    (s := { s with link := noted (σ := σ) s.link .outputs }) me (s.outputs.map .event) known'
  have restored := watchAll_restore .outputs watched
  rw [watchAll_eq B, List.map_map] at restored
  unfold noteOutputs rearm
  dsimp only
  simp only [noted] at watched restored
  simp only [noted, Function.comp_def] at restored ⊢
  rw [watched, restored]

theorem noted_of_ne {link : Option (Link ω)} {body : Body σ} (elsewhere : body ≠ .outputs) :
    noted link body = link := by
  cases body with
  | outputs => exact absurd rfl elsewhere
  | _ => rfl

/-- Away from the waiter of a bridge, the outputs need not be known. -/
theorem runBody_eq_of_ne {body : Body σ} (elsewhere : body ≠ .outputs) (s : Simulation σ ω)
    (me : Arming) :
    runBody B s me body =
      (act B s.kernel s.world s.outputs body).map fun turn =>
        ({ s with kernel := turn.2.1, world := turn.2.2 } : Simulation σ ω).settle B me turn.1 := by
  cases body with
  | process state =>
      simp only [runBody, act]
      rcases (B.resume state).run s.kernel s.world with _ | ⟨e | ⟨state', clause⟩ | _, k, w⟩
      · rfl
      · rfl
      · simp only [subscribe_eq]
        rfl
      · rfl
  | branch clause =>
      cases clause with
      | none => rfl
      | some clause =>
          simp only [runBody, act, subscribe_eq]
          rfl
  | shadow shadow =>
      simp only [runBody, act]
      generalize Shadow.resume (σ := σ) s.kernel shadow = resumed
      obtain ⟨k, e | _ | clause⟩ := resumed
      · rfl
      · rfl
      · simp only [subscribe_eq]
        rfl
  | always block started =>
      cases started with
      | false =>
          simp only [runBody, act, arm_eq (B := B)]
          rfl
      | true =>
          simp only [runBody, act, arm_eq (B := B)]
          rcases (B.react block.body).run s.kernel s.world with _ | ⟨e | body, k, w⟩ <;> rfl
  | outputs => exact absurd rfl elsewhere

theorem watchAll_induction {P : Simulation σ ω → Prop} {s : Simulation σ ω} {me : Arming}
    (triggers : List Trigger) (start : P s) (watches : ∀ s t, P s → P (s.watch me t).1) :
    P (s.watchAll me triggers).1 := by
  induction triggers generalizing s with
  | nil => exact start
  | cons trigger rest ih =>
      have watched := watches s trigger start
      rw [watchAll]
      generalize s.watch me trigger = result at watched ⊢
      obtain ⟨s', e | _⟩ := result
      · exact watched
      · exact ih watched

/-- The waiter of a bridge notes the change and watches the outputs before it is put back. -/
theorem noteOutputs_induction {P : Simulation σ ω → Prop} {s : Simulation σ ω} {me : Arming}
    (noted : P { s with link := s.link.map fun (l : Link ω) => { l with changed := true } })
    (watches : ∀ s t, P s → P (s.watch me t).1)
    (restores : ∀ s, P s → P { s with waiters := s.waiters.restore me.slot .outputs }) :
    P (s.noteOutputs me).1 := by
  have watched := watchAll_induction (s.outputs.map .event) noted watches
  unfold noteOutputs
  dsimp only
  generalize watchAll _ me _ = result at watched ⊢
  obtain ⟨s', e | _⟩ := result
  · exact watched
  · exact restores s' watched

/-- The ways of one resume: the waiter of a bridge notes the outputs, and the act of any other one
is settled in the books. -/
inductive BodyWay (B : Behaviours σ ω) (s : Simulation σ ω) (me : Arming) :
    Body σ → Simulation σ ω → Except SimError Unit → Prop where
  | noted {s' : Simulation σ ω} {result : Except SimError Unit}
      (notes : s.noteOutputs me = (s', result)) : BodyWay B s me .outputs s' result
  | acted {body : Body σ} {done : Act σ} {kernel : Kernel} {world : ω} {s' : Simulation σ ω}
      {result : Except SimError Unit}
      (acted : act B s.kernel s.world s.outputs body = some (done, kernel, world))
      (settled : ({ s with kernel, world } : Simulation σ ω).settle B me done = (s', result)) :
      BodyWay B s me body s' result

theorem way_of_runBody {s s' : Simulation σ ω} {me : Arming} {body : Body σ}
    {result : Except SimError Unit} (ran : runBody B s me body = some (s', result)) :
    BodyWay B s me body s' result := by
  by_cases bridge : body = .outputs
  · subst bridge
    exact .noted (Option.some.inj ran)
  · rw [runBody_eq_of_ne bridge] at ran
    obtain ⟨⟨done, kernel, world⟩, acted, settled⟩ := Option.map_eq_some_iff.mp ran
    exact .acted acted settled

/-- One resume of a waiter is an act, settled in the books. -/
theorem runBody_eq {s : Simulation σ ω} (me : Arming) (body : Body σ) (known : s.OutputsKnown) :
    runBody B s me body =
      (act B s.kernel s.world s.outputs body).map fun turn =>
        ({ s with kernel := turn.2.1, world := turn.2.2, link := noted s.link body } :
          Simulation σ ω).settle B me turn.1 := by
  by_cases bridge : body = .outputs
  · subst bridge
    exact congrArg some (noteOutputs_eq me known)
  · rw [noted_of_ne bridge]
    exact runBody_eq_of_ne bridge s me

end Simulation

end DeltaCycle
