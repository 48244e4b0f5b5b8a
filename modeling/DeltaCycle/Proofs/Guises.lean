import DeltaCycle.Proofs.Equipment
import DeltaCycle.Proofs.Retracing

/-!
# Guises

A simulation can be put in another guise: with other marks on its signals, another hook, a bridge and
a world of another kind, and another limit of delta cycles. If nothing that happens inside of it can
tell the difference, it does the same in either guise. Here this is shown up to the end of a round and
of an exchange.
-/

set_option autoImplicit false

namespace DeltaCycle

variable {σ ω ω' α : Type}

/-- What a simulation is put into. -/
structure Guise (ω ω' : Type) where
  world : ω → ω'
  mark : Bool → Bool
  hook : Option (Hook ω) → Option (Hook ω')
  /-- Whether the hook counts as told of the start. -/
  started : Bool → Bool
  bridge : Bridge ω → Bridge ω'
  limit : Nat → Nat

/-- A link in a guise. -/
def Guise.link (g : Guise ω ω') (l : Link ω) : Link ω' where
  bridge := g.bridge l.bridge
  changed := l.changed
  awaitingReply := l.awaitingReply
  closed := l.closed

/-! ## Calls on hooks -/

namespace Hook

/-- What comes of a call on a hook, if there is one. -/
def call? (hook : Option (Hook ω)) (call : Hook ω → ω → ω × Except SimError Unit) (w : ω) :
    ω × Except SimError Unit :=
  match hook with
  | none => (w, .ok ())
  | some h => call h w

/-- What comes of telling a hook of the start, unless it was told already. -/
def start? (hook : Option (Hook ω)) (told : Bool) (traced : List Traced) (w : ω) :
    ω × Except SimError Unit :=
  if told then (w, .ok ()) else call? hook (·.start traced) w

/-- What comes of telling a hook of a change of a signal, if the signal is traced. -/
def change? (hook : Option (Hook ω)) (traced : Bool) (c : Change) (w : ω) :
    ω × Except SimError Unit :=
  if traced then call? hook (·.change c) w else (w, .ok ())

end Hook

namespace Simulation

/-- The simulation in a guise. -/
def inGuise (s : Simulation σ ω) (g : Guise ω ω') : Simulation σ ω' where
  kernel := s.kernel.retraced g.mark
  waiters := s.waiters
  ready := s.ready
  queue := s.queue
  stale := s.stale
  hook := g.hook s.hook
  hookStarted := g.started s.hookStarted
  link := s.link.map g.link
  state := s.state
  delta := s.delta
  maxDeltas := g.limit s.maxDeltas
  defaultDuration := s.defaultDuration
  stats := s.stats
  world := g.world s.world

end Simulation

namespace Guise

open Simulation (Equipment tracedSignals)

/-- What a transition gives, in a guise. -/
def on (g : Guise ω ω') (p : Simulation σ ω × α) : Simulation σ ω' × α := (p.1.inGuise g, p.2)

/-- In a guise, the bridge answers as it does otherwise. -/
structure Serves (g : Guise ω ω') (b : Bridge ω) : Prop where
  outputs : (g.bridge b).outputs = b.outputs
  receive : ∀ time w,
    (g.bridge b).receive time (g.world w) = (b.receive time w).map g.world id
  send : ∀ time values w,
    (g.bridge b).send time values (g.world w) = (b.send time values w).map g.world id
  close : ∀ w, (g.bridge b).close (g.world w) = (b.close w).map g.world id

/-- Nothing inside of a simulation with this equipment can tell whether it is in a guise. The limit
may be wider in the guise. -/
structure Suits (g : Guise ω ω') (e : Equipment ω) : Prop where
  began : g.started true = true
  start : ∀ (told : Bool) (k : Kernel) (w : ω),
    Hook.start? (g.hook e.hook) (g.started told) (tracedSignals (k.retraced g.mark)) (g.world w) =
      (Hook.start? e.hook told (tracedSignals k) w).map g.world id
  change : ∀ (traced : Bool) (c : Change) (w : ω),
    Hook.change? (g.hook e.hook) (g.mark traced) c (g.world w) =
      (Hook.change? e.hook traced c w).map g.world id
  finish : ∀ w, Hook.call? (g.hook e.hook) Hook.finish (g.world w) =
    (Hook.call? e.hook Hook.finish w).map g.world id
  bridge : ∀ b, e.bridge = some b → g.Serves b
  limit : e.maxDeltas ≤ g.limit e.maxDeltas

/-- The behaviours in a guise do what the others do. -/
structure Renders (g : Guise ω ω') (B : Behaviours σ ω) (B' : Behaviours σ ω') : Prop where
  name : B'.name = B.name
  resume : ∀ state k w, (B'.resume state).run (k.retraced g.mark) (g.world w) =
    ((B.resume state).run k w).map fun turn => (turn.1, turn.2.1.retraced g.mark, g.world turn.2.2)
  react : ∀ body k w, (B'.react body).run (k.retraced g.mark) (g.world w) =
    ((B.react body).run k w).map fun turn => (turn.1, turn.2.1.retraced g.mark, g.world turn.2.2)

end Guise

namespace Simulation

variable {g : Guise ω ω'} {B : Behaviours σ ω} {B' : Behaviours σ ω'} {s s' : Simulation σ ω}

/-- A guise that suits the equipment of a simulation. -/
def Fits (g : Guise ω ω') (s : Simulation σ ω) : Prop := g.Suits s.equipment

theorem Fits.of_equipment (fits : s.Fits g) (same : s'.equipment = s.equipment) : s'.Fits g := by
  unfold Fits
  rw [same]
  exact fits

/-! ## Commits -/

theorem report_eq (s : Simulation σ ω) (id : SignalId) (old : Value) :
    s.report id old =
      match s.kernel.signal? id with
      | none => (s, .ok ())
      | some signal =>
          let told := Hook.change? s.hook signal.traced
            ⟨s.kernel.now, id, signal.name, old, signal.val⟩ s.world
          ({ s with world := told.1 }, told.2) := by
  -- The state that is left holds the hook too, so that it is set apart before it is looked at.
  have each (hook : Option (Hook ω)) : report { s with hook } id old =
      match s.kernel.signal? id with
      | none => ({ s with hook }, .ok ())
      | some signal =>
          let told := Hook.change? hook signal.traced
            ⟨s.kernel.now, id, signal.name, old, signal.val⟩ s.world
          ({ s with hook, world := told.1 }, told.2) := by
    unfold report Hook.change? Hook.call?
    cases hook <;> cases s.kernel.signal? id with
    | none => rfl
    | some signal =>
        dsimp only
        split <;> rfl
  exact each s.hook

theorem report_inGuise (fits : s.Fits g) (id : SignalId) (old : Value) :
    (s.inGuise g).report id old = g.on (s.report id old) := by
  rw [report_eq, report_eq]
  simp only [inGuise, Kernel.signal?_retraced, Kernel.now_retraced]
  cases s.kernel.signal? id with
  | none => rfl
  | some signal =>
      have told := fits.change signal.traced
        ⟨s.kernel.now, id, signal.name, old, signal.val⟩ s.world
      dsimp only [Option.map_some, Signal.retraced]
      change Hook.change? (g.hook s.hook) _ _ _ = _ at told
      rw [told]
      rfl

theorem absorb_inGuise (fits : s.Fits g) (id : SignalId) (commit : Commit) :
    (s.inGuise g).absorb id commit = g.on (s.absorb id commit) := by
  cases commit with
  | unchanged => rfl
  | deferred delay value stamp =>
      have ahead : (s.inGuise g).after delay = s.after delay := rfl
      simp only [absorb, ahead]
      cases s.after delay <;> rfl
  | changed old woken =>
      exact report_inGuise (s := { s with
        stats := { s.stats with commits := s.stats.commits + 1 }
        ready := s.ready.append woken }) fits id old

theorem step_inGuise (fits : s.Fits g) (id : SignalId) {f : Signal → Signal × Commit}
    (impartial : Signal.Impartial f) : (s.inGuise g).step id f = g.on (s.step id f) := by
  unfold step
  simp only [inGuise, Kernel.signal?_retraced]
  cases s.kernel.signal? id with
  | none => rfl
  | some signal =>
      dsimp only [Option.map_some]
      rw [impartial g.mark signal]
      have same : (s.kernel.retraced g.mark).modify id (fun _ => (f signal).1.retraced g.mark) =
          (s.kernel.modify id fun _ => (f signal).1).retraced g.mark :=
        s.kernel.modify_retraced id fun _ => rfl
      dsimp only
      rw [same]
      exact absorb_inGuise (s := { s with kernel := s.kernel.modify id fun _ => (f signal).1 })
        fits id _

theorem updateAll_inGuise (fits : s.Fits g) (failure : Except SimError Unit)
    (ids : List SignalId) :
    (s.inGuise g).updateAll failure ids = g.on (s.updateAll failure ids) := by
  induction ids generalizing s failure with
  | nil => rfl
  | cons id rest ih =>
      rw [updateAll, updateAll, step_inGuise fits id Signal.impartial_update]
      exact ih (fits.of_equipment (s.equipment_step id _)) _

theorem commitPending_inGuise (fits : s.Fits g) :
    (s.inGuise g).commitPending = g.on s.commitPending :=
  updateAll_inGuise (s := { s with kernel := { s.kernel with pending := [] } }) fits _ _

theorem fire_inGuise (fits : s.Fits g) (payload : Payload) :
    (s.inGuise g).fire payload = g.on (s.fire payload) := by
  cases payload with
  | wake a => rfl
  | apply id value stamp => exact step_inGuise fits id (Signal.impartial_applyDeferred value stamp)

theorem drainUpTo_inGuise (fits : s.Fits g) (count time : Nat) :
    drainUpTo count (s.inGuise g) time = g.on (drainUpTo count s time) := by
  induction count generalizing s with
  | zero => rfl
  | succ count ih =>
      have queue : (s.inGuise g).queue = s.queue := rfl
      simp only [drainUpTo, queue]
      cases s.queue.popDue time with
      | none => rfl
      | some due =>
          obtain ⟨payload, rest⟩ := due
          have fits' : ({ s with queue := rest } : Simulation σ ω).Fits g := fits
          have fires : fire { s.inGuise g with queue := rest } payload =
              g.on (fire { s with queue := rest } payload) := fire_inGuise fits' payload
          have kept := equipment_fire { s with queue := rest } payload
          dsimp only
          rw [fires]
          generalize fire { s with queue := rest } payload = result at kept ⊢
          obtain ⟨s₁, _ | _⟩ := result
          · rfl
          · exact ih (fits'.of_equipment kept)

/-! ## Arming -/

theorem unseen_inGuise (g : Guise ω ω') : Unseen fun s : Simulation σ ω => s.inGuise g where
  now _ := rfl
  known s id := by simp only [inGuise, Kernel.signal?_retraced, Option.isSome_map]
  waiters _ := rfl
  ready _ := rfl
  queue _ := rfl
  setWaiters _ _ := rfl
  setReady _ _ := rfl
  setQueue _ _ := rfl
  enlists s me t := by
    have same : (s.kernel.retraced g.mark).modify t.signal
          (fun signal => { signal with waits := enlist me signal.waits t }) =
        (s.kernel.modify t.signal
          fun signal => { signal with waits := enlist me signal.waits t }).retraced g.mark :=
      s.kernel.modify_retraced t.signal fun _ => rfl
    simp only [inGuise, same]
  emits _ _ := rfl

/-! ## Resuming -/

section Resuming

variable (s : Simulation σ ω) (g : Guise ω ω')

/-- What a body does is the same in a guise. -/
theorem act_inGuise (renders : g.Renders B B') (k : Kernel) (w : ω) (outputs : List SignalId)
    (body : Body σ) :
    act B' (k.retraced g.mark) (g.world w) outputs body =
      (act B k w outputs body).map fun turn =>
        (turn.1, turn.2.1.retraced g.mark, g.world turn.2.2) := by
  cases body with
  | process state =>
      simp only [act, renders.resume]
      rcases (B.resume state).run k w with _ | ⟨_ | _ | _, k', w'⟩ <;> rfl
  | branch clause => cases clause <;> rfl
  | shadow shadow =>
      simp only [act, Shadow.resume_retraced]
      rcases shadow.resume (σ := σ) k with ⟨k', _ | _ | _⟩ <;> rfl
  | always block started =>
      cases started with
      | false => rfl
      | true =>
          simp only [act, renders.react]
          rcases (B.react block.body).run k w with _ | ⟨_ | _, k', w'⟩ <;> rfl
  | outputs => rfl

variable {s g}

theorem outputs_inGuise (fits : s.Fits g) : (s.inGuise g).outputs = s.outputs := by
  have serves := fits.bridge
  unfold outputs
  simp only [inGuise]
  cases linked : s.link with
  | none => rfl
  | some l =>
      have served := serves l.bridge (by simp only [equipment, linked, Option.map_some])
      exact served.outputs

theorem noteOutputs_inGuise (fits : s.Fits g) (me : Arming) :
    (s.inGuise g).noteOutputs me = g.on (s.noteOutputs me) := by
  have noted : ({ s.inGuise g with
      link := (s.inGuise g).link.map fun (l : Link ω') => { l with changed := true } } :
        Simulation σ ω') =
      { s with link := s.link.map fun (l : Link ω) => { l with changed := true } }.inGuise g := by
    simp only [inGuise, Option.map_map]
    rfl
  unfold noteOutputs
  dsimp only
  rw [noted, outputs_inGuise fits, (unseen_inGuise g).watchAll]
  rcases watchAll _ me (s.outputs.map .event) with ⟨s, _ | _⟩ <;> rfl

theorem runBody_inGuise (renders : g.Renders B B') (fits : s.Fits g) (me : Arming)
    (body : Body σ) : runBody B' (s.inGuise g) me body = (runBody B s me body).map g.on := by
  by_cases bridge : body = .outputs
  · subst bridge
    exact congrArg some (noteOutputs_inGuise fits me)
  · have acts := act_inGuise g renders s.kernel s.world s.outputs body
    rw [runBody_eq_of_ne bridge, runBody_eq_of_ne bridge, outputs_inGuise fits]
    simp only [inGuise]
    rw [acts, Option.map_map, Option.map_map]
    refine congrArg (Option.map · _) (funext fun turn => ?_)
    exact (unseen_inGuise g).settle { s with kernel := turn.2.1, world := turn.2.2 } renders.name me turn.1

theorem runWaiter_inGuise (renders : g.Renders B B') (fits : s.Fits g) (a : Arming) :
    runWaiter B' (s.inGuise g) a = (runWaiter B s a).map g.on := by
  have table : (s.inGuise g).waiters = s.waiters := rfl
  unfold runWaiter
  rw [table]
  rcases s.waiters.consume a with ⟨_ | ⟨me, body, stale⟩, waiters⟩
  · rfl
  · exact runBody_inGuise (s := noteStale { s with
      waiters, stats := { s.stats with resumes := s.stats.resumes + 1 } } stale) renders fits me body

theorem runReady_inGuise (renders : g.Renders B B') (fits : s.Fits g) (fuel : Nat)
    (failure : Except SimError Unit) :
    runReady B' fuel (s.inGuise g) failure = (runReady B fuel s failure).map g.on := by
  induction fuel generalizing s failure with
  | zero =>
      have ready : (s.inGuise g).ready = s.ready := rfl
      simp only [runReady, ready]
      split <;> rfl
  | succ fuel ih =>
      have ready : (s.inGuise g).ready = s.ready := rfl
      simp only [runReady, ready]
      cases s.ready.pop? with
      | none => rfl
      | some next =>
          obtain ⟨a, rest⟩ := next
          have resumes : runWaiter B' { s.inGuise g with ready := rest } a =
              (runWaiter B { s with ready := rest } a).map g.on :=
            runWaiter_inGuise (s := { s with ready := rest }) renders fits a
          dsimp only
          rw [resumes]
          cases resumed : runWaiter B { s with ready := rest } a with
          | none => rfl
          | some turn =>
              have kept := equipment_runWaiter resumed
              exact ih (fits.of_equipment kept) _

end Resuming

/-! ## Between rounds -/

theorem purge_inGuise (s : Simulation σ ω) (g : Guise ω ω') :
    (s.inGuise g).purge = s.purge.inGuise g := by
  have each (ids : List SignalId) (k : Kernel) (keep : Arming → Bool) :
      ids.foldl (fun k id => k.modify id (purged keep)) (k.retraced g.mark) =
        (ids.foldl (fun k id => k.modify id (purged keep)) k).retraced g.mark := by
    induction ids generalizing k with
    | nil => rfl
    | cons id rest ih =>
        have first : (k.retraced g.mark).modify id (purged keep) =
            (k.modify id (purged keep)).retraced g.mark := k.modify_retraced id fun _ => rfl
        rw [List.foldl_cons, List.foldl_cons, first]
        exact ih _
  rw [purge_eq, purge_eq]
  simp only [inGuise, each]

theorem snapshot_retraced (k : Kernel) (mark : Bool → Bool) (outputs : List SignalId) :
    snapshot (k.retraced mark) outputs = snapshot k outputs := by
  simp only [snapshot, Kernel.val?_retraced]

theorem sendOutputs_inGuise {b : Bridge ω} (serves : g.Serves b) :
    (s.inGuise g).sendOutputs (g.bridge b) = g.on (s.sendOutputs b) := by
  have sent := serves.send s.kernel.now (snapshot s.kernel b.outputs) s.world
  unfold sendOutputs
  simp only [inGuise, Kernel.now_retraced, serves.outputs, snapshot_retraced, sent]
  rcases b.send s.kernel.now (snapshot s.kernel b.outputs) s.world with ⟨world, _ | _⟩
  · rfl
  · simp only [Prod.map, id_eq, changeLink, Option.map_map]
    simp only [Guise.on, inGuise, Option.map_map]
    rfl

theorem takeIn_inGuise (s : Simulation σ ω) (g : Guise ω ω') (changed : Bool)
    (values : List (SignalId × Value)) :
    (s.inGuise g).takeIn changed values = g.on (s.takeIn changed values) := by
  induction values generalizing s changed with
  | nil => rfl
  | cons value rest ih =>
      obtain ⟨id, value⟩ := value
      have differs (k k' : Kernel) :
          proposalDiffers (k.retraced g.mark) (k'.retraced g.mark) id = proposalDiffers k k' id := by
        simp only [proposalDiffers, Kernel.signal?_retraced]
        cases k.signal? id <;> cases k'.signal? id <;> rfl
      simp only [takeIn, inGuise, Kernel.write_retraced]
      rcases s.kernel.write id value false with ⟨kernel, _ | _⟩
      · rfl
      · dsimp only
        rw [differs]
        exact ih { s with kernel } _

theorem readReply_inGuise {l : Link ω} (serves : g.Serves l.bridge) :
    (s.inGuise g).readReply (g.link l) = g.on (s.readReply l) := by
  have heard := serves.receive s.kernel.now s.world
  unfold readReply
  simp only [Guise.link, changeLink, inGuise, Kernel.now_retraced, heard]
  split
  · rcases l.bridge.receive s.kernel.now s.world with ⟨world, _ | values⟩
    · simp only [Prod.map, id_eq, Guise.on, inGuise, Option.map_map]
      rfl
    · have taken := takeIn_inGuise
        { s with link := s.link.map fun l => { l with awaitingReply := false }, world } g false values
      simp only [inGuise, Option.map_map] at taken
      simp only [Prod.map, id_eq, Option.map_map]
      exact taken
  · rfl

theorem openLink?_inGuise (s : Simulation σ ω) (g : Guise ω ω') :
    (s.inGuise g).openLink? = s.openLink?.map g.link := by
  simp only [openLink?, inGuise]
  cases s.link with
  | none => rfl
  | some l =>
      simp only [Option.map_some, Option.filter_some]
      cases closed : l.closed <;> simp [Guise.link, closed]

theorem Fits.serves (fits : s.Fits g) {l : Link ω} (linked : s.openLink? = some l) :
    g.Serves l.bridge := by
  have present := link_of_openLink? linked
  refine fits.bridge l.bridge ?_
  simp only [equipment, present, Option.map_some]

theorem exchange_inGuise (fits : s.Fits g) : (s.inGuise g).exchange = g.on s.exchange := by
  unfold exchange
  rw [openLink?_inGuise]
  cases linked : s.openLink? with
  | none => rfl
  | some l =>
      have serves := fits.serves linked
      dsimp only [Option.map_some]
      rw [readReply_inGuise serves]
      rcases s.readReply l with ⟨s₁, _ | inbound⟩
      · rfl
      · have sent : (s₁.inGuise g).sendOutputs (g.link l).bridge =
            g.on (s₁.sendOutputs l.bridge) := sendOutputs_inGuise serves
        have changed : (g.link l).changed = l.changed := rfl
        dsimp only [Guise.on]
        rw [changed]
        split
        · rw [sent]
          rcases s₁.sendOutputs l.bridge with ⟨s₂, _ | _⟩ <;> rfl
        · rfl

end Simulation

end DeltaCycle
