import DeltaCycle.Proofs.Audience
import DeltaCycle.Proofs.GuiseRuns

/-!
# Observers

Hooks and the marks on signals let somebody look at a simulation. A hook that never fails and that
leaves alone all but a part of the world that is its own makes no difference to what is looked at:
with the observers taken away, every session is the same.
-/

set_option autoImplicit false

namespace DeltaCycle

variable {σ ω τ τ' : Type}

/-- A hook that only looks on. It never fails, and of the world it changes the second part alone. -/
structure Hook.Harmless (h : Hook (ω × τ)) : Prop extends h.Spares Prod.fst where
  starts : ∀ traced w, (h.start traced w).2 = .ok ()
  changes : ∀ c w, (h.change c w).2 = .ok ()
  finishes : ∀ w, (h.finish w).2 = .ok ()

/-- The bridge, with the second part of the world given to it. -/
def Bridge.alone (m : τ) (b : Bridge (ω × τ)) : Bridge ω where
  outputs := b.outputs
  receive := fun time w => (b.receive time (w, m)).map Prod.fst id
  send := fun time values w => (b.send time values (w, m)).map Prod.fst id
  close := fun w => (b.close (w, m)).map Prod.fst id

/-- A hook that keeps what it is told in its own part of the world only looks on. -/
theorem Hook.harmless_recording (add : Change → τ → τ) :
    (Hook.recording fun c (w : ω × τ) => (w.1, add c w.2)).Harmless where
  start _ _ := rfl
  change _ _ := rfl
  finish _ := rfl
  starts _ _ := rfl
  changes _ _ := rfl
  finishes _ := rfl

/-- The kernel with no signal marked as traced. -/
def Kernel.unmarked (k : Kernel) : Kernel := k.retraced fun _ => false

/-- The settings for the trace change the marks alone. -/
theorem Kernel.unmarked_configure (k : Kernel) (config : Config) :
    (Simulation.configure k config).unmarked =
      { k with contention := config.contention }.unmarked := by
  unfold Simulation.configure
  split
  · simp only [unmarked, retraced, Array.map_map]
    rfl
  · rfl

/-- The guise without observers: no hook, no marks, and only the first part of the world. -/
def Guise.unobserved (m : τ) : Guise (ω × τ) ω where
  world := Prod.fst
  mark := fun _ => false
  hook := fun _ => none
  started := fun _ => true
  bridge := Bridge.alone m
  limit := id

/-! ## Taking the observers away -/

/-- What harmless observers are called for makes no difference to the first part of the world. -/
theorem Hook.call?_unobserved {hook : Option (Hook (ω × τ))}
    {call : Hook (ω × τ) → ω × τ → (ω × τ) × Except SimError Unit}
    (spares : ∀ h, hook = some h → ∀ w, (call h w).1.1 = w.1)
    (takes : ∀ h, hook = some h → ∀ w, (call h w).2 = .ok ()) (w : ω × τ) :
    (call? hook call w).map Prod.fst id = (w.1, .ok ()) := by
  cases hook with
  | none => rfl
  | some h => exact Prod.ext (spares h rfl w) (takes h rfl w)

namespace Simulation

/-- The hook only looks on, and the bridge leaves alone the part of the world that is the hook's. -/
structure Equipment.Modest (e : Equipment (ω × τ)) : Prop where
  hook : ∀ h, e.hook = some h → h.Harmless
  bridge : ∀ b, e.bridge = some b → ∃ b' : Bridge ω, b = b'.beside τ

theorem Equipment.Modest.suits {e : Equipment (ω × τ)} (modest : e.Modest) (m : τ) :
    (Guise.unobserved m).Suits e where
  began := rfl
  start told k w := by
    unfold Hook.start?
    cases told with
    | true => rfl
    | false =>
        exact (Hook.call?_unobserved (fun h hooked => (modest.hook h hooked).start _)
          (fun h hooked => (modest.hook h hooked).starts _) w).symm
  change traced c w := by
    unfold Hook.change?
    cases traced with
    | false => rfl
    | true =>
        exact (Hook.call?_unobserved (fun h hooked => (modest.hook h hooked).change c)
          (fun h hooked => (modest.hook h hooked).changes c) w).symm
  finish w := (Hook.call?_unobserved (fun h hooked => (modest.hook h hooked).finish)
    (fun h hooked => (modest.hook h hooked).finishes) w).symm
  bridge b linked := by
    obtain ⟨b, rfl⟩ := modest.bridge b linked
    exact ⟨rfl, fun _ _ => rfl, fun _ _ _ => rfl, fun _ => rfl⟩
  limit := Nat.le_refl _

/-- Behaviours that leave alone a second part of the world do the same without it. -/
theorem renders_unobserved (B : Behaviours σ ω) (m : τ) :
    (Guise.unobserved m).Renders (B.beside τ) B where
  name := rfl
  resume state k w := by
    simp only [Behaviours.beside, Activity.run_beside, Activity.run_retraced, Option.map_map]
    rfl
  react body k w := by
    simp only [Behaviours.beside, Activity.run_beside, Activity.run_retraced, Option.map_map]
    rfl

/-! ## Sessions without observers -/

/-- What remains of a move where nobody looks on. -/
def Move.unobserved? : Move (ω × τ) → Option (Move ω)
  | .call asked => some (.call asked)
  | .setHook _ => none
  | .setMaxDeltas maxDeltas => some (.setMaxDeltas maxDeltas)
  | .setDefaultDuration duration => some (.setDefaultDuration duration)

variable {B : Behaviours σ ω} {s : Simulation σ (ω × τ)}

theorem play_unobserved (modest : s.equipment.Modest) (m : τ) (fuel : Nat)
    {moves : List (Move (ω × τ))} (harmless : ∀ h, .setHook h ∈ moves → h.Harmless) :
    (s.inGuise (.unobserved m)).play B fuel (moves.filterMap Move.unobserved?) =
      (s.play (B.beside τ) fuel moves).map (Guise.unobserved m).on := by
  induction moves generalizing s with
  | nil => rfl
  | cons move moves ih =>
      have later (h : Hook (ω × τ)) (listed : .setHook h ∈ moves) : h.Harmless :=
        harmless h (.tail _ listed)
      cases move with
      | setHook hook =>
          have hooked : (s.setHook hook).equipment.Modest := by
            refine ⟨fun h same => ?_, modest.bridge⟩
            cases same
            exact harmless hook (.head _)
          exact ih hooked later
      | setMaxDeltas maxDeltas =>
          exact ih (s := s.setMaxDeltas maxDeltas) ⟨modest.hook, modest.bridge⟩ later
      | setDefaultDuration defaultDuration =>
          exact ih (s := { s with defaultDuration }) ⟨modest.hook, modest.bridge⟩ later
      | call call =>
          -- The limit is the same in this guise, so that no call is cut short.
          have answers := (answer_inGuise (renders_unobserved B m) (modest.suits m) fuel
            call).out_eq fun _ => rfl
          have listed : (Move.call call :: moves).filterMap Move.unobserved? =
              .call call :: moves.filterMap Move.unobserved? := rfl
          rw [listed, play, play, answers]
          cases answered : s.answer (B.beside τ) fuel call with
          | error stuck => rfl
          | ok turn =>
              obtain ⟨s₁, result⟩ := turn
              obtain ⟨defaultDuration, kept⟩ := equipment_answer answered
              have modest₁ : s₁.equipment.Modest := by
                rw [kept]
                exact ⟨modest.hook, modest.bridge⟩
              dsimp only [Except.map, Guise.on]
              rw [ih modest₁ later]
              cases s₁.play (B.beside τ) fuel moves <;> rfl

/-! ## Beginnings -/

theorem addShadows_inGuise {ω ω' : Type} (s : Simulation σ ω) (g : Guise ω ω') :
    (s.inGuise g).addShadows = s.addShadows.inGuise g := by
  have each (shadows : List Shadow) (s : Simulation σ ω) :
      shadows.foldl
          (fun s shadow => s.addWaiter (shadow.processName s.kernel) (.shadow shadow) none)
          (s.inGuise g) =
        (shadows.foldl
          (fun s shadow => s.addWaiter (shadow.processName s.kernel) (.shadow shadow) none)
          s).inGuise g := by
    induction shadows generalizing s with
    | nil => rfl
    | cons shadow rest ih =>
        have name : shadow.processName (s.inGuise g).kernel = shadow.processName s.kernel := by
          simp only [Shadow.processName, inGuise, Kernel.name_retraced]
        rw [List.foldl_cons, List.foldl_cons, name]
        exact ih (s.addWaiter (shadow.processName s.kernel) (.shadow shadow) none)
  exact each s.kernel.shadows s

/-- A bridge beside the part of the world that is the observers' is attached as it is without it. -/
theorem attach_unobserved (s : Simulation σ (ω × τ)) (m : τ) (b : Bridge ω) :
    (s.inGuise (.unobserved m)).attach b =
      (s.attach (b.beside τ)).map fun s => s.inGuise (.unobserved m) := by
  have linked : (s.inGuise (.unobserved m)).link.isSome = s.link.isSome := Option.isSome_map
  have unknown : (fun id => ((s.inGuise (.unobserved m)).kernel.signal? id).isNone) =
      fun id => (s.kernel.signal? id).isNone := by
    funext id
    simp only [inGuise, Kernel.signal?_retraced, Option.isNone_map]
  have outputs : (b.beside τ).outputs = b.outputs := rfl
  unfold attach
  rw [linked, unknown, outputs]
  split
  · rfl
  · split
    · rfl
    · split <;> rfl

theorem addInstance_unobserved (s : Simulation σ (ω × τ)) (m : τ) (i : Instance σ ω) :
    (s.inGuise (.unobserved m)).addInstance B i =
      (s.addInstance (B.beside τ) (i.beside τ)).map fun s => s.inGuise (.unobserved m) := by
  cases i with
  | process state => rfl
  | always block =>
      simp only [Instance.beside, addInstance]
      split <;> rfl
  | bridge b => exact s.attach_unobserved m b
  | group members => rfl

theorem addInstances_unobserved (s : Simulation σ (ω × τ)) (m : τ)
    (instances : List (Instance σ ω)) :
    (s.inGuise (.unobserved m)).addInstances B instances =
      (s.addInstances (B.beside τ) (instances.map (Instance.beside τ))).map fun s =>
        s.inGuise (.unobserved m) := by
  induction instances generalizing s with
  | nil => rfl
  | cons i rest ih =>
      rw [List.map_cons, addInstances, addInstances, addInstance_unobserved]
      cases s.addInstance (B.beside τ) (i.beside τ) with
      | error e => rfl
      | ok s₁ => exact ih s₁

end Simulation

namespace Instance

mutual

theorem flatten_beside (i : Instance σ ω) : (i.beside τ).flatten = i.flatten.map (beside τ) := by
  cases i with
  | process state => rfl
  | always block => rfl
  | bridge b => rfl
  | group members => exact flattenAll_besideAll members

theorem flattenAll_besideAll (instances : List (Instance σ ω)) :
    flattenAll (besideAll τ instances) = (flattenAll instances).map (beside τ) := by
  cases instances with
  | nil => rfl
  | cons i rest =>
      rw [besideAll, flattenAll, flattenAll, List.map_append, flatten_beside i,
        flattenAll_besideAll rest]

end

end Instance

namespace Simulation

variable {B : Behaviours σ ω}

theorem build_unobserved (kernel : Kernel) (instances : List (Instance σ ω)) (world : ω) (m : τ) :
    (build (B.beside τ) kernel (Instance.besideAll τ instances) (world, m)).map
        (fun s => s.inGuise (.unobserved m)) =
      ({ kernel := kernel.unmarked, hookStarted := true, world } :
        Simulation σ ω).addShadows.addInstances B (Instance.flattenAll instances) := by
  unfold build
  dsimp only
  rw [Instance.flattenAll_besideAll, ← addInstances_unobserved, ← addShadows_inGuise]
  rfl

theorem modest_of_build {kernel : Kernel} {instances : List (Instance σ ω)} {world : ω × τ}
    {s : Simulation σ (ω × τ)}
    (built : build (B.beside τ) kernel (Instance.besideAll τ instances) world = .ok s) :
    s.equipment.Modest := by
  obtain ⟨-, hook, link⟩ := outside_of_build built
  constructor
  · intro h hooked
    change s.hook = some h at hooked
    rw [hook] at hooked
    cases hooked
  · intro b linked
    change s.link.map Link.bridge = some b at linked
    rcases link with link | ⟨bridge, listed, link⟩
    · rw [link] at linked
      cases linked
    · rw [link] at linked
      cases linked
      exact Instance.exists_of_mem_flattenAll_beside instances listed

/-- What comes of a session, without the observers. -/
def SessionResult.unobserved (m : τ) (result : SessionResult σ (ω × τ)) : SessionResult σ ω :=
  result.map fun outcome => outcome.map (Guise.unobserved m).on

theorem session_unobserved (kernel : Kernel) (instances : List (Instance σ ω)) (world : ω) (m : τ)
    (fuel : Nat) {moves : List (Move (ω × τ))}
    (harmless : ∀ h, .setHook h ∈ moves → h.Harmless) :
    (session (B.beside τ) kernel (Instance.besideAll τ instances) (world, m) fuel
        moves).unobserved m =
      (({ kernel := kernel.unmarked, hookStarted := true, world } :
        Simulation σ ω).addShadows.addInstances B (Instance.flattenAll instances)).map
          fun s => s.play B fuel (moves.filterMap Move.unobserved?) := by
  rw [← build_unobserved kernel instances world m]
  unfold session SessionResult.unobserved
  cases built : build (B.beside τ) kernel (Instance.besideAll τ instances) (world, m) with
  | error e => rfl
  | ok s =>
      have plays := play_unobserved (B := B) (modest_of_build built) m fuel harmless
      exact congrArg Except.ok plays.symm

/-- Observers do not influence a simulation. Take a design with whatever marks on its signals, and a
session with whatever hooks, if only these look on. Then the session is refused alike, gets stuck
alike, or returns the same and leaves the same simulation, but for the marks and the hooks: the same
kernel with its values, clock and diagnostics, the same waiters, queue and counters, the same world
and the same calls on the bridge. -/
theorem observers_do_not_influence_the_simulation {kernel kernel' : Kernel}
    (design : kernel'.unmarked = kernel.unmarked) (B : Behaviours σ ω)
    (instances : List (Instance σ ω)) (world : ω) (m : τ) (m' : τ') (fuel : Nat)
    {moves : List (Move ((ω × List BridgeCall) × τ))}
    {moves' : List (Move ((ω × List BridgeCall) × τ'))}
    (same : moves'.filterMap Move.unobserved? = moves.filterMap Move.unobserved?)
    (harmless : ∀ h, .setHook h ∈ moves → h.Harmless)
    (harmless' : ∀ h, .setHook h ∈ moves' → h.Harmless) :
    (session ((B.beside (List BridgeCall)).beside τ') kernel'
        (Instance.besideAll τ' (Instance.tappedAll instances)) ((world, []), m') fuel
        moves').unobserved m' =
      (session ((B.beside (List BridgeCall)).beside τ) kernel
        (Instance.besideAll τ (Instance.tappedAll instances)) ((world, []), m) fuel
        moves).unobserved m := by
  -- Either session is that of the unmarked design with nobody looking on.
  rw [session_unobserved kernel' _ _ _ fuel harmless', session_unobserved kernel _ _ _ fuel harmless,
    design, same]

/-- A hook that counts changes. -/
def counting : Hook ((Unit × List BridgeCall) × Nat) := .recording fun _ w => (w.1, w.2 + 1)

/-- An engine that drives the first column. -/
def filler : Bridge Unit where
  outputs := []
  receive _ w := (w, .ok [(⟨0⟩, .int 9)])
  send _ _ w := (w, .ok ())
  close w := (w, .ok ())

/-- A session of the tally, beside an engine that drives one of its columns. -/
def attended (τ : Type) (kernel : Kernel) (m : τ)
    (moves : List (Move ((Unit × List BridgeCall) × τ))) :
    SessionResult Unit ((Unit × List BridgeCall) × τ) :=
  session ((tally.beside (List BridgeCall)).beside τ) kernel
    (Instance.besideAll τ (Instance.tappedAll [.process (), .bridge filler])) (((), []), m) 9 moves

/-- Whether a session finishes after a single run and leaves these calls and this count. -/
def finishesWith (calls : List BridgeCall) (count : Nat) :
    SessionResult Unit ((Unit × List BridgeCall) × Nat) → Bool
  | .ok (.ok (s, results)) =>
      decide (results = [.ok (.finished .noMoreEvents)] ∧ s.world.1.2 = calls ∧ s.world.2 = count)
  | _ => false

/-- A hook counts the changes: one by the tally in each column, and then one by the engine. Nobody
notices: without the hook, and where only the second column is traced, the run is the same. -/
theorem the_tally_goes_on_uncounted :
    ∃ s s', attended Nat columns 0 [.setHook counting, .call (.run (some 1))] =
        .ok (.ok (s, [.ok (.finished .noMoreEvents)])) ∧
      s.world.2 = 3 ∧
      attended Unit (configure columns countsOnly) () [.call (.run (some 1))] =
        .ok (.ok (s', [.ok (.finished .noMoreEvents)])) ∧
      s'.world.1.2 = [.send 0 [], .receive 0, .send 0 [], .receive 0, .close] ∧
      s'.inGuise (.unobserved ()) = s.inGuise (.unobserved 0) := by
  have counts : finishesWith [.send 0 [], .receive 0, .send 0 [], .receive 0, .close] 3
      (attended Nat columns 0 [.setHook counting, .call (.run (some 1))]) = true := by
    decide +kernel
  have design : (configure columns countsOnly).unmarked = columns.unmarked := by
    rw [Kernel.unmarked_configure]
    rfl
  have harmless : ∀ h, .setHook h ∈ ([.setHook counting, .call (.run (some 1))] :
      List (Move ((Unit × List BridgeCall) × Nat))) → h.Harmless := by
    intro h listed
    rcases List.mem_cons.mp listed with same | called
    · cases same
      exact Hook.harmless_recording fun _ count => count + 1
    · cases List.mem_singleton.mp called
  have unhooked : ∀ h, .setHook h ∈ ([.call (.run (some 1))] :
      List (Move ((Unit × List BridgeCall) × Unit))) → h.Harmless := by
    intro h listed
    cases List.mem_singleton.mp listed
  have unnoticed : (attended Unit (configure columns countsOnly) ()
        [.call (.run (some 1))]).unobserved () =
      (attended Nat columns 0 [.setHook counting, .call (.run (some 1))]).unobserved 0 :=
    observers_do_not_influence_the_simulation design tally [.process (), .bridge filler] () 0 ()
      9 rfl harmless unhooked
  generalize attended Nat columns 0 [.setHook counting, .call (.run (some 1))] = counted,
    attended Unit (configure columns countsOnly) () [.call (.run (some 1))] = uncounted
    at counts unnoticed ⊢
  unfold finishesWith at counts
  split at counts
  · next s results =>
      obtain ⟨rfl, calls, count⟩ := of_decide_eq_true counts
      rcases uncounted with e | stuck | ⟨s', results'⟩
      · cases unnoticed
      · cases unnoticed
      · obtain ⟨left, returned⟩ := Prod.mk.inj (Except.ok.inj (Except.ok.inj unnoticed))
        dsimp only at returned
        subst returned
        have world : s'.world.1 = s.world.1 := congrArg Simulation.world left
        exact ⟨s, s', rfl, count, rfl, world ▸ calls, left⟩
  · cases counts

end Simulation

end DeltaCycle
