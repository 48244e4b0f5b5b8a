import DeltaCycle.Proofs.Equipment
import DeltaCycle.Proofs.Pace

/-!
# Candour

One of the errors tells that a tick took more delta cycles than the limit allows. A process, a block
or a hook may fail with any error, with this one too. If none of them does, then nothing fails with
it, but for a simulation that goes past the limit.
-/

set_option autoImplicit false

namespace DeltaCycle

variable {σ ω α β ε : Type}

/-- Whether an error tells of the limit of delta cycles. -/
def SimError.isLimit : SimError → Bool
  | .deltaCycleLimit .. => true
  | _ => false

/-- What fails, if it does, not with the error that tells of the limit. -/
def Candid : Except SimError α → Prop
  | .ok _ => True
  | .error e => e.isLimit = false

/-- Processes and blocks do not fail with the error that tells of the limit. -/
structure Behaviours.Candid (B : Behaviours σ ω) : Prop where
  resume : ∀ state k w turn, (B.resume state).run k w = some turn → DeltaCycle.Candid turn.1
  react : ∀ body k w turn, (B.react body).run k w = some turn → DeltaCycle.Candid turn.1

/-- A hook does not fail with the error that tells of the limit. -/
structure Hook.Candid (h : Hook ω) : Prop where
  start : ∀ traced w, DeltaCycle.Candid (h.start traced w).2
  change : ∀ c w, DeltaCycle.Candid (h.change c w).2
  finish : ∀ w, DeltaCycle.Candid (h.finish w).2

theorem candid_ok (a : α) : Candid (.ok a) := trivial

theorem Candid.map {result : Except SimError α} (candid : Candid result) (f : α → β) :
    Candid (result.map f) := by
  cases result with
  | ok a => trivial
  | error e => exact candid

theorem candid_mapError {f : ε → SimError} (others : ∀ cause, (f cause).isLimit = false)
    (result : Except ε α) : Candid (result.mapError f) := by
  cases result with
  | ok a => trivial
  | error cause => exact others cause

theorem SimError.isLimit_ofValueError (cause : ValueError) : (ofValueError cause).isLimit = false := by
  cases cause <;> rfl

theorem SimError.isLimit_onSignal (name : String) (cause : ValueError) :
    (onSignal name cause).isLimit = false := by
  cases cause <;> rfl

/-! ## Signals -/

namespace Kernel

variable (k : Kernel)

theorem candid_lookup (id : SignalId) : Candid (k.lookup id) := by
  unfold lookup
  split
  · trivial
  · rfl

theorem candid_val (id : SignalId) : Candid (k.val id) := (k.candid_lookup id).map _

theorem candid_write (id : SignalId) (value : Value) (fromRule : Bool) :
    Candid (k.write id value fromRule).2 := by
  have proposes : Candid (k.proposal id value fromRule) := by
    have looks := k.candid_lookup id
    unfold proposal
    cases found : k.lookup id with
    | error e =>
        rw [found] at looks
        exact looks
    | ok s =>
        dsimp only
        split
        · rfl
        · split
          · rfl
          · exact candid_mapError (SimError.isLimit_onSignal s.name) _
  unfold write
  cases proposed : k.proposal id value fromRule with
  | error e =>
      rw [proposed] at proposes
      exact proposes
  | ok next => trivial

theorem candid_partValues (parts : List ConcatPart) : Candid (k.partValues parts) := by
  induction parts with
  | nil => trivial
  | cons part rest ih =>
      have first : Candid (k.partValue part) := by
        cases part with
        | signal id => exact k.candid_val id
        | literal v => trivial
      rw [partValues]
      cases value : k.partValue part with
      | error e =>
          rw [value] at first
          exact first
      | ok v => exact ih.map _

end Kernel

namespace Shadow

variable (k : Kernel)

theorem candid_derive (parent : SignalId) (f : Value → Except ValueError Value) :
    Candid (derive k parent f) := by
  have reads := k.candid_val parent
  unfold derive
  split
  · next refused =>
      rw [refused] at reads
      exact reads
  · trivial
  · exact candid_mapError SimError.isLimit_ofValueError _

theorem candid_evaluate (s : Shadow) : Candid (s.evaluate k).2 := by
  unfold evaluate
  cases s.rule with
  | slice parent hi lo => exact candid_derive k parent _
  | bit parent index => exact candid_derive k parent _
  | concat parts =>
      have reads := k.candid_partValues parts
      dsimp only
      unfold join
      cases values : k.partValues parts with
      | error e =>
          rw [values] at reads
          exact reads
      | ok values =>
          dsimp only
          split
          · trivial
          · exact candid_mapError SimError.isLimit_ofValueError _
  | tristate drivers =>
      dsimp only [resolve]
      split
      · trivial
      · trivial
      · cases k.contention with
        | fail => rfl
        | warn => trivial

theorem candid_resume (s : Shadow) : Candid (s.resume (σ := σ) k).2 := by
  have evaluates := s.candid_evaluate k
  unfold resume
  cases clause? (σ := σ) s with
  | none => trivial
  | some clause =>
      generalize s.evaluate k = result at evaluates ⊢
      obtain ⟨k', e | v⟩ := result
      · exact evaluates
      · have writes := k'.candid_write s.target v true
        dsimp only
        generalize k'.write s.target v true = result at writes ⊢
        obtain ⟨k'', e | _⟩ := result
        · exact writes
        · trivial

end Shadow

/-! ## Waiters -/

/-- An alternative that is refused is not refused with the error that tells of the limit. -/
def Alternative.Candid : Alternative σ → Prop
  | refused e => e.isLimit = false
  | _ => True

namespace Clause

mutual

theorem candid_alternatives (clause : Clause σ) : ∀ a ∈ clause.alternatives, a.Candid := by
  intro a listed
  cases clause with
  | any clauses =>
      cases clauses with
      | nil =>
          cases List.mem_singleton.mp listed
          rfl
      | cons first rest => exact candid_alternativesOfAll (first :: rest) a listed
  | join clauses =>
      cases clauses with
      | nil =>
          cases List.mem_singleton.mp listed
          rfl
      | cons first rest =>
          cases List.mem_singleton.mp listed
          trivial
  | _ =>
      cases List.mem_singleton.mp listed
      trivial

theorem candid_alternativesOfAll (clauses : List (Clause σ)) :
    ∀ a ∈ alternativesOfAll clauses, a.Candid := by
  intro a listed
  cases clauses with
  | nil => cases listed
  | cons clause rest =>
      rcases List.mem_append.mp listed with here | later
      · exact candid_alternatives clause a here
      · exact candid_alternativesOfAll rest a later

end

end Clause

theorem Sensitivity.candid_alternatives (sensitivity : Sensitivity) :
    ∀ a ∈ sensitivity.alternatives (σ := σ), a.Candid := by
  intro a listed
  cases sensitivity with
  | triggers list =>
      obtain ⟨trigger, -, rfl⟩ := List.mem_map.mp listed
      trivial
  | delay ticks =>
      cases List.mem_singleton.mp listed
      trivial

/-- An act that fails, or waits for what is refused, does so without telling of the limit. -/
def Act.Candid : Act σ → Prop
  | completes => True
  | fails e => e.isLimit = false
  | waits _ alternatives => ∀ a ∈ alternatives, a.Candid

namespace Simulation

variable {B : Behaviours σ ω}

section Arming

variable (s : Simulation σ ω)

theorem candid_after (ticks : Nat) : Candid (s.after ticks) := by
  unfold after
  split
  · trivial
  · rfl

theorem candid_watch (me : Arming) (trigger : Trigger) : Candid (s.watch me trigger).2 := by
  unfold watch
  split
  · rfl
  · trivial

theorem candid_watchAll (me : Arming) (triggers : List Trigger) :
    Candid (s.watchAll me triggers).2 := by
  induction triggers generalizing s with
  | nil => trivial
  | cons trigger rest ih =>
      have first := s.candid_watch me trigger
      rw [watchAll]
      generalize s.watch me trigger = result at first ⊢
      obtain ⟨s, e | _⟩ := result
      · exact first
      · exact ih s

theorem candid_armOn (me : Arming) {alternative : Alternative σ} (candid : alternative.Candid) :
    Candid (s.armOn B me alternative).2 := by
  cases alternative with
  | trigger trigger => exact s.candid_watch me trigger
  | delay ticks =>
      have fits := s.candid_after ticks
      simp only [armOn, wakeAfter]
      generalize s.after ticks = result at fits ⊢
      cases result with
      | error e => exact fits
      | ok time => trivial
  | noop => trivial
  | spawn child => trivial
  | join clauses => trivial
  | refused e => exact candid

theorem candid_armOnAll (me : Arming) {alternatives : List (Alternative σ)}
    (candid : ∀ a ∈ alternatives, a.Candid) : Candid (s.armOnAll B me alternatives).2 := by
  induction alternatives generalizing s with
  | nil => trivial
  | cons alternative rest ih =>
      have first := candid_armOn (B := B) s me (candid alternative List.mem_cons_self)
      rw [armOnAll]
      generalize s.armOn B me alternative = result at first ⊢
      obtain ⟨s, e | _⟩ := result
      · exact first
      · exact ih s fun a listed => candid a (List.mem_cons_of_mem _ listed)

theorem candid_settle (me : Arming) {done : Act σ} (candid : done.Candid) :
    Candid (s.settle B me done).2 := by
  cases done with
  | completes => trivial
  | fails e => exact candid
  | waits body alternatives =>
      have armed := candid_armOnAll (B := B)
        { s with waiters := s.waiters.restore me.slot body } me candid
      simp only [settle, rearm]
      generalize armOnAll B _ me alternatives = result at armed ⊢
      obtain ⟨s, e | _⟩ := result
      · exact armed
      · trivial

end Arming

section Resuming

variable (candid : B.Candid)

include candid

theorem candid_act {k k' : Kernel} {w w' : ω} {outputs : List SignalId} {body : Body σ}
    {done : Act σ} (acted : act B k w outputs body = some (done, k', w')) : done.Candid := by
  cases way_of_act acted with
  | @process state answer _ _ ran =>
      have fails := candid.resume state k w _ ran
      obtain e | ⟨state', clause⟩ | _ := answer
      · exact fails
      · exact clause.candid_alternatives
      · trivial
  | @shadow shadow answer _ resumed =>
      have fails := shadow.candid_resume (σ := σ) k
      rw [resumed] at fails
      obtain e | _ | clause := answer
      · exact fails
      · trivial
      · exact clause.candid_alternatives
  | @reacts block answer _ _ ran =>
      have fails := candid.react block.body k w _ ran
      obtain e | body := answer
      · exact fails
      · exact block.sensitivity.candid_alternatives
  | joins => trivial
  | branch clause => exact clause.candid_alternatives
  | begins block => exact block.sensitivity.candid_alternatives
  | outputs =>
      intro a listed
      obtain ⟨id, -, rfl⟩ := List.mem_map.mp listed
      trivial

theorem candid_runBody {s s' : Simulation σ ω} {me : Arming} {body : Body σ}
    {result : Except SimError Unit} (ran : runBody B s me body = some (s', result)) :
    Candid result := by
  cases way_of_runBody ran with
  | noted notes =>
      have watches := candid_watchAll
        { s with link := s.link.map fun (l : Link ω) => { l with changed := true } } me
        (s.outputs.map .event)
      unfold noteOutputs at notes
      dsimp only at notes
      generalize watchAll _ me (s.outputs.map .event) = watched at notes watches
      obtain ⟨s₁, e | _⟩ := watched
      · cases notes
        exact watches
      · cases notes
        trivial
  | @acted _ done kernel world _ _ acted settled =>
      have settles := candid_settle (B := B) { s with kernel, world } me (candid_act candid acted)
      rwa [settled] at settles

theorem candid_runReady {fuel : Nat} {s s' : Simulation σ ω} {failure failure' : Except SimError Unit}
    (before : Candid failure) (ran : runReady B fuel s failure = .ok (s', failure')) :
    Candid failure' := by
  replace ran := way_of_runReady ran
  induction ran with
  | idle => exact before
  | @resumed _ s s₁ failure result a ready _ resumed _ ih =>
      have resumes : Candid result := by
        unfold runWaiter at resumed
        split at resumed
        · cases resumed
          trivial
        · exact candid_runBody candid resumed
      refine ih ?_
      cases failure with
      | error e => exact before
      | ok _ => exact resumes

end Resuming

/-! ## Commits and exchanges -/

/-- The hook does not fail with the error that tells of the limit. -/
def Tactful (s : Simulation σ ω) : Prop := ∀ h, s.hook = some h → h.Candid

theorem Tactful.of_equipment {s s' : Simulation σ ω} (tactful : s.Tactful)
    (same : s'.equipment = s.equipment) : s'.Tactful := by
  have hook : s'.hook = s.hook := congrArg Equipment.hook same
  unfold Tactful
  rw [hook]
  exact tactful

section Commits

variable {s : Simulation σ ω} (tactful : s.Tactful)

include tactful

theorem candid_absorb (id : SignalId) (commit : Commit) : Candid (s.absorb id commit).2 := by
  cases commit with
  | unchanged => trivial
  | deferred delay value stamp =>
      have fits := s.candid_after delay
      simp only [absorb]
      generalize s.after delay = result at fits ⊢
      cases result with
      | error e => exact fits
      | ok time => trivial
  | changed old woken =>
      simp only [absorb, report]
      split
      · next hook _ hooked _ =>
          split
          · exact (tactful hook hooked).change _ _
          · trivial
      · trivial

theorem candid_step (id : SignalId) (f : Signal → Signal × Commit) : Candid (s.step id f).2 := by
  have each (kernel : Kernel) : ({ s with kernel } : Simulation σ ω).Tactful := tactful
  unfold step
  cases s.kernel.signal? id with
  | none => trivial
  | some signal => exact candid_absorb (each _) id _

theorem candid_updateAll {failure : Except SimError Unit} (before : Candid failure)
    (ids : List SignalId) : Candid (s.updateAll failure ids).2 := by
  induction ids generalizing s failure with
  | nil => exact before
  | cons id rest ih =>
      have updates := candid_step tactful id Signal.update
      refine ih (tactful.of_equipment (s.equipment_step id _)) ?_
      cases failure with
      | error e => exact before
      | ok _ => exact updates

theorem candid_commitPending : Candid s.commitPending.2 := by
  have start : ({ s with kernel := { s.kernel with pending := [] } } : Simulation σ ω).Tactful :=
    tactful
  exact candid_updateAll start (candid_ok ()) _

theorem candid_drainUpTo (count time : Nat) : Candid (drainUpTo count s time).2 := by
  induction count generalizing s with
  | zero => trivial
  | succ count ih =>
      rw [drainUpTo]
      cases s.queue.popDue time with
      | none => trivial
      | some due =>
          obtain ⟨payload, queue⟩ := due
          have start : ({ s with queue } : Simulation σ ω).Tactful := tactful
          have fires : Candid (fire { s with queue } payload).2 := by
            cases payload with
            | wake a => trivial
            | apply id value stamp => exact candid_step start id _
          have kept := equipment_fire { s with queue } payload
          dsimp only
          generalize fire { s with queue } payload = result at fires kept ⊢
          obtain ⟨s₁, e | _⟩ := result
          · exact fires
          · exact ih (start.of_equipment kept)

end Commits

section Exchanges

variable (s : Simulation σ ω)

theorem candid_sendOutputs (b : Bridge ω) : Candid (s.sendOutputs b).2 := by
  unfold sendOutputs
  split
  · rfl
  · trivial

theorem candid_takeIn (changed : Bool) (values : List (SignalId × Value)) :
    Candid (s.takeIn changed values).2 := by
  induction values generalizing s changed with
  | nil => trivial
  | cons value rest ih =>
      obtain ⟨id, value⟩ := value
      have writes := s.kernel.candid_write id value false
      rw [takeIn]
      generalize s.kernel.write id value false = result at writes ⊢
      obtain ⟨kernel, e | _⟩ := result
      · exact writes
      · exact ih _ _

theorem candid_exchange : Candid s.exchange.2 := by
  unfold exchange
  cases s.openLink? with
  | none => trivial
  | some l =>
      have reads : Candid (s.readReply l).2 := by
        unfold readReply
        split
        · dsimp only
          split
          · rfl
          · exact candid_takeIn _ _ _
        · trivial
      dsimp only
      generalize s.readReply l = result at reads ⊢
      obtain ⟨s₁, e | inbound⟩ := result
      · exact reads
      · have sends := s₁.candid_sendOutputs l.bridge
        dsimp only
        split
        · generalize s₁.sendOutputs l.bridge = result at sends ⊢
          obtain ⟨s₂, e | _⟩ := result
          · exact sends
          · trivial
        · trivial

end Exchanges

/-! ## Past the limit -/

section Limit

variable {s s' : Simulation σ ω} {e : SimError} (told : e.isLimit = true)

include told

theorem exceeds_of_advanceTo (tactful : s.Tactful) {time : Nat}
    (advanced : s.advanceTo time = (s', .error e)) : s.pace.Exceeds s'.pace e := by
  have kept : (s.moveClock time).1.equipment = s.equipment := s.equipment_moveClock time
  -- Only to enter a delta cycle may tell of the limit. To drain and to send does not.
  unfold advanceTo at advanced
  cases moved : s.moveClock time with
  | mk s₁ result =>
      rw [moved] at kept
      simp only [moved] at advanced
      cases result with
      | error e' =>
          cases advanced
          unfold moveClock at moved
          split at moved
          · cases moved
          · cases next : s.nextDelta with
            | mk s₂ result =>
                simp only [next] at moved
                obtain e | _ := result
                · cases moved
                  exact exceeds_of_nextDelta next
                · cases moved
      | ok _ =>
          have drains := candid_drainUpTo (tactful.of_equipment kept) s₁.queue.size time
          dsimp only [drain] at advanced
          generalize drainUpTo s₁.queue.size s₁ time = result at advanced drains
          obtain ⟨s₂, e' | _⟩ := result
          · cases advanced
            cases told.symm.trans drains
          · dsimp only at advanced
            split at advanced
            · next l _ =>
                have sends := s₂.candid_sendOutputs l.bridge
                rw [advanced] at sends
                cases told.symm.trans sends
            · cases advanced

theorem exceeds_of_leaveTick (tactful : s.Tactful) {cap : Option Nat}
    (left : s.leaveTick cap = (s', .ended (.error e))) : s.pace.Exceeds s'.pace e := by
  have way := way_of_leaveTick left
  generalize s.onward? cap = onward at way
  cases way with
  | failed elsewhere next inTime advanced => exact exceeds_of_advanceTo told tactful advanced

theorem exceeds_of_proceed (tactful : s.Tactful) {cap : Option Nat}
    (went : s.proceed cap = (s', .ended (.error e))) : s.pace.Exceeds s'.pace e := by
  have exchanges := s.candid_exchange
  have paced := pace_exchange s
  have kept := s.equipment_exchange
  have way := s.way_of_proceed
  generalize s.settled? = settled at way
  cases way with
  | failed exchanged proceeds =>
      rw [exchanged] at exchanges
      cases (proceeds cap).symm.trans went
      cases told.symm.trans exchanges
  | @entered s₁ sent exchanged proceeds =>
      rw [exchanged] at paced
      rw [← paced, ← pace_purge s₁]
      exact exceeds_of_nextDelta (goOn_eq_error_iff.mp ((proceeds cap).symm.trans went))
  | @settled s₁ exchanged pending proceeds =>
      rw [exchanged] at paced kept
      rw [← paced, ← pace_purge s₁]
      exact exceeds_of_leaveTick told (tactful.of_equipment ((equipment_purge s₁).trans kept))
        ((proceeds cap).symm.trans went)

/-- Where nobody else tells of the limit, a cycle that fails with it has gone past it. -/
theorem exceeds_of_cycle (candid : B.Candid) (tactful : s.Tactful) {fuel : Nat} {cap : Option Nat}
    (turned : s.cycle B fuel cap = .ok (s', .ended (.error e))) : s.pace.Exceeds s'.pace e := by
  have commits := candid_commitPending tactful
  have kept := s.equipment_commitPending
  have paced := pace_commitPending s
  cases way_of_cycle turned with
  | refused committed =>
      rw [committed] at commits
      cases told.symm.trans commits
  | @proceeded m s₁ _ committed ran running went =>
      rw [committed] at kept paced
      have tactful₁ : s₁.Tactful := tactful.of_equipment ((equipment_runReady ran).trans kept)
      rw [← (pace_of_runReady ran).trans paced]
      exact exceeds_of_proceed told tactful₁ went
  | @wrapped m s₁ failure _ committed ran stops ends =>
      -- What a cycle wraps up with is the failure of a waiter or of a commit.
      rw [committed] at kept
      have tactful₁ : s₁.Tactful := tactful.of_equipment ((equipment_runReady ran).trans kept)
      have fails := candid_runReady candid (candid_ok ()) ran
      have commits₁ := candid_commitPending tactful₁
      unfold wrapUp at ends
      generalize s₁.commitPending = result at ends commits₁
      obtain ⟨s₂, committed₁⟩ := result
      dsimp only at ends commits₁
      cases failure with
      | error e' =>
          cases ends
          cases told.symm.trans fails
      | ok _ =>
          cases committed₁ with
          | error e' =>
              cases ends
              cases told.symm.trans commits₁
          | ok _ => cases ends

end Limit

/-! ## Beginning and end -/

section Runs

variable {s s' : Simulation σ ω}

theorem candid_startHook (tactful : s.Tactful) : Candid s.startHook.2 := by
  unfold startHook
  split
  · trivial
  · dsimp only
    split
    · trivial
    · next hook hooked => exact (tactful hook hooked).start _ _

theorem candid_shutdown (tactful : s.Tactful) : Candid s.shutdown.2 := by
  have closes : Candid s.closeLink.2 := by
    unfold closeLink
    split
    · trivial
    · exact candid_mapError (fun _ => rfl) _
  have kept := s.equipment_closeLink
  unfold shutdown
  generalize s.closeLink = result at closes kept ⊢
  obtain ⟨s₁, e | _⟩ := result
  · exact closes
  · dsimp only at kept ⊢
    split
    · trivial
    · next hook hooked => exact (tactful.of_equipment kept hook hooked).finish _

/-- The end of a run does not tell of the limit, unless its loop did. -/
theorem loop_told_of_conclude {e : SimError} (told : e.isLimit = true) (tactful : s.Tactful)
    {result : Except SimError Outcome} (concluded : s.conclude result = (s', .error e)) :
    result = .error e := by
  have shuts := candid_shutdown (s := { s with state := .finished }) tactful
  unfold conclude at concluded
  split at concluded
  · cases concluded
  · generalize shutdown { s with state := .finished } = result at concluded shuts
    obtain ⟨s₁, e' | _⟩ := result
    · cases concluded
      cases told.symm.trans shuts
    · cases concluded
  · cases concluded
    rfl

end Runs

end Simulation

end DeltaCycle
