import DeltaCycle.Proofs.Changes

/-!
# Shadows at rest

Whenever a simulation is at rest, all shadows are what their rules say. A shadow lags its sources,
but then its waiter is ready: every waiter of a shadow has either been fired, or it watches all
sources of the shadow and the proposed value fits them. At rest nobody is fired, and what is
proposed is committed.
-/

set_option autoImplicit false

namespace DeltaCycle

open Roster

variable {σ ω : Type}

/-! ## What the waiter of a shadow does -/

theorem Clause.mem_alternativesOfAll {clauses : List (Clause σ)} {clause : Clause σ}
    {alternative : Alternative σ} (listed : clause ∈ clauses)
    (within : alternative ∈ clause.alternatives) :
    alternative ∈ alternativesOfAll clauses := by
  induction clauses with
  | nil => cases listed
  | cons first rest ih =>
      rw [alternativesOfAll, List.mem_append]
      rcases List.mem_cons.mp listed with rfl | listed
      · exact .inl within
      · exact .inr (ih listed)

namespace Shadow

variable {k k' : Kernel} {shadow : Shadow}

/-- A shadow waits for all its sources. -/
theorem mem_alternatives {clause : Clause σ} (waits : shadow.clause? = some clause) {id : SignalId}
    (source : id ∈ shadow.rule.sources) : .trigger (.event id) ∈ clause.alternatives := by
  have any (sources : List SignalId) (source : id ∈ sources) :
      .trigger (.event id) ∈ (Clause.any (sources.map (.event : SignalId → Clause σ))).alternatives := by
    obtain ⟨first, rest, rfl⟩ := List.exists_cons_of_ne_nil (List.ne_nil_of_mem source)
    exact Clause.mem_alternativesOfAll (List.mem_map_of_mem source) (List.mem_singleton_self _)
  obtain ⟨target, rule⟩ := shadow
  cases rule with
  | slice parent hi lo =>
      cases waits
      cases List.mem_singleton.mp source
      exact List.mem_singleton_self _
  | bit parent index =>
      cases waits
      cases List.mem_singleton.mp source
      exact List.mem_singleton_self _
  | concat parts =>
      cases waits
      exact any _ source
  | tristate drivers =>
      have source : id ∈ drivers := source
      cases drivers with
      | nil => cases source
      | cons first rest =>
          cases waits
          exact any _ source

theorem sources_of_clause (ends : shadow.clause? (σ := σ) = none) : shadow.rule.sources = [] := by
  obtain ⟨target, rule⟩ := shadow
  cases rule with
  | tristate drivers =>
      cases drivers with
      | nil => rfl
      | cons first rest => cases ends
  | _ => cases ends

/-- A shadow that goes on waiting has written its value. -/
theorem writes_of_resume {clause : Clause σ}
    (resumed : shadow.resume k = (k', .ok (some clause))) :
    shadow.clause? = some clause ∧ ∃ v, shadow.writes σ k = [(shadow.target, v)] := by
  unfold resume at resumed
  unfold writes
  cases waits : shadow.clause? (σ := σ) with
  | none => simp [waits] at resumed
  | some clause' =>
      simp only [waits] at resumed ⊢
      generalize shadow.evaluate k = result at resumed ⊢
      obtain ⟨k₁, e | value⟩ := result
      · cases resumed
      · dsimp only [Kernel.write, Kernel.writes] at resumed ⊢
        cases proposed : k₁.proposal shadow.target value true with
        | error e => simp [proposed] at resumed
        | ok next =>
            simp only [proposed] at resumed
            cases resumed
            exact ⟨rfl, next, rfl⟩

theorem clause?_of_resume (resumed : shadow.resume (σ := σ) k = (k', .ok none)) :
    shadow.clause? (σ := σ) = none := by
  unfold resume at resumed
  cases waits : shadow.clause? (σ := σ) with
  | none => rfl
  | some clause =>
      simp only [waits] at resumed
      generalize shadow.evaluate k = result at resumed
      obtain ⟨k₁, e | value⟩ := result
      · cases resumed
      · dsimp only at resumed
        generalize k₁.write shadow.target value true = result at resumed
        obtain ⟨k₂, _ | _⟩ := result <;> cases resumed

end Shadow

/-! ## Minding signals -/

/-- A waiter that the simulation was built with is there, and it was fired, or it watches signals
and something holds. -/
def Roster.Minds (r : Roster σ) (number : Nat) (body : Body σ) (ids : List SignalId) (P : Prop) :
    Prop :=
  ∃ count, r.seat (.root number) = .alive count (some body) ∧
    (r.fired ⟨.root number, count⟩ = true ∨
      (∀ id ∈ ids, .event id ∈ r.triggers ⟨.root number, count⟩) ∧ P)

namespace Roster.Minds

variable {r : Roster σ} {number : Nat} {body : Body σ} {ids : List SignalId} {P Q : Prop}

theorem mono (minds : r.Minds number body ids P) (keeps : P → Q) : r.Minds number body ids Q := by
  obtain ⟨count, alive, armed⟩ := minds
  exact ⟨count, alive, armed.imp_right fun ⟨watches, holds⟩ => ⟨watches, keeps holds⟩⟩

/-- A change of a signal that is watched fires the waiter. -/
theorem advance (minds : r.Minds number body ids P) {changes : List Change} (drained : Option Nat)
    (keeps : (∀ c ∈ changes, c.signal ∉ ids) → P → Q) :
    (r.advance changes drained).Minds number body ids Q := by
  obtain ⟨count, alive, armed⟩ := minds
  refine ⟨count, alive, ?_⟩
  have fires (fired : r.fired ⟨.root number, count⟩ = true ∨
      (isCurrent r.seat ⟨.root number, count⟩ && (r.triggers ⟨.root number, count⟩).any
        fun t => changes.any fun c => t.firedBy c) = true) :
      (r.advance changes drained).fired ⟨.root number, count⟩ = true := by
    simp only [Roster.advance, Bool.or_eq_true]
    exact .inl fired
  rcases armed with fired | ⟨watches, holds⟩
  · exact .inl (fires (.inl fired))
  · by_cases others : ∀ c ∈ changes, c.signal ∉ ids
    · exact .inr ⟨watches, keeps others holds⟩
    · simp only [not_forall, not_not] at others
      obtain ⟨c, listed, source⟩ := others
      have current : isCurrent r.seat ⟨.root number, count⟩ = true :=
        isCurrent_iff.mpr ⟨_, alive⟩
      refine .inl (fires (.inr ?_))
      rw [current, Bool.true_and, List.any_eq_true]
      refine ⟨_, watches c.signal source, List.any_eq_true.mpr ⟨c, listed, ?_⟩⟩
      exact beq_self_eq_true c.signal

/-- The turn of another waiter. -/
theorem turn (minds : r.Minds number body ids P) (now : Nat) {tag : Tag} (deed : Deed σ)
    (other : tag.name ≠ .root number) (keeps : P → Q) :
    (r.turn now tag deed).Minds number body ids Q := by
  obtain ⟨count, alive, armed⟩ := minds
  have apart : (⟨.root number, count⟩ : Tag) ≠ tag.next := fun same =>
    other (congrArg Tag.name same).symm
  refine ⟨count, ?_, armed.imp (fun fired => ?_) fun ⟨watches, holds⟩ => ⟨?_, keeps holds⟩⟩
  · rw [seat_turn r other.symm fun p i _ same => by cases same]
    exact alive
  · exact (fired_turn r apart fun p i _ same => by cases same).mpr (.inl fired)
  · rw [triggers_turn r apart fun p i _ same => by cases same]
    exact watches

/-- The turn of the waiter itself, which arms it on the signals again. -/
theorem of_turn (r : Roster σ) (now : Nat) {tag : Tag} {alternatives : List (Alternative σ)}
    (own : tag.name = .root number)
    (watches : ∀ id ∈ ids, .trigger (.event id) ∈ alternatives) (holds : P) :
    (r.turn now tag (.waiting body alternatives)).Minds number body ids P := by
  have seat : (r.turn now tag (.waiting body alternatives)).seat tag.name =
      .alive (tag.count + 1) (some body) := seat_turn_self r
  have triggers : (r.turn now tag (.waiting body alternatives)).triggers
      ⟨tag.name, tag.count + 1⟩ = alternatives.filterMap Alternative.trigger? :=
    triggers_turn_self r
  rw [own] at seat triggers
  refine ⟨tag.count + 1, seat, .inr ⟨fun id watched => ?_, holds⟩⟩
  rw [triggers]
  exact List.mem_filterMap.mpr ⟨_, watches id watched, rfl⟩

end Roster.Minds

/-! ## Attending to shadows -/

/-- The waiter of a shadow is there, and it was fired, or it watches all sources of the shadow and
the proposed value fits them. -/
def Roster.Attends (r : Roster σ) (k : Kernel) (number : Nat) (shadow : Shadow) : Prop :=
  ∃ count, r.seat (.root number) = .alive count (some (.shadow shadow)) ∧
    (r.fired ⟨.root number, count⟩ = true ∨
      (∀ id ∈ shadow.rule.sources, .event id ∈ r.triggers ⟨.root number, count⟩) ∧
        k.Proposes shadow)

namespace Roster.Attends

variable {r : Roster σ} {k k' : Kernel} {number : Nat} {shadow : Shadow}

theorem iff_minds : r.Attends k number shadow ↔
    r.Minds number (.shadow shadow) shadow.rule.sources (k.Proposes shadow) := Iff.rfl

theorem of_kernel (attends : r.Attends k number shadow)
    (keeps : k.Proposes shadow → k'.Proposes shadow) : r.Attends k' number shadow :=
  iff_minds.mpr ((iff_minds.mp attends).mono keeps)

/-- A change of a source fires the waiter. -/
theorem advance (attends : r.Attends k number shadow) {changes : List Change} (drained : Option Nat)
    (keeps : (∀ c ∈ changes, c.signal ∉ shadow.rule.sources) → k.Proposes shadow →
      k'.Proposes shadow) : (r.advance changes drained).Attends k' number shadow :=
  iff_minds.mpr ((iff_minds.mp attends).advance drained keeps)

/-- The turn of another waiter. -/
theorem turn (attends : r.Attends k number shadow) (now : Nat) {tag : Tag} (deed : Deed σ)
    (other : tag.name ≠ .root number) (keeps : k.Proposes shadow → k'.Proposes shadow) :
    (r.turn now tag deed).Attends k' number shadow :=
  iff_minds.mpr ((iff_minds.mp attends).turn now deed other keeps)

/-- The turn of the waiter itself, which arms it on all sources again. -/
theorem of_turn (r : Roster σ) (now : Nat) {tag : Tag} {clause : Clause σ}
    (own : tag.name = .root number) (waits : shadow.clause? = some clause)
    (proposes : k.Proposes shadow) :
    (r.turn now tag (.waiting (.shadow shadow) clause.alternatives)).Attends k number shadow :=
  iff_minds.mpr (.of_turn r now own (fun _ source => Shadow.mem_alternatives waits source) proposes)

end Roster.Attends

theorem Roster.seat_rooted_of_mem {roots : List (Nat × Body σ)} {number : Nat} {body : Body σ}
    (distinct : (roots.map Prod.fst).Nodup) (listed : (number, body) ∈ roots) :
    (rooted roots).seat (.root number) = .alive 0 (some body) := by
  induction roots using List.reverseRecOn with
  | nil => cases listed
  | append_singleton roots root ih =>
      obtain ⟨number', body'⟩ := root
      rw [List.map_append, List.map_singleton, List.nodup_append] at distinct
      obtain ⟨distinct, -, apart⟩ := distinct
      rw [rooted_concat]
      rcases List.mem_append.mp listed with before | last
      · have other : Name.root number ≠ .root number' := by
          intro same
          cases same
          exact apart number (List.mem_map_of_mem (f := Prod.fst) before) number
            (List.mem_singleton_self _) rfl
        exact (Function.update_of_ne other ..).trans (ih distinct before)
      · cases List.mem_singleton.mp last
        exact Function.update_self ..

/-- At the start, all waiters are ready. -/
theorem Roster.minds_rooted {bodies : List (Body σ)} {number : Nat} {body : Body σ}
    (listed : bodies[number]? = some body) (ids : List SignalId) (P : Prop) :
    (rooted ((List.range bodies.length).zip bodies)).Minds number body ids P := by
  have bound := (List.getElem?_eq_some_iff.mp listed).choose
  have member : (number, body) ∈ (List.range bodies.length).zip bodies :=
    List.mem_iff_getElem?.mpr ⟨number, List.getElem?_zip_eq_some.mpr
      ⟨by rw [List.getElem?_range bound], listed⟩⟩
  have numbers : ((List.range bodies.length).zip bodies).map Prod.fst = List.range bodies.length :=
    List.map_fst_zip (by rw [List.length_range])
  have seat := seat_rooted_of_mem (by rw [numbers]; exact List.nodup_range) member
  exact ⟨0, seat, .inl ((begins_rooted _).newborn ⟨_, seat⟩)⟩

/-- A failure from before is the failure of a round. -/
theorem Simulation.RoundWay.failure_eq {B : Behaviours σ ω} {fuel : Nat} {s s' : Simulation σ ω}
    {failure : Except SimError Unit} (way : RoundWay B s' (.ok ()) fuel s failure) :
    failure = .ok () := by
  induction way with
  | idle => rfl
  | resumed popped resumed further ih => exact (firstError_eq_ok.mp ih).1

/-! ## Attending throughout a run -/

/-- The roster tracks the simulation, and attends to all shadows that follow signals. -/
structure Tended (ledger : List Tag) (s : Simulation σ ω) (r : Roster σ) : Prop where
  tracks : ∃ marks, Tracks ledger s marks r
  rested : r.Rested
  known : s.OutputsKnown
  staffed : s.Staffed
  safe : s.desk.Safe
  attends : ∀ number shadow, s.kernel.shadows[number]? = some shadow →
    shadow.rule.sources ≠ [] → r.Attends s.kernel number shadow

namespace Tended

open Simulation

variable {B : Behaviours σ ω} {ledger : List Tag} {s s' : Simulation σ ω} {r : Roster σ}
  (tended : Tended ledger s r)

include tended

theorem adjusts (adjusted : s.Adjusts s') : Tended ledger s' r := by
  obtain ⟨hook, hookStarted, state, maxDeltas, defaultDuration, world, rfl⟩ := adjusted
  obtain ⟨⟨marks, tracks⟩, rested, known, staffed, safe, attends⟩ := tended
  exact ⟨⟨marks, tracks.of_books rfl rfl rfl rfl⟩, rested, known, staffed, safe, attends⟩

theorem commitPending : Tended ledger s.commitPending.1 (r.advance s.commits none) := by
  obtain ⟨⟨marks, tracks⟩, rested, known, staffed, safe, attends⟩ := tended
  have does := s.does_commitPending
  refine ⟨⟨marks, tracks.commitPending⟩, rested, known.of_frame (frame_updateAll _ _ _),
    does.staffed staffed, does.goes.safe safe, fun number shadow listed follows => ?_⟩
  rw [does.shadows] at listed
  exact (attends number shadow listed follows).advance none fun others =>
    s.moves_commitPending.proposes others

/-- To resume a waiter without failure leaves all shadows attended to. -/
theorem resume {a : Arming} {ready : Fifo Arming} (popped : s.ready.pop? = some (a, ready))
    (ran : runWaiter B { s with ready } a = some (s', .ok ())) :
    ∃ ledger' r', Tended ledger' s' r' := by
  obtain ⟨⟨marks, tracks⟩, rested, known, staffed, safe, attends⟩ := tended
  have does := does_runWaiter (s := { s with ready }) staffed ran
  have same := surroundings_runWaiter ran
  have known' := known.of_surroundings same
  have shadows : s'.kernel.shadows = s.kernel.shadows := does.shadows
  have safe' := does.goes.safe safe
  have writes : ∀ h ∈ logOfWrites (waiterWrites B { s with ready } a), h.write?.isSome := by
    intro h listed
    obtain ⟨write, -, rfl⟩ := List.mem_map.mp listed
    rfl
  have keeps {number : Nat} {shadow : Shadow} (listed : s.kernel.shadows[number]? = some shadow)
      (proposes : s.kernel.Proposes shadow) : s'.kernel.Proposes shadow :=
    does.goes.proposes safe writes (List.mem_of_getElem? listed) (.inl proposes)
  rcases tracks.resume rested known popped ran with ⟨-, -, -, tracks'⟩ |
    ⟨turn, marks', taken, -, takes, outcome, tracks'⟩
  · refine ⟨ledger, r, ⟨marks, tracks'⟩, rested, known', does.staffed staffed, safe', ?_⟩
    intro number shadow listed follows
    rw [shadows] at listed
    exact (attends number shadow listed follows).of_kernel (keeps listed)
  · refine ⟨_, _, ⟨marks', tracks'⟩, rested.turn _ _ _, known', does.staffed staffed, safe', ?_⟩
    intro number shadow listed follows
    rw [shadows] at listed
    have attended := attends number shadow listed follows
    by_cases own : turn.tag.name = .root number
    · obtain ⟨count, alive, -⟩ := attended
      obtain ⟨me, body, stale, done, k, w, claimed, alive', acted, deed, -⟩ :=
        tracks.acts popped takes taken
      rw [own, alive] at alive'
      cases alive'
      have succeeds : turn.deed.isFailure = false := by
        by_contra fails
        rw [if_pos (Bool.eq_true_of_not_eq_false fails)] at outcome
        obtain ⟨e, same⟩ := outcome
        cases same
      cases way_of_act acted with
      | @shadow _ answer k' resumed =>
          rcases answer with e | _ | clause
          · rw [deed] at succeeds
            cases succeeds
          · exact absurd (Shadow.sources_of_clause (Shadow.clause?_of_resume resumed)) follows
          · obtain ⟨waits, v, wrote⟩ := Shadow.writes_of_resume resumed
            have proposes : s'.kernel.Proposes shadow := by
              refine does.goes.proposes safe writes (List.mem_of_getElem? listed) (.inr ⟨v, ?_⟩)
              have all : waiterWrites B { s with ready } a = [(shadow.target, v)] := by
                unfold waiterWrites
                rw [show ({ s with ready } : Simulation σ ω).waiters.consume a =
                  s.waiters.consume a from rfl, claimed]
                exact wrote
              rw [all]
              exact List.mem_singleton_self _
            rw [Act.ofShadow, Act.deed] at deed
            split at deed
            · rw [deed]
              exact .of_turn r _ own waits proposes
            · rw [deed] at succeeds
              cases succeeds
    · exact attended.turn _ _ own (keeps listed)

/-- After a round without failure all shadows are attended to, and nobody is fired. -/
theorem runReady {fuel : Nat} {failure : Except SimError Unit}
    (ran : Simulation.runReady B fuel s failure = .ok (s', .ok ())) :
    ∃ ledger' r', Tended ledger' s' r' ∧ r'.Quiet := by
  replace ran := way_of_runReady ran
  induction ran generalizing ledger r with
  | idle idle =>
      obtain ⟨marks, tracks⟩ := tended.tracks
      exact ⟨ledger, r, tended, tracks.quiet idle⟩
  | resumed popped resumed further ih =>
      have fine := (firstError_eq_ok.mp further.failure_eq).2
      subst fine
      obtain ⟨ledger₁, r₁, tended₁⟩ := tended.resume popped resumed
      exact ih tended₁

theorem proceed {cap : Option Nat} {verdict : Verdict} (went : s.proceed cap = (s', verdict))
    (fine : ∀ e, verdict ≠ .ended (.error e)) :
    Tended ledger s' (r.advance (s.passage cap).2 (s.passage cap).1) := by
  obtain ⟨⟨marks, tracks⟩, rested, known, staffed, safe, attends⟩ := tended
  obtain ⟨writes, log, -, does, -⟩ := s.does_proceed cap
  have framed := frame_proceed s cap
  rw [went] at does framed
  refine ⟨⟨marks, tracks.proceed went fine⟩, rested, known.of_frame framed, does.staffed staffed,
    does.goes.safe safe, fun number shadow listed follows => ?_⟩
  rw [does.shadows] at listed
  exact (attends number shadow listed follows).advance _ fun others =>
    proposes_proceed safe went fine (List.mem_of_getElem? listed) others

/-- Where nobody is fired, all shadows that follow signals propose what fits. -/
theorem proposes (quiet : r.Quiet) {shadow : Shadow} (listed : shadow ∈ s.kernel.shadows)
    (follows : shadow.rule.sources ≠ []) : s.kernel.Proposes shadow := by
  obtain ⟨number, found⟩ := List.mem_iff_getElem?.mp listed
  obtain ⟨count, alive, armed⟩ := tended.attends number shadow found follows
  refine (armed.resolve_left fun fired => ?_).2
  rw [quiet ⟨.root number, count⟩ ⟨_, alive⟩] at fired
  cases fired

omit tended in
/-- A run that stops in good order takes nothing from the queue on the way. -/
theorem passage_of_ended {cap : Option Nat} {outcome : Outcome}
    (ended : s.proceed cap = (s', .ended (.ok outcome))) : s.passage cap = (none, []) := by
  obtain ⟨m, -, -, settles, left⟩ := settled_of_proceed_ended ended
  rw [passage_eq, settles, Option.elim_some, departure_eq, (stops_of_leaveTick left).1,
    Option.elim_none]

/-- A cycle leaves all shadows attended to, unless it fails or somebody asked for the end. -/
theorem cycle {fuel : Nat} {cap : Option Nat} {verdict : Verdict}
    (turned : s.cycle B fuel cap = .ok (s', verdict)) (fine : ∀ e, verdict ≠ .ended (.error e))
    (unasked : ∀ reason, verdict ≠ .ended (.ok (.finished (.requested reason)))) :
    ∃ ledger' r', Tended ledger' s' r' ∧ (verdict ≠ .again → r'.Quiet) := by
  obtain ⟨m, s₁, committed, ran, ends⟩ := round_of_cycle turned fine
  have tended₁ := tended.commitPending
  rw [committed] at tended₁
  obtain ⟨ledger', r', tended', quiet⟩ := tended₁.runReady ran
  rcases ends with ⟨-, went⟩ | wrapped
  · refine ⟨ledger', _, tended'.proceed went fine, fun stops => ?_⟩
    cases verdict with
    | again => exact absurd rfl stops
    | ended result =>
        cases result with
        | error e => exact absurd rfl (fine e)
        | ok outcome =>
            rw [passage_of_ended went, advance_nil]
            exact quiet
  · have asked := asked_of_wrapUp s₁ (.ok ())
    rw [wrapped] at asked
    rcases asked with ⟨e, failed⟩ | ⟨reason, stopped⟩
    · exact absurd failed (fine e)
    · exact absurd stopped (unasked reason)

/-- A loop that comes to rest leaves all shadows attended to, and nobody fired. -/
theorem loop {fuel : Nat} {cap : Option Nat} {outcome : Outcome}
    (looped : Simulation.loop B fuel s cap = .ok (s', .ok outcome))
    (unasked : ∀ reason, outcome ≠ .finished (.requested reason)) :
    ∃ ledger' r', Tended ledger' s' r' ∧ r'.Quiet := by
  replace looped := way_of_loop looped
  induction looped generalizing ledger r with
  | ended turned =>
      obtain ⟨ledger₁, r₁, tended₁, quiet⟩ := tended.cycle turned (fun e same => by cases same)
        fun reason same => unasked reason (Except.ok.inj (Verdict.ended.inj same))
      exact ⟨ledger₁, r₁, tended₁, quiet fun same => by cases same⟩
  | again turned further ih =>
      obtain ⟨ledger₁, r₁, tended₁, -⟩ := tended.cycle turned (fun e same => by cases same)
        fun reason same => by cases same
      exact ih tended₁

end Tended

namespace Simulation

variable {B : Behaviours σ ω}

theorem adjusts_startHook (s : Simulation σ ω) : s.Adjusts s.startHook.1 := by
  unfold startHook
  split
  · exact .refl s
  · dsimp only
    split
    · exact ⟨_, _, _, _, _, _, rfl⟩
    · exact ⟨_, _, _, _, _, _, rfl⟩

/-- A simulation has ended after a run, unless the run was suspended. -/
theorem ended_conclude (s : Simulation σ ω) {result : Except SimError Outcome}
    (stops : result ≠ .ok .suspended) : (s.conclude result).1.hasEnded = true := by
  unfold conclude
  split
  · exact absurd rfl stops
  · obtain ⟨link, world, same⟩ := shutdown_eq { s with state := .finished }
    generalize shutdown { s with state := .finished } = down at same ⊢
    obtain ⟨s', _ | _⟩ := down
    · rw [show s' = _ from same]
      rfl
    · rw [show s' = _ from same]
      rfl
  · obtain ⟨link, world, same⟩ := shutdown_eq { s with state := .failed }
    rw [same]
    rfl

/-- A run leaves all shadows attended to, unless it ends the simulation; and where the run comes to
rest, all shadows that follow signals propose what fits. -/
theorem tended_of_run {fuel : Nat} {s s' : Simulation σ ω} {duration : Option Nat}
    {result : Except SimError Outcome} {ledger : List Tag} {r : Roster σ}
    (tended : Tended ledger s r) (ran : run B fuel s duration = .ok (s', result)) :
    (s'.hasEnded = true ∨ ∃ ledger' r', Tended ledger' s' r') ∧
      (result = .ok .suspended ∨ result = .ok (.finished .noMoreEvents) →
        ∀ shadow ∈ s'.kernel.shadows, shadow.rule.sources ≠ [] → s'.kernel.Proposes shadow) := by
  have tended₁ := tended.adjusts s.adjusts_startHook
  cases way_of_run ran with
  | terminated ended => exact ⟨.inl ended, nofun⟩
  | untold running started =>
      rw [started] at tended₁
      exact ⟨.inr ⟨ledger, r, tended₁⟩, nofun⟩
  | @played s₁ s₂ _ final _ running started looped concluded =>
      rw [started] at tended₁
      have kernel := kernel_of_office (s₂.office_conclude final)
      rw [concluded] at kernel
      have kernel : s'.kernel = s₂.kernel := kernel
      constructor
      · by_cases stops : final = .ok .suspended
        · subst stops
          obtain ⟨ledger', r', tended', -⟩ := tended₁.loop looped nofun
          refine .inr ⟨ledger', r', tended'.adjusts ?_⟩
          cases concluded
          exact ⟨_, _, _, _, _, _, rfl⟩
        · have ended := s₂.ended_conclude stops
          rw [concluded] at ended
          exact .inl ended
      · intro rests shadow listed follows
        rw [kernel] at listed ⊢
        obtain ⟨outcome, same, unasked⟩ : ∃ outcome, result = .ok outcome ∧
            ∀ reason, outcome ≠ .finished (.requested reason) := by
          rcases rests with rfl | rfl
          · exact ⟨_, rfl, nofun⟩
          · exact ⟨_, rfl, nofun⟩
        subst same
        cases outcome_of_conclude concluded
        obtain ⟨ledger', r', tended', quiet⟩ := tended₁.loop looped unasked
        exact tended'.proposes quiet listed follows

theorem tended_of_build {kernel : Kernel} {instances : List (Instance σ ω)} {world : ω}
    {s : Simulation σ ω} (made : kernel.Made) (built : build B kernel instances world = .ok s) :
    ∃ ledger r, Tended ledger s r := by
  have desk := desk_build built
  obtain ⟨marks, tracks⟩ := Tracks.of_adds made.sound.atStart.idle (adds_build built)
    List.length_range List.nodup_range
  refine ⟨_, _, ⟨marks, tracks⟩, rested_rooted _, known_build built, staffed_build built, ?_, ?_⟩
  · rw [desk]
    exact Desk.safe_of_made made
  · intro number shadow listed follows
    refine Roster.Attends.iff_minds.mpr (minds_rooted ?_ _ _)
    rw [show s.kernel = kernel from congrArg Desk.kernel desk] at listed
    have bound := (List.getElem?_eq_some_iff.mp listed).choose
    rw [startingBodies, List.getElem?_append_left (by rw [List.length_map]; exact bound),
      List.getElem?_map, listed]
    rfl

/-- What runs reach, from simulations of made kernels, with any instances. A run may have failed,
and the caller may have changed what callers may change between runs. -/
inductive Operated (B : Behaviours σ ω) : Simulation σ ω → Prop where
  | built {kernel : Kernel} {instances : List (Instance σ ω)} {world : ω} {s : Simulation σ ω}
      (made : kernel.Made) (built : build B kernel instances world = .ok s) : Operated B s
  | adjusted {s s' : Simulation σ ω} (operated : Operated B s) (adjusts : s.Adjusts s')
      (state : s'.state = s.state) : Operated B s'
  | ran {s s' : Simulation σ ω} {fuel : Nat} {duration : Option Nat}
      {result : Except SimError Outcome} (operated : Operated B s)
      (ran : run B fuel s duration = .ok (s', result)) : Operated B s'

/-- A simulation that was built under settings is operated. -/
theorem operated_buildWith {config : Config} {kernel : Kernel} {instances : List (Instance σ ω)}
    {world : ω} {s : Simulation σ ω} (made : kernel.Made)
    (built : buildWith B config kernel instances world = .ok s) : Operated B s := by
  unfold buildWith at built
  cases plain : build B (configure kernel config) instances world with
  | error e => simp [plain] at built
  | ok s₁ =>
      simp only [plain] at built
      cases built
      exact .adjusted (.built (made.configured config) plain)
        ⟨s₁.hook, s₁.hookStarted, s₁.state, _, _, s₁.world, rfl⟩ rfl

theorem Operated.reached {s : Simulation σ ω} (operated : Operated B s) : Reached B s := by
  induction operated with
  | built made built => exact .built made built
  | adjusted operated adjusts state ih => exact ih.adjusted adjusts
  | ran operated ran ih => exact ih.ran ran

/-- A simulation that was built under settings is reached. -/
theorem reached_buildWith {config : Config} {kernel : Kernel} {instances : List (Instance σ ω)}
    {world : ω} {s : Simulation σ ω} (made : kernel.Made)
    (built : buildWith B config kernel instances world = .ok s) : Reached B s :=
  (operated_buildWith made built).reached

/-- Until a simulation ends, all its shadows are attended to. -/
theorem Operated.tended {s : Simulation σ ω} (operated : Operated B s) :
    s.hasEnded = true ∨ ∃ ledger r, Tended ledger s r := by
  induction operated with
  | built made built => exact .inr (tended_of_build made built)
  | adjusted operated adjusts state ih =>
      refine ih.imp (fun ended => ?_) fun ⟨ledger, r, tended⟩ => ⟨ledger, r, tended.adjusts adjusts⟩
      rwa [hasEnded, state]
  | @ran s s' fuel duration result operated ran ih =>
      rcases ih with ended | ⟨ledger, r, tended⟩
      · cases way_of_run ran with
        | terminated ended => exact .inl ended
        | untold running started => cases ended.symm.trans running
        | played running started looped concluded => cases ended.symm.trans running
      · exact (tended_of_run tended ran).1

/-- A shadow that follows no signal proposes what fits. -/
theorem Reached.proposes_of_constant {s : Simulation σ ω} (reached : Reached B s) {shadow : Shadow}
    (listed : shadow ∈ s.kernel.shadows) (constant : shadow.rule.sources = []) :
    s.kernel.Proposes shadow := by
  have proposes := reached.keeps (P := fun d => d.Safe ∧
      ∀ shadow ∈ d.kernel.shadows, shadow.rule.sources = [] → d.kernel.Proposes shadow)
    (fun kernel made => ⟨Desk.safe_of_made made, fun shadow listed _ => made.sound.proposes listed⟩)
    fun {d happening d'} step ⟨safe, holds⟩ => by
      refine ⟨step.safe safe, fun shadow listed constant => ?_⟩
      rw [step.shadows] at listed
      refine step.proposes safe listed ?_ (.inl (holds shadow listed constant))
      rw [constant]
      exact fun id source => absurd source List.not_mem_nil
  exact proposes.2 shadow listed constant

/-- Shadows are consistent whenever the simulation is at rest: when a run is suspended or finds no
more events, and in the kernel that is handed back. -/
theorem shadows_are_consistent_at_rest {s : Simulation σ ω} (operated : Operated B s) :
    (∀ fuel duration s' result, run B fuel s duration = .ok (s', result) →
      result = .ok .suspended ∨ result = .ok (.finished .noMoreEvents) → s'.kernel.Consistent) ∧
    ∀ k world, s.quit = (.ok k, world) → k.Consistent := by
  refine ⟨fun fuel duration s' result ran rests => ?_, fun k world quits => ?_⟩
  · have reached := operated.reached.ran ran
    have upToDate := (upToDate_of_run operated.reached.staffed operated.reached.settled ran).2
      (.inl (rests.elim (fun same => ⟨_, same⟩) fun same => ⟨_, same⟩))
    refine Kernel.consistent_of_proposes reached.wellDeclared upToDate fun shadow listed => ?_
    by_cases constant : shadow.rule.sources = []
    · exact reached.proposes_of_constant listed constant
    · rcases operated.tended with ended | ⟨ledger, r, tended⟩
      · unfold run at ran
        rw [if_pos ended] at ran
        cases ran
        rcases rests with rests | rests <;> cases rests
      · exact (tended_of_run tended ran).2 rests shadow listed constant
  · exact (operated.reached.quit quits).sound.consistent

/-- A simulation of a word that nobody writes to. -/
def archive : Simulation Int Unit :=
  ({ kernel := word, world := () } : Simulation Int Unit).addShadows

/-- Whether a run found no more events. -/
def findsNoMore : Except Stuck (Simulation Int Unit × Except SimError Outcome) → Bool
  | .ok (_, .ok (.finished .noMoreEvents)) => true
  | _ => false

/-- The low bit is recomputed once and stays the one of the word. -/
theorem the_low_bit_is_that_of_the_word :
    ∃ s, run clerks 9 archive none = .ok (s, .ok (.finished .noMoreEvents)) ∧
      s.kernel.Consistent := by
  have operated : Operated clerks archive :=
    .built made_word (show build clerks word [] () = .ok archive from rfl)
  have rests : findsNoMore (run clerks 9 archive none) = true := by decide +kernel
  unfold findsNoMore at rests
  split at rests
  · next s ran =>
      exact ⟨s, ran, (shadows_are_consistent_at_rest operated).1 9 none s _ ran (.inr rfl)⟩
  · cases rests

end Simulation

end DeltaCycle
