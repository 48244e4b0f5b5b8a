import DeltaCycle.Proofs.Inertia
import DeltaCycle.Proofs.Rules

/-!
# Values that stay

The changes that a commit phase or a drain makes are all that becomes of committed values, and
proposed values are left alone. So a shadow whose proposed value fits its rule keeps fitting, unless
a source is among the changes.
-/

set_option autoImplicit false

namespace DeltaCycle

variable {σ ω : Type}

/-! ## Transitions of a signal -/

/-- A transition of signals that leaves proposed values as they are, and committed values but for
changes. -/
structure Signal.Modest (f : Signal → Signal × Commit) : Prop where
  next : ∀ s, (f s).1.next = s.next
  val : ∀ s, (f s).1.val = s.val ∨ ∃ old woken, (f s).2 = .changed old woken

namespace Signal

theorem stays_or_changes (s : Signal) (new : Value) :
    (s.apply new).1.val = s.val ∨ ∃ old woken, (s.apply new).2 = .changed old woken := by
  rcases s.apply_cases new with ⟨-, kept⟩ | ⟨-, waits, woken, changed⟩
  · exact .inl (by rw [kept])
  · exact .inr ⟨s.val, woken, by rw [changed]⟩

theorem modest_update : Modest update where
  next := next_update
  val s := by
    cases inertia : s.inertia with
    | none =>
        rw [update_of_prompt inertia]
        exact s.stays_or_changes s.next
    | some i =>
        rw [update_of_inertial inertia]
        exact .inl rfl

theorem modest_applyDeferred (value : Value) (stamp : Nat) :
    Modest fun s => s.applyDeferred value stamp where
  next s := s.next_applyDeferred value stamp
  val s := by
    cases inertia : s.inertia with
    | none =>
        rw [applyDeferred_of_prompt inertia]
        exact .inl rfl
    | some i =>
        rw [applyDeferred_of_inertial inertia]
        split
        · exact s.stays_or_changes value
        · exact .inl rfl

end Signal

/-- Proposed values are what they were, and so are committed values but for the changes. -/
structure Kernel.Moves (changes : List Change) (k k' : Kernel) : Prop where
  next : ∀ id, (k'.signal? id).map Signal.next = (k.signal? id).map Signal.next
  val : ∀ id, (∀ c ∈ changes, c.signal ≠ id) → k'.val? id = k.val? id

namespace Kernel

theorem Moves.refl (k : Kernel) : Moves [] k k := ⟨fun _ => rfl, fun _ _ => rfl⟩

theorem Moves.trans {changes later : List Change} {k k' k'' : Kernel}
    (first : Moves changes k k') (second : Moves later k' k'') :
    Moves (changes ++ later) k k'' := by
  refine ⟨fun id => (second.next id).trans (first.next id), fun id others => ?_⟩
  obtain ⟨before, after⟩ := List.forall_mem_append.mp others
  exact (second.val id after).trans (first.val id before)

/-- A shadow whose sources do not change keeps fitting. -/
theorem Moves.proposes {changes : List Change} {k k' : Kernel} (moves : Moves changes k k')
    {shadow : Shadow} (others : ∀ c ∈ changes, c.signal ∉ shadow.rule.sources)
    (proposes : k.Proposes shadow) : k'.Proposes shadow := by
  refine proposes.of_same (fun id source => moves.val id fun c listed same => ?_)
    (moves.next shadow.target)
  exact others c listed (same ▸ source)

end Kernel

namespace Desk

theorem Step.moves {d d' : Desk} (step : Desk.Step d none d') :
    Kernel.Moves [] d.kernel d'.kernel := by
  refine ⟨fun id => ?_, fun id _ => step.val? nofun id⟩
  have turns := step.turns id
  generalize d.kernel.signal? id = signal, d'.kernel.signal? id = signal' at turns ⊢
  cases turns with
  | none => rfl
  | some turn => cases turn <;> rfl

theorem Goes.moves {d d' : Desk} (goes : Goes d [] d') : Kernel.Moves [] d.kernel d'.kernel := by
  refine goes.keeps_of_log (P := fun x => Kernel.Moves [] d.kernel x.kernel)
    (fun {x happening x'} step (calm : ∀ h ∈ happening, False) moves => ?_) nofun (.refl _)
  cases happening with
  | none => exact moves.trans step.moves
  | some h => exact (calm h rfl).elim

end Desk

namespace Simulation

theorem Does.moves {s s' : Simulation σ ω} (does : Does s [] s') :
    Kernel.Moves [] s.kernel s'.kernel :=
  does.goes.moves

theorem moves_step (s : Simulation σ ω) (id : SignalId) {f : Signal → Signal × Commit}
    (modest : Signal.Modest f) :
    Kernel.Moves (s.changeOf? id f).toList s.kernel (s.step id f).1.kernel := by
  have kernel := kernel_step s id f
  refine ⟨fun id' => ?_, fun id' others => ?_⟩
  · rw [kernel, Kernel.signal?_modify]
    split
    · rw [Option.map_map]
      exact congrArg (Option.map · _) (funext modest.next)
    · rfl
  · rw [kernel, Kernel.val?, Kernel.signal?_modify]
    split
    · next here =>
        subst here
        rw [Kernel.val?]
        cases found : s.kernel.signal? id with
        | none => rfl
        | some signal =>
            refine congrArg some ((modest.val signal).resolve_right ?_)
            rintro ⟨old, woken, changed⟩
            have change := changeOf?_of_changed (f := f) found (Prod.ext rfl changed)
            rw [change] at others
            exact others _ (Option.mem_toList.mpr rfl) rfl
    · rfl

theorem moves_commitPending (s : Simulation σ ω) :
    Kernel.Moves s.commits s.kernel s.commitPending.1.kernel := by
  have each (ids : List SignalId) (s : Simulation σ ω) (failure : Except SimError Unit) :
      Kernel.Moves (s.updates ids) s.kernel (s.updateAll failure ids).1.kernel := by
    induction ids generalizing s failure with
    | nil => exact .refl _
    | cons id rest ih => exact (moves_step s id Signal.modest_update).trans (ih _ _)
  have all := each s.kernel.pending.reverse { s with kernel := { s.kernel with pending := [] } }
    (.ok ())
  exact ⟨all.next, all.val⟩

theorem moves_drainUpTo {s s' : Simulation σ ω} {count time : Nat}
    (drained : drainUpTo count s time = (s', .ok ())) :
    Kernel.Moves (s.arrivals count time) s.kernel s'.kernel := by
  induction count generalizing s with
  | zero =>
      cases drained
      exact .refl _
  | succ count ih =>
      rw [drainUpTo] at drained
      rw [arrivals]
      cases popped : s.queue.popDue time with
      | none =>
          simp only [popped] at drained
          cases drained
          exact .refl _
      | some due =>
          obtain ⟨payload, queue⟩ := due
          simp only [popped] at drained ⊢
          have fires : Kernel.Moves (changeOfPayload? { s with queue } payload).toList s.kernel
              (fire { s with queue } payload).1.kernel := by
            cases payload with
            | wake a => exact .refl _
            | apply id value stamp =>
                exact moves_step { s with queue } id (Signal.modest_applyDeferred value stamp)
          generalize fire { s with queue } payload = result at drained fires ⊢
          obtain ⟨s₁, e | ⟨⟩⟩ := result
          · cases drained
          · exact fires.trans (ih drained)

theorem moves_advanceTo {s s' : Simulation σ ω} {time : Nat}
    (next : s.queue.nextTime? = some time) (advanced : s.advanceTo time = (s', .ok ())) :
    Kernel.Moves (arrivals s.queue.size (s.moveClock time).1 time) s.kernel s'.kernel := by
  have clock := (s.does_moveClock fun e listed => EventQueue.le_of_nextTime? next listed).moves
  obtain ⟨now, delta, deltas, timeSteps, moved⟩ := moveClock_spec s time
  have queue : (s.moveClock time).1.queue = s.queue := by rw [moved]
  obtain ⟨m, d, moves, drained, world, link, rfl⟩ := parts_of_advanceTo advanced
  rw [moves] at clock queue ⊢
  dsimp only at clock queue ⊢
  rw [← queue]
  exact clock.trans (moves_drainUpTo drained)

/-- On the way to the next round, values change by what comes due alone. -/
theorem moves_leaveTick {s s' : Simulation σ ω} {cap : Option Nat} {verdict : Verdict}
    (left : s.leaveTick cap = (s', verdict)) (fine : ∀ e, verdict ≠ .ended (.error e)) :
    Kernel.Moves (s.departure cap).2 s.kernel s'.kernel := by
  rw [departure_eq]
  have way := way_of_leaveTick left
  generalize s.onward? cap = onward at way
  cases way with
  | held here | exhausted elsewhere last => exact .refl _
  | stopped elsewhere next present before => exact ⟨fun _ => rfl, fun _ _ => rfl⟩
  | failed elsewhere next inTime advanced => exact absurd rfl (fine _)
  | advanced elsewhere next inTime advanced => exact moves_advanceTo next advanced

/-- Between two rounds a shadow keeps fitting, unless a source changes. -/
theorem proposes_proceed {s s' : Simulation σ ω} {cap : Option Nat} {verdict : Verdict}
    (safe : s.desk.Safe) (went : s.proceed cap = (s', verdict))
    (fine : ∀ e, verdict ≠ .ended (.error e)) {shadow : Shadow}
    (listed : shadow ∈ s.kernel.shadows)
    (others : ∀ c ∈ (s.passage cap).2, c.signal ∉ shadow.rule.sources)
    (proposes : s.kernel.Proposes shadow) : s'.kernel.Proposes shadow := by
  obtain ⟨writes, exchanges, -⟩ := s.does_exchange
  have heard : s.exchange.1.kernel.Proposes shadow := by
    refine exchanges.goes.proposes safe (fun h listed => ?_) listed (.inl proposes)
    obtain ⟨write, -, rfl⟩ := List.mem_map.mp listed
    rfl
  rw [passage_eq] at others
  have way := s.way_of_proceed
  generalize s.settled? = settled at way others
  cases way with
  | failed exchanged proceeds =>
      cases (proceeds cap).symm.trans went
      exact absurd rfl (fine _)
  | @entered m sent exchanged proceeds =>
      rw [exchanged] at heard
      obtain ⟨entered, -⟩ := again_of_goOn ((proceeds cap).symm.trans went) fine
      have next := m.purge.does_nextDelta.moves
      rw [entered] at next
      exact next.proposes nofun (m.does_purge.moves.proposes nofun heard)
  | @settled m exchanged pending proceeds =>
      rw [exchanged] at heard
      have purged := m.does_purge.moves.proposes nofun heard
      exact (moves_leaveTick ((proceeds cap).symm.trans went) fine).proposes others purged

end Simulation

end DeltaCycle
