import DeltaCycle.Proofs.Filing
import DeltaCycle.Proofs.Rest

/-!
# Sweeping

Between the resumes, wait lists lose entries and gain none. Only the lists that were noted are
purged, but if nothing was left behind that is enough: what an entry that is stale was listed for
was noted when its waiter was claimed, so that to sweep all lists would take no more entries.
-/

set_option autoImplicit false

namespace DeltaCycle

variable {σ ω : Type}

namespace Simulation

variable {left : List (Remnant σ)} {s s' : Simulation σ ω}

/-! ## What adds no entry -/

/-- No wait list gains an entry, and the waiters stay. -/
structure Sheds (s s' : Simulation σ ω) : Prop where
  waiters : s'.waiters = s.waiters
  stale : s'.stale = s.stale
  fewer : ∀ {t a}, a ∈ s'.kernel.watchers t → a ∈ s.kernel.watchers t

theorem Sheds.refl (s : Simulation σ ω) : Sheds s s := ⟨rfl, rfl, id⟩

theorem Sheds.trans {s'' : Simulation σ ω} (first : Sheds s s') (second : Sheds s' s'') :
    Sheds s s'' :=
  ⟨second.waiters.trans first.waiters, second.stale.trans first.stale,
    fun listed => first.fewer (second.fewer listed)⟩

/-- A transition of a signal empties the lists of the triggers that it fires. -/
theorem step_spec {id : SignalId} {f : Signal → Signal × Commit}
    (moves : ∀ signal, Signal.Moves s.kernel.now id signal (f signal)) :
    ∃ kernel queue ready stats world,
      (s.step id f).1 = { s with kernel, queue, ready, stats, world } ∧
        ∀ t, kernel.watchers t =
          if (s.changeOf? id f).toList.any (t.firedBy ·) then [] else s.kernel.watchers t := by
  unfold step changeOf?
  cases found : s.kernel.signal? id with
  | none => exact ⟨_, _, _, _, _, rfl, fun t => rfl⟩
  | some signal =>
      have outcome := moves signal
      rcases moved : f signal with ⟨signal', commit⟩
      rw [moved] at outcome
      simp only [moved]
      have kept (waits : signal'.waits = signal.waits) (t : Trigger) :
          (s.kernel.modify id fun _ => signal').watchers t = s.kernel.watchers t := by
        have same := Kernel.watchers_modify s.kernel id (f := fun _ => signal')
          fun signal₁ found₁ => by
            cases found.symm.trans found₁
            exact waits
        rw [same]
      cases commit with
      | unchanged =>
          cases outcome
          exact ⟨_, _, _, _, _, rfl, kept rfl⟩
      | deferred delay value stamp =>
          cases outcome with
          | deferred waits =>
              unfold absorb
              dsimp only
              split
              · exact ⟨_, _, _, _, _, rfl, kept waits⟩
              · exact ⟨_, _, _, _, _, rfl, kept waits⟩
      | changed old woken =>
          obtain rfl : old = signal.val := by
            cases outcome
            rfl
          obtain ⟨watchers, -⟩ := Kernel.watchers_moves found outcome
          obtain ⟨world, reported⟩ := report_spec
            { s with
              stats := { s.stats with commits := s.stats.commits + 1 }
              ready := s.ready.append woken
              kernel := s.kernel.modify id fun _ => signal' } id signal.val
          refine ⟨_, _, _, _, _, reported, fun t => (watchers t).trans ?_⟩
          rw [Option.toList_some, List.any_cons, List.any_nil, Bool.or_false]

theorem sheds_step {id : SignalId} {f : Signal → Signal × Commit}
    (moves : ∀ signal, Signal.Moves s.kernel.now id signal (f signal)) :
    Sheds s (s.step id f).1 := by
  obtain ⟨kernel, queue, ready, stats, world, stepped, watchers⟩ := step_spec moves
  rw [stepped]
  refine ⟨rfl, rfl, fun {t a} listed => ?_⟩
  rw [watchers] at listed
  split at listed
  · cases listed
  · exact listed

theorem sheds_updateAll (s : Simulation σ ω) (failure : Except SimError Unit)
    (ids : List SignalId) : Sheds s (s.updateAll failure ids).1 :=
  updateAll_induction (.refl s) (fun s₁ id sheds =>
    sheds.trans (sheds_step fun signal => signal.moves_update s₁.kernel.now id)) failure ids

theorem sheds_commitPending (s : Simulation σ ω) : Sheds s s.commitPending.1 := by
  have emptied : Sheds s { s with kernel := { s.kernel with pending := [] } } :=
    ⟨rfl, rfl, fun listed => listed⟩
  exact emptied.trans (sheds_updateAll _ _ _)

/-- Updates of signals empty the lists of the triggers that they fire. -/
theorem watchers_updateAll (s : Simulation σ ω) (failure : Except SimError Unit)
    (ids : List SignalId) (t : Trigger) : (s.updateAll failure ids).1.kernel.watchers t =
      if (s.updates ids).any (t.firedBy ·) then [] else s.kernel.watchers t := by
  induction ids generalizing s failure with
  | nil => rfl
  | cons id rest ih =>
      obtain ⟨kernel, queue, ready, stats, world, stepped, watchers⟩ :=
        step_spec (s := s) fun signal => signal.moves_update s.kernel.now id
      have first : (s.step id Signal.update).1.kernel.watchers t =
          if (s.changeOf? id Signal.update).toList.any (t.firedBy ·) then []
          else s.kernel.watchers t := by
        rw [stepped]
        exact watchers t
      refine (ih (s.step id Signal.update).1 _).trans ?_
      rw [first, updates, List.any_append]
      by_cases now : (s.changeOf? id Signal.update).toList.any (t.firedBy ·) = true
      · rw [if_pos now, now, Bool.true_or, if_pos rfl, ite_self]
      · rw [if_neg now, Bool.eq_false_iff.mpr now, Bool.false_or]

theorem watchers_commitPending (s : Simulation σ ω) (t : Trigger) :
    s.commitPending.1.kernel.watchers t =
      if s.commits.any (t.firedBy ·) then [] else s.kernel.watchers t :=
  watchers_updateAll _ _ _ t

theorem sheds_drainUpTo (s : Simulation σ ω) (count time : Nat) :
    Sheds s (drainUpTo count s time).1 := by
  refine drainUpTo_induction (.refl s) (fun s₁ payload queue _ sheds => ?_) count
  have popped : Sheds s { s₁ with queue } := sheds.trans ⟨rfl, rfl, fun listed => listed⟩
  refine popped.trans ?_
  cases payload with
  | wake a => exact ⟨rfl, rfl, fun listed => listed⟩
  | apply id value stamp =>
      exact sheds_step fun signal => signal.moves_applyDeferred s₁.kernel.now id value stamp

theorem sheds_advanceTo (s : Simulation σ ω) (time : Nat) : Sheds s (s.advanceTo time).1 := by
  refine advanceTo_induction ?_ (fun s₁ count sheds => sheds.trans (sheds_drainUpTo s₁ count time)) ?_
  · obtain ⟨now, delta, deltas, timeSteps, moved⟩ := moveClock_spec s time
    rw [moved]
    exact ⟨rfl, rfl, fun listed => listed⟩
  · intro s₁ l _ sheds
    obtain ⟨world, link, sent, -⟩ := sendOutputs_spec s₁ l.bridge
    rw [sent]
    exact sheds.trans ⟨rfl, rfl, fun listed => listed⟩

theorem sheds_exchange (s : Simulation σ ω) : Sheds s s.exchange.1 := by
  obtain ⟨kernel, world, link, exchanged, edits, -⟩ := exchange_spec s
  rw [exchanged]
  refine ⟨rfl, rfl, fun {t a} listed => ?_⟩
  rwa [← edits.watchers]

theorem Filed.sheds (h : Filed left s) (sheds : Sheds s s') : Filed left s' :=
  h.same sheds.waiters sheds.stale sheds.fewer

/-! ## Purging -/

theorem Filed.purge (h : Filed left s) : Filed left s.purge := by
  have waiters : s.purge.waiters = s.waiters := rfl
  have fewer {t : Trigger} {a : Arming} (listed : a ∈ s.purge.kernel.watchers t) :
      a ∈ s.kernel.watchers t := by
    rw [watchers_purge] at listed
    split at listed
    · exact List.mem_of_mem_filter listed
    · exact listed
  refine ⟨h.wellFormed, h.issued, fun listed => h.entered (fewer listed), fun {t a} listed => ?_,
    h.called, h.joined, h.past⟩
  rw [waiters]
  rcases h.booked (fewer listed) with remembers | ⟨dead, noted | remnant⟩
  · exact .inl remembers
  · rw [watchers_purge, if_pos noted] at listed
    have live := (List.mem_filter.mp listed).2
    exact absurd (live.symm.trans dead) Bool.false_ne_true.symm
  · exact .inr ⟨dead, .inr remnant⟩

/-- After a purge, an entry is live, or it is what a remnant had been granted. -/
theorem Filed.live_of_purge (h : Filed left s) {t : Trigger} {a : Arming}
    (listed : a ∈ s.purge.kernel.watchers t) : s.waiters.isLive a = true ∨
      ∃ remnant ∈ left, remnant.arming = a ∧ .trigger t ∈ remnant.granted := by
  rcases h.purge.booked listed with remembers | ⟨-, noted | remnant⟩
  · exact .inl remembers.isLive
  · exact absurd noted Std.HashSet.not_mem_empty
  · exact .inr remnant

end Simulation

/-! ## Sweeping -/

theorem WaitLists.mem_all {w : WaitLists} {a : Arming} (id : SignalId) :
    a ∈ w.all ↔ ∃ t : Trigger, t.signal = id ∧ a ∈ w.list t := by
  unfold all
  rw [List.mem_append, List.mem_append]
  constructor
  · rintro ((listed | listed) | listed)
    · exact ⟨.event id, rfl, listed⟩
    · exact ⟨.edge ⟨id, .rising⟩, rfl, listed⟩
    · exact ⟨.edge ⟨id, .falling⟩, rfl, listed⟩
  · rintro ⟨signal | ⟨signal, _ | _⟩, -, listed⟩
    · exact .inl (.inl listed)
    · exact .inl (.inr listed)
    · exact .inr listed

/-- The entries of the wait lists of a signal are those that wait for its triggers. -/
theorem Kernel.mem_waits {k : Kernel} (id : SignalId) {signal : Signal}
    (found : k.signal? id = some signal) {a : Arming} :
    a ∈ signal.waits.all ↔ ∃ t : Trigger, t.signal = id ∧ a ∈ k.watchers t := by
  rw [WaitLists.mem_all id]
  refine exists_congr fun t => and_congr_right fun same => ?_
  unfold watchers
  rw [same, found]

theorem WaitLists.retain_eq_self {w : WaitLists} {keep : Arming → Bool}
    (kept : ∀ a ∈ w.all, keep a = true) : w.retain keep = w := by
  obtain ⟨event, rising, falling⟩ := w
  simp only [all, List.forall_mem_append] at kept
  obtain ⟨⟨events, rises⟩, falls⟩ := kept
  simp only [retain, List.filter_eq_self.mpr events, List.filter_eq_self.mpr rises,
    List.filter_eq_self.mpr falls]

namespace Simulation

variable {left : List (Remnant σ)} {s s' : Simulation σ ω}

/-- All wait lists without their stale entries. -/
def sweep (s : Simulation σ ω) : Simulation σ ω :=
  { s with
    kernel := { s.kernel with signals := s.kernel.signals.map (purged s.waiters.isLive) }
    stale := {} }

theorem staleEntries_eq_zero_iff : s.staleEntries = 0 ↔
    ∀ t, ∀ a ∈ s.kernel.watchers t, s.waiters.isLive a = true := by
  unfold staleEntries
  simp only [List.countP_eq_zero, List.mem_flatMap, Array.mem_toList_iff, Bool.not_eq_true',
    Bool.not_eq_false]
  constructor
  · intro fresh t a listed
    cases found : s.kernel.signal? t.signal with
    | none =>
        rw [Kernel.watchers, found] at listed
        cases listed
    | some signal =>
        have entered := (Kernel.mem_waits _ found).mpr ⟨t, rfl, listed⟩
        exact fresh a ⟨signal, Array.mem_of_getElem? found, entered⟩
  · rintro live a ⟨signal, listed, entered⟩
    obtain ⟨index, found⟩ := Array.mem_iff_getElem?.mp listed
    obtain ⟨t, -, waits⟩ := (Kernel.mem_waits ⟨index⟩ found).mp entered
    exact live t a waits

/-- Where all that is stale was noted, purging is sweeping. -/
theorem Filed.purge_eq_sweep (h : Filed [] s) : s.purge = s.sweep := by
  have signals : s.purge.kernel.signals = s.kernel.signals.map (purged s.waiters.isLive) := by
    refine Array.ext_getElem? fun index => ?_
    rw [Array.getElem?_map]
    have purges := signal?_purge s ⟨index⟩
    split at purges
    · exact purges
    · next unnoted =>
        refine purges.trans ?_
        cases found : s.kernel.signals[index]? with
        | none => exact found
        | some signal =>
            have fresh : ∀ a ∈ signal.waits.all, s.waiters.isLive a = true := by
              intro a entered
              obtain ⟨t, same, listed⟩ := (Kernel.mem_waits ⟨index⟩ found).mp entered
              rcases h.booked listed with remembers | ⟨-, noted | ⟨_, none, -⟩⟩
              · exact remembers.isLive
              · exact absurd (same ▸ noted) unnoted
              · cases none
            refine Eq.trans found (congrArg some ?_)
            rw [purged, WaitLists.retain_eq_self fresh]
  obtain ⟨signals', kernel⟩ := kernel_purge s
  obtain rfl : signals' = s.purge.kernel.signals := by rw [kernel]
  rw [signals] at kernel
  exact congrArg (fun kernel => ({ s with kernel, stale := {} } : Simulation σ ω)) kernel

theorem Filed.staleEntries_purge (h : Filed [] s) : s.purge.staleEntries = 0 := by
  refine staleEntries_eq_zero_iff.mpr fun t a listed => ?_
  rcases h.live_of_purge listed with live | ⟨_, none, -⟩
  · exact live
  · cases none

end Simulation

end DeltaCycle
