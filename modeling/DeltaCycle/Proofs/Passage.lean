import DeltaCycle.Proofs.Commits

/-!
# From round to round

Between two rounds, values are exchanged with the bridge, stale entries leave the wait lists, and
the clock moves on or stays. On the way to another tick the queue is drained, which is an advance
of the roster.
-/

set_option autoImplicit false

namespace DeltaCycle

open Roster

variable {σ ω : Type}

namespace Simulation

/-! ## What stays known -/

/-- The bridge, how many signals there are, and how many resumes were made. -/
def frame (s : Simulation σ ω) : Option (Bridge ω) × Nat × Nat :=
  (s.link.map (·.bridge), s.kernel.signals.size, s.stats.resumes)

theorem OutputsKnown.of_frame {s s' : Simulation σ ω} (known : s.OutputsKnown)
    (same : s'.frame = s.frame) : s'.OutputsKnown := by
  obtain ⟨link, rest⟩ := Prod.mk.inj same
  obtain ⟨size, -⟩ := Prod.mk.inj rest
  have outputs_eq : s'.outputs = s.outputs := by
    unfold outputs
    cases linked : s.link with
    | none =>
        rw [linked, Option.map_none, Option.map_eq_none_iff] at link
        rw [link]
    | some l =>
        rw [linked, Option.map_some, Option.map_eq_some_iff] at link
        obtain ⟨l', linked', bridge⟩ := link
        rw [linked']
        exact congrArg Bridge.outputs bridge
  intro id output
  rw [outputs_eq] at output
  simpa [Kernel.signal?, size] using known id output

theorem resumes_of_frame {s s' : Simulation σ ω} (same : s'.frame = s.frame) :
    s'.stats.resumes = s.stats.resumes :=
  congrArg (fun f => f.2.2) same

theorem frame_absorb (s : Simulation σ ω) (id : SignalId) (commit : Commit) :
    (s.absorb id commit).1.frame = s.frame := by
  obtain ⟨ready, queue, commits, world, absorbed⟩ := s.absorb_spec id commit
  rw [absorbed]
  rfl

theorem frame_step (s : Simulation σ ω) (id : SignalId) (f : Signal → Signal × Commit) :
    (s.step id f).1.frame = s.frame := by
  unfold step
  cases s.kernel.signal? id with
  | none => rfl
  | some signal =>
      refine (frame_absorb _ id _).trans (congrArg (Prod.mk _) (congrArg (·, _) ?_))
      exact Array.size_modify

theorem frame_updateAll (s : Simulation σ ω) (failure : Except SimError Unit)
    (ids : List SignalId) : (s.updateAll failure ids).1.frame = s.frame :=
  updateAll_induction (P := fun t => t.frame = s.frame) rfl
    (fun s₁ id same => (frame_step s₁ id _).trans same) failure ids

theorem frame_fire (s : Simulation σ ω) (payload : Payload) : (s.fire payload).1.frame = s.frame := by
  cases payload with
  | wake a => rfl
  | apply id value stamp => exact frame_step s id _

theorem frame_drainUpTo (s : Simulation σ ω) (count time : Nat) :
    (drainUpTo count s time).1.frame = s.frame :=
  drainUpTo_induction (P := fun t => t.frame = s.frame) rfl
    (fun s₁ payload queue _ same => (frame_fire { s₁ with queue } payload).trans same) count

/-! ## The exchange -/

theorem takeIn_spec (s : Simulation σ ω) (changed : Bool) (values : List (SignalId × Value)) :
    ∃ kernel, (s.takeIn changed values).1 = { s with kernel } ∧ Kernel.Edits s.kernel kernel := by
  induction values generalizing s changed with
  | nil => exact ⟨s.kernel, rfl, .refl⟩
  | cons value rest ih =>
      have edits := Kernel.edits_write s.kernel value.1 value.2 false
      rw [takeIn]
      generalize s.kernel.write value.1 value.2 false = result at edits ⊢
      obtain ⟨kernel, _ | _⟩ := result
      · exact ⟨s.kernel, rfl, .refl⟩
      · obtain ⟨kernel', same, edits'⟩ := ih { s with kernel }
          (changed || proposalDiffers s.kernel kernel value.1)
        exact ⟨kernel', same, edits.trans edits'⟩

theorem readReply_spec (s : Simulation σ ω) (l : Link ω) :
    ∃ kernel world link, (s.readReply l).1 = { s with kernel, world, link } ∧
      Kernel.Edits s.kernel kernel ∧ link.map (·.bridge) = s.link.map (·.bridge) := by
  unfold readReply
  split
  · have bridges : (s.link.map fun l => { l with awaitingReply := false }).map (·.bridge) =
        s.link.map (·.bridge) := by
      rw [Option.map_map]
      rfl
    dsimp only
    generalize l.bridge.receive _ _ = result
    obtain ⟨world, _ | values⟩ := result
    · exact ⟨s.kernel, world, _, rfl, .refl, bridges⟩
    · obtain ⟨kernel, same, edits⟩ := takeIn_spec
        { s.changeLink fun l => { l with awaitingReply := false } with world } false values
      exact ⟨kernel, world, _, same, edits, bridges⟩
  · exact ⟨s.kernel, s.world, s.link, rfl, .refl, rfl⟩

/-- An exchange changes proposed values, the world and the link, which keeps its bridge. -/
theorem exchange_spec (s : Simulation σ ω) :
    ∃ kernel world link, s.exchange.1 = { s with kernel, world, link } ∧
      Kernel.Edits s.kernel kernel ∧ link.map (·.bridge) = s.link.map (·.bridge) := by
  unfold exchange
  cases s.openLink? with
  | none => exact ⟨s.kernel, s.world, s.link, rfl, .refl, rfl⟩
  | some l =>
      obtain ⟨kernel, world, link, read, edits, bridges⟩ := readReply_spec s l
      dsimp only
      generalize s.readReply l = result at read ⊢
      obtain ⟨s', _ | inbound⟩ := result
      · exact ⟨kernel, world, link, read, edits, bridges⟩
      · dsimp only at read ⊢
        subst read
        split
        · obtain ⟨world', link', sent, bridges'⟩ :=
            sendOutputs_spec { s with kernel, world, link } l.bridge
          generalize sendOutputs { s with kernel, world, link } l.bridge = result at sent ⊢
          obtain ⟨s'', _ | _⟩ := result
          all_goals exact ⟨kernel, world', link', sent, edits, bridges'.trans bridges⟩
        · exact ⟨kernel, world, link, rfl, edits, bridges⟩

/-! ## Purging -/

/-- A signal without the entries that are not to be kept. -/
def purged (keep : Arming → Bool) (signal : Signal) : Signal :=
  { signal with waits := signal.waits.retain keep }

theorem purge_eq (s : Simulation σ ω) :
    s.purge =
      { s with
        kernel := s.stale.toList.foldl (fun k id => k.modify id (purged s.waiters.isLive)) s.kernel
        stale := {} } := by
  unfold purge
  dsimp only
  rw [Std.HashSet.fold_eq_foldl_toList]
  rfl

theorem purged_purged (keep : Arming → Bool) (signal : Signal) :
    purged keep (purged keep signal) = purged keep signal := by
  simp only [purged, WaitLists.retain, List.filter_filter, Bool.and_self]

theorem signal?_purged (keep : Arming → Bool) (ids : List SignalId) (k : Kernel) (id : SignalId) :
    (ids.foldl (fun k id => k.modify id (purged keep)) k).signal? id =
      if id ∈ ids then (k.signal? id).map (purged keep) else k.signal? id := by
  induction ids generalizing k with
  | nil => rw [List.foldl_nil, if_neg List.not_mem_nil]
  | cons first rest ih =>
      rw [List.foldl_cons, ih, Kernel.signal?_modify]
      by_cases same : first = id
      · have once : purged keep ∘ purged keep = purged keep := funext (purged_purged keep)
        rw [if_pos same, Option.map_map, once, ite_self, same, if_pos List.mem_cons_self]
      · have other : id ∈ first :: rest ↔ id ∈ rest :=
          List.mem_cons.trans (or_iff_right (Ne.symm same))
        simp only [if_neg same, other]

/-- Purging keeps the live entries of the wait lists that are noted, in order. -/
theorem signal?_purge (s : Simulation σ ω) (id : SignalId) :
    s.purge.kernel.signal? id =
      if id ∈ s.stale then (s.kernel.signal? id).map (purged s.waiters.isLive)
      else s.kernel.signal? id := by
  rw [purge_eq]
  dsimp only
  rw [signal?_purged]
  simp only [Std.HashSet.mem_toList]

theorem watchers_purge (s : Simulation σ ω) (t : Trigger) :
    s.purge.kernel.watchers t =
      if t.signal ∈ s.stale then (s.kernel.watchers t).filter s.waiters.isLive
      else s.kernel.watchers t := by
  unfold Kernel.watchers
  rw [signal?_purge]
  by_cases noted : t.signal ∈ s.stale
  · rw [if_pos noted, if_pos noted]
    cases s.kernel.signal? t.signal with
    | none => rfl
    | some signal => obtain id | ⟨id, _ | _⟩ := t <;> rfl
  · rw [if_neg noted, if_neg noted]

theorem committed_purge (s : Simulation σ ω) : s.purge.kernel.committed = s.kernel.committed := by
  have each (ids : List SignalId) (k : Kernel) :
      (ids.foldl (fun k id => k.modify id (purged s.waiters.isLive)) k).committed = k.committed := by
    induction ids generalizing k with
    | nil => rfl
    | cons id rest ih => exact (ih _).trans (k.committed_modify id fun _ => rfl)
  rw [purge_eq]
  exact each s.stale.toList s.kernel

theorem frame_purge (s : Simulation σ ω) : s.purge.frame = s.frame := by
  have size (ids : List SignalId) (k : Kernel) (f : Signal → Signal) :
      (ids.foldl (fun k id => k.modify id f) k).signals.size = k.signals.size := by
    induction ids generalizing k with
    | nil => rfl
    | cons id rest ih => exact (ih _).trans Array.size_modify
  rw [purge_eq]
  exact congrArg (Prod.mk _) (congrArg (·, _) (size s.stale.toList s.kernel _))

/-! ## Moving on -/

theorem nextDelta_spec (s : Simulation σ ω) :
    ∃ delta deltas, s.nextDelta.1 = { s with delta, stats := { s.stats with deltas } } := by
  unfold nextDelta
  dsimp only
  split <;> exact ⟨_, _, rfl⟩

theorem moveClock_spec (s : Simulation σ ω) (time : Nat) :
    ∃ now delta deltas timeSteps,
      (s.moveClock time).1 =
        { s with
          kernel := { s.kernel with now }
          delta
          stats := { s.stats with deltas, timeSteps } } := by
  unfold moveClock
  split
  · exact ⟨time, _, s.stats.deltas, _, rfl⟩
  · obtain ⟨delta, deltas, same⟩ := nextDelta_spec s
    generalize s.nextDelta = result at same ⊢
    obtain ⟨s', _ | _⟩ := result
    · exact ⟨s.kernel.now, delta, deltas, s.stats.timeSteps, same⟩
    · subst same
      exact ⟨time, delta, deltas, s.stats.timeSteps, rfl⟩

theorem frame_exchange (s : Simulation σ ω) : s.exchange.1.frame = s.frame := by
  obtain ⟨kernel, world, link, exchanged, edits, bridges⟩ := exchange_spec s
  have size := congrArg (·.signals.size) edits.committed
  simp only [Kernel.committed_signals, Array.size_map] at size
  rw [exchanged, frame, bridges, size]
  rfl

theorem frame_nextDelta (s : Simulation σ ω) : s.nextDelta.1.frame = s.frame := by
  obtain ⟨delta, deltas, next⟩ := nextDelta_spec s
  rw [next]
  rfl

theorem frame_sendOutputs (s : Simulation σ ω) (bridge : Bridge ω) :
    (s.sendOutputs bridge).1.frame = s.frame := by
  obtain ⟨world, link, sent, bridges⟩ := sendOutputs_spec s bridge
  rw [sent]
  exact congrArg (·, s.kernel.signals.size, s.stats.resumes) bridges

theorem frame_advanceTo (s : Simulation σ ω) (time : Nat) :
    (s.advanceTo time).1.frame = s.frame := by
  refine advanceTo_induction (P := fun t => t.frame = s.frame) ?_
    (fun s₁ count same => (frame_drainUpTo s₁ count time).trans same)
    (fun s₁ l _ same => (frame_sendOutputs s₁ l.bridge).trans same)
  obtain ⟨now, delta, deltas, timeSteps, moved⟩ := moveClock_spec s time
  rw [moved]
  rfl

theorem frame_proceed (s : Simulation σ ω) (cap : Option Nat) :
    (s.proceed cap).1.frame = s.frame :=
  proceed_induction (P := fun t => t.frame = s.frame) (frame_exchange s)
    (fun s₁ same => (frame_purge s₁).trans same) (fun s₁ same => (frame_nextDelta s₁).trans same)
    (fun _ _ same => same) (fun s₁ time same => (frame_advanceTo s₁ time).trans same) cap

/-- The tick whose entries `leaveTick` takes from the queue, if it takes any, and the changes
that they make. -/
def departure (s : Simulation σ ω) (cap : Option Nat) : Option Nat × List Change :=
  if cap = some s.kernel.now then
    (none, [])
  else
    match s.queue.nextTime? with
    | none => (none, [])
    | some time =>
        match cap.filter (· < time) with
        | some _ => (none, [])
        | none => (some time, arrivals s.queue.size (s.moveClock time).1 time)

theorem departure_eq (s : Simulation σ ω) (cap : Option Nat) :
    s.departure cap =
      (s.onward? cap).elim (none, []) fun time =>
        (some time, arrivals s.queue.size (s.moveClock time).1 time) :=
  (s.elim_onward? cap _ _).symm

/-- The tick whose entries are taken from the queue at the end of a cycle, if there are any, and
the changes that they make. -/
def passage (s : Simulation σ ω) (cap : Option Nat) : Option Nat × List Change :=
  match s.exchange with
  | (_, .error _) => (none, [])
  | (s, .ok exchanged) =>
      if !s.purge.kernel.pending.isEmpty || exchanged then (none, []) else s.purge.departure cap

/-- On the way to the next round the queue is looked at if the tick has settled. -/
theorem passage_eq (s : Simulation σ ω) (cap : Option Nat) :
    s.passage cap = s.settled?.elim (none, []) fun q => q.departure cap := by
  unfold passage settled?
  generalize s.exchange = result
  obtain ⟨m, e | sent⟩ := result
  · rfl
  · dsimp only
    split <;> rfl

end Simulation

namespace Tracks

variable {ledger : List Tag} {s s' : Simulation σ ω} {marks : Marks} {r : Roster σ}
  (h : Tracks ledger s marks r)

include h

theorem purge : Tracks ledger s.purge marks r := by
  have watched : Watched s.purge.kernel.watchers marks.tag r.seat r.fired r.triggers := by
    refine h.watched.shrink (fun t a listed => ?_) fun {a tag} tagged current t => ?_
    · rw [s.watchers_purge] at listed
      split at listed
      · exact List.mem_of_mem_filter listed
      · exact listed
    · rw [s.watchers_purge]
      split
      · exact List.count_filter ((h.seats.live_iff tagged).mpr current)
      · rfl
  rw [Simulation.purge_eq] at watched ⊢
  exact ⟨h.seats, h.marked, watched, h.awaited⟩

theorem advanceTo {time : Nat} (next : s.queue.nextTime? = some time)
    (advanced : s.advanceTo time = (s', .ok ())) :
    Tracks ledger s' marks
      (r.advance (Simulation.arrivals s.queue.size (s.moveClock time).1 time) (some time)) := by
  obtain ⟨m, d, moves, drained, world, link, rfl⟩ := Simulation.parts_of_advanceTo advanced
  obtain ⟨now, delta, deltas, timeSteps, moved⟩ := Simulation.moveClock_spec s time
  rw [moves] at moved ⊢
  dsimp only at moved ⊢
  subst moved
  have tracks : Tracks ledger
      { s with
        kernel := { s.kernel with now }
        delta
        stats := { s.stats with deltas, timeSteps } } marks r :=
    h.of_books rfl rfl rfl rfl
  have tracks₂ := tracks.drainUpTo (Nat.le_refl _)
    (fun e listed => EventQueue.le_of_nextTime? next listed) drained
  exact tracks₂.of_books rfl rfl rfl rfl

theorem leaveTick {cap : Option Nat} {verdict : Simulation.Verdict}
    (left : s.leaveTick cap = (s', verdict)) (fine : ∀ e, verdict ≠ .ended (.error e)) :
    Tracks ledger s' marks (r.advance (s.departure cap).2 (s.departure cap).1) := by
  rw [Simulation.departure_eq]
  have way := Simulation.way_of_leaveTick left
  generalize s.onward? cap = onward at way
  cases way with
  | held here | exhausted elsewhere last =>
      rw [Option.elim_none, advance_nil]
      exact h
  | stopped elsewhere next present before =>
      rw [Option.elim_none, advance_nil]
      exact h.of_books rfl rfl rfl rfl
  | failed elsewhere next inTime advanced => exact absurd rfl (fine _)
  | advanced elsewhere next inTime advanced => exact h.advanceTo next advanced

/-- What follows a round is an advance, unless it fails. -/
theorem proceed {cap : Option Nat} {verdict : Simulation.Verdict}
    (went : s.proceed cap = (s', verdict)) (fine : ∀ e, verdict ≠ .ended (.error e)) :
    Tracks ledger s' marks (r.advance (s.passage cap).2 (s.passage cap).1) := by
  obtain ⟨kernel, world, link, exchanged, edits, -⟩ := Simulation.exchange_spec s
  have tracks : Tracks ledger { s with kernel, world, link } marks r :=
    h.of_books rfl rfl rfl edits.watchers
  rw [← exchanged] at tracks
  rw [Simulation.passage_eq]
  have way := s.way_of_proceed
  generalize s.settled? = settled at way
  cases way with
  | failed exchanged proceeds =>
      cases (proceeds cap).symm.trans went
      exact absurd rfl (fine _)
  | @entered m sent exchanged proceeds =>
      rw [exchanged] at tracks
      obtain ⟨entered, -⟩ := Simulation.again_of_goOn ((proceeds cap).symm.trans went) fine
      obtain ⟨delta, deltas, next⟩ := m.purge.nextDelta_spec
      rw [entered] at next
      dsimp only at next
      subst next
      rw [Option.elim_none, advance_nil]
      exact tracks.purge.of_books rfl rfl rfl rfl
  | settled exchanged pending proceeds =>
      rw [exchanged] at tracks
      exact tracks.purge.leaveTick ((proceeds cap).symm.trans went) fine

end Tracks

end DeltaCycle
