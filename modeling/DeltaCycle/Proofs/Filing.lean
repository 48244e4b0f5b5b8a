import DeltaCycle.Proofs.Lapses
import DeltaCycle.Proofs.Passage
import DeltaCycle.Proofs.Tenancy

/-!
# What wait lists hold

A waiter that is armed on a trigger remembers the signal, and when it is claimed the signals that
it remembers are noted for the next purge. So an entry of a wait list belongs to the current arming
of a waiter that remembers the signal, or the signal is noted. Only what an arming that was refused
in the middle had been granted is not accounted for: the waiter is removed, and what it remembered
is forgotten with it.
-/

set_option autoImplicit false

namespace DeltaCycle

variable {σ ω : Type}

/-- What a waiter that was refused leaves behind: the arming, and the alternatives on which it had
been armed before one was refused. -/
structure Remnant (σ : Type) where
  arming : Arming
  granted : List (Alternative σ)

/-- What the waiter leaves behind. -/
def Lapse.remnant (k : Kernel) (lapse : Lapse σ) : Remnant σ :=
  ⟨lapse.arming, lapse.asked.takeWhile (·.isAccepted k)⟩

theorem Lapse.remnant_of_committed {k k' : Kernel} (same : k'.committed = k.committed)
    (lapse : Lapse σ) : lapse.remnant k' = lapse.remnant k := by
  simp only [remnant, Alternative.isAccepted_of_committed same]

namespace Simulation

/-- The entries of the wait lists are accounted for, but for what the remnants had been granted. -/
structure Filed (left : List (Remnant σ)) (s : Simulation σ ω) : Prop where
  wellFormed : s.waiters.WellFormed
  issued : ∀ {slot waiter}, s.waiters.waiter? slot = some waiter →
    waiter.token ≤ s.waiters.lastToken
  entered : ∀ {t a}, a ∈ s.kernel.watchers t → a.token ≤ s.waiters.lastToken
  booked : ∀ {t a}, a ∈ s.kernel.watchers t → s.waiters.Remembers a t.signal ∨
    s.waiters.isLive a = false ∧ (t.signal ∈ s.stale ∨
      ∃ remnant ∈ left, remnant.arming = a ∧ .trigger t ∈ remnant.granted)
  called : ∀ {key group}, s.waiters.join? key = some group →
    group.caller.token ≤ s.waiters.lastToken
  joined : ∀ {key group}, s.waiters.join? key = some group → ∀ remnant ∈ left,
    group.caller = remnant.arming → ∃ clauses, .join clauses ∈ remnant.granted
  past : ∀ remnant ∈ left, remnant.arming.token ≤ s.waiters.lastToken

/-- A waiter that was claimed is being armed, and was granted some alternatives so far. -/
structure Arms (left : List (Remnant σ)) (me : Arming) (granted : List (Alternative σ))
    (s : Simulation σ ω) : Prop extends Filed left s where
  held : ∃ waiter, s.waiters.waiter? me.slot = some waiter ∧ waiter.token = me.token
  own : ∀ {t}, me ∈ s.kernel.watchers t → .trigger t ∈ granted
  opened : ∀ {key group}, s.waiters.join? key = some group → group.caller = me →
    ∃ clauses, .join clauses ∈ granted
  apart : ∀ remnant ∈ left, remnant.arming ≠ me

variable {B : Behaviours σ ω} {left : List (Remnant σ)} {me : Arming}
  {granted : List (Alternative σ)} {s s' : Simulation σ ω}

/-! ## What keeps the account -/

/-- Waiters may come and entries may go. -/
theorem Filed.evolves (h : Filed left s) (evolves : s.waiters.Evolves s'.waiters)
    (stale : s'.stale = s.stale)
    (fewer : ∀ {t a}, a ∈ s'.kernel.watchers t → a ∈ s.kernel.watchers t) : Filed left s' where
  wellFormed := evolves.wellFormed
  issued found := by
    have later := evolves.later
    rcases evolves.others found with ⟨waiter, was, token⟩ | ⟨-, upper⟩
    · have issued := h.issued was
      omega
    · exact upper
  entered listed := Nat.le_trans (h.entered (fewer listed)) evolves.later
  booked listed := by
    have issued := h.entered (fewer listed)
    rw [stale]
    rcases h.booked (fewer listed) with remembers | ⟨dead, noted⟩
    · exact .inl (evolves.remembers remembers)
    · exact .inr ⟨evolves.stale issued dead, noted⟩
  called found := by
    obtain ⟨group, was, caller⟩ := evolves.callers found
    rw [← caller]
    exact Nat.le_trans (h.called was) evolves.later
  joined found remnant listed caller := by
    obtain ⟨group, was, same⟩ := evolves.callers found
    exact h.joined was remnant listed (same.trans caller)
  past remnant listed := Nat.le_trans (h.past remnant listed) evolves.later

theorem Filed.same (h : Filed left s) (waiters : s'.waiters = s.waiters) (stale : s'.stale = s.stale)
    (fewer : ∀ {t a}, a ∈ s'.kernel.watchers t → a ∈ s.kernel.watchers t) : Filed left s' := by
  refine h.evolves ?_ stale fewer
  rw [waiters]
  exact .refl h.wellFormed

/-- A waiter may be claimed or leave, if it is accounted for the entries of its arming. -/
theorem Filed.vacates (h : Filed left s) {slot : Nat} {left' : List (Remnant σ)}
    (vacates : s.waiters.Vacates slot s'.waiters)
    (watchers : s'.kernel.watchers = s.kernel.watchers)
    (noted : ∀ id ∈ s.stale, id ∈ s'.stale) (among : ∀ remnant ∈ left, remnant ∈ left')
    (own : ∀ {t a}, a ∈ s.kernel.watchers t → a.slot = slot → s.waiters.Remembers a t.signal →
      t.signal ∈ s'.stale ∨ ∃ remnant ∈ left', remnant.arming = a ∧ .trigger t ∈ remnant.granted)
    (new : ∀ remnant ∈ left', remnant ∈ left ∨ remnant.arming.token ≤ s.waiters.lastToken ∧
      ∀ {key group}, s.waiters.join? key = some group → group.caller = remnant.arming →
        ∃ clauses, .join clauses ∈ remnant.granted) : Filed left' s' where
  wellFormed := vacates.wellFormed
  issued {x waiter'} found := by
    by_cases here : x = slot
    · subst here
      exact (vacates.here found).2
    · rw [vacates.elsewhere here] at found
      exact Nat.le_trans (h.issued found) vacates.later
  entered listed := by
    rw [watchers] at listed
    exact Nat.le_trans (h.entered listed) vacates.later
  booked {t a} listed := by
    rw [watchers] at listed
    have issued := h.entered listed
    rcases h.booked listed with remembers | ⟨stale, account⟩
    · by_cases here : a.slot = slot
      · exact .inr ⟨vacates.stale issued (.inr here), own listed here remembers⟩
      · exact .inl (vacates.remembers here remembers)
    · refine .inr ⟨vacates.stale issued (.inl stale), account.imp (noted _) ?_⟩
      rintro ⟨remnant, before, left⟩
      exact ⟨remnant, among remnant before, left⟩
  called found := by
    rw [vacates.joins] at found
    exact Nat.le_trans (h.called found) vacates.later
  joined found remnant listed := by
    rw [vacates.joins] at found
    rcases new remnant listed with before | ⟨-, opened⟩
    · exact h.joined found remnant before
    · exact opened found
  past remnant listed := by
    rcases new remnant listed with before | ⟨issued, -⟩
    · exact Nat.le_trans (h.past remnant before) vacates.later
    · exact Nat.le_trans issued vacates.later

theorem Arms.evolves (h : Arms left me granted s) (evolves : s.waiters.Evolves s'.waiters)
    (stale : s'.stale = s.stale) (watchers : s'.kernel.watchers = s.kernel.watchers) :
    Arms left me granted s' where
  toFiled := h.toFiled.evolves evolves stale fun listed => by rwa [watchers] at listed
  held := by
    obtain ⟨waiter, found, token⟩ := h.held
    obtain ⟨waiter', found', token', -⟩ := evolves.kept found
    exact ⟨waiter', found', token'.trans token⟩
  own listed := h.own (by rwa [watchers] at listed)
  opened found caller := by
    obtain ⟨group, was, same⟩ := evolves.callers found
    exact h.opened was (same.trans caller)
  apart := h.apart

theorem Arms.grant (h : Arms left me granted s) (alternative : Alternative σ) :
    Arms left me (granted ++ [alternative]) s where
  toFiled := h.toFiled
  held := h.held
  own listed := List.mem_append_left _ (h.own listed)
  opened found caller := by
    obtain ⟨clauses, listed⟩ := h.opened found caller
    exact ⟨clauses, List.mem_append_left _ listed⟩
  apart := h.apart

/-! ## Arming -/

theorem Arms.addWaiter (h : Arms left me granted s) (title : String) (body : Body σ)
    (parent : Option Continuation) : Arms left me granted (s.addWaiter title body parent) :=
  h.evolves (.insert h.wellFormed title body parent) rfl rfl

theorem Arms.addBranches (h : Arms left me granted s) (group : Nat) (clauses : List (Clause σ)) :
    Arms left me granted (clauses.foldl (addBranch B group) s) := by
  induction clauses generalizing s with
  | nil => exact h
  | cons clause rest ih =>
      obtain ⟨title, added⟩ := addBranch_eq (B := B) s group clause
      rw [List.foldl_cons, added]
      exact ih (h.addWaiter title _ _)

theorem Arms.watch (h : Arms left me granted s) {trigger : Trigger}
    (known : (s.kernel.signal? trigger.signal).isSome = true) :
    Arms left me (granted ++ [.trigger trigger]) (s.watch me trigger).1 := by
  obtain ⟨signal, present⟩ := Option.isSome_iff_exists.mp known
  have noted : s.waiters.Evolves (s.waiters.noteSubscription me.slot trigger.signal) :=
    .modify h.wellFormed me.slot (fun _ => rfl) (fun _ => rfl)
      fun _ _ listed => List.mem_cons_of_mem _ listed
  have still : Arms left me granted
      { s with waiters := s.waiters.noteSubscription me.slot trigger.signal } :=
    h.evolves noted rfl rfl
  have lists := Kernel.watchers_watch known me
  obtain ⟨waiter, found, token⟩ := h.held
  have remembers : (s.waiters.noteSubscription me.slot trigger.signal).Remembers me trigger.signal := by
    refine ⟨{ waiter with subscriptions := trigger.signal :: waiter.subscriptions }, ?_, token,
      List.mem_cons_self⟩
    rw [WaiterTable.noteSubscription, WaiterTable.waiter?_modify, if_pos rfl, found]
    rfl
  have cases_of {t : Trigger} {a : Arming}
      (listed : a ∈ (if t = trigger then me :: s.kernel.watchers t else s.kernel.watchers t)) :
      (a = me ∧ t = trigger) ∨ a ∈ s.kernel.watchers t := by
    split at listed
    · next same => exact (List.mem_cons.mp listed).imp_left fun own => ⟨own, same⟩
    · exact .inr listed
  unfold Simulation.watch
  rw [present]
  dsimp only
  refine ⟨⟨still.wellFormed, still.issued, fun {t a} listed => ?_, fun {t a} listed => ?_,
    still.called, still.joined, still.past⟩, still.held, fun {t} listed => ?_,
    (still.grant (.trigger trigger)).opened, still.apart⟩
  · rw [lists] at listed
    rcases cases_of listed with ⟨rfl, -⟩ | listed
    · rw [← token]
      exact h.issued found
    · exact still.entered listed
  · rw [lists] at listed
    rcases cases_of listed with ⟨rfl, rfl⟩ | listed
    · exact .inl remembers
    · exact still.booked listed
  · rw [lists] at listed
    rcases cases_of listed with ⟨-, rfl⟩ | listed
    · exact List.mem_append_right _ List.mem_cons_self
    · exact List.mem_append_left _ (still.own listed)

theorem Arms.openJoin (h : Arms left me granted s) (clauses : List (Clause σ)) :
    Arms left me (granted ++ [.join clauses])
      { s with waiters := (s.waiters.openJoin clauses.length me).2 } := by
  obtain ⟨lastToken, waiters⟩ := s.waiters.openJoin_kept clauses.length me
  have joins := h.wellFormed.join?_openJoin clauses.length me
  have remembers {a : Arming} {signal : SignalId} :
      (s.waiters.openJoin clauses.length me).2.Remembers a signal ↔ s.waiters.Remembers a signal := by
    simp only [WaiterTable.Remembers, waiters]
  have live (a : Arming) :
      (s.waiters.openJoin clauses.length me).2.isLive a = s.waiters.isLive a := by
    simp only [WaiterTable.isLive, waiters]
  obtain ⟨waiter, found, token⟩ := h.held
  have issued : me.token ≤ s.waiters.lastToken := by
    rw [← token]
    exact h.issued found
  refine ⟨⟨h.wellFormed.openJoin clauses.length me, fun {slot waiter} found => ?_,
    fun listed => ?_, fun listed => ?_, fun {key group} found => ?_,
    fun {key group} found remnant listed caller => ?_, fun remnant listed => ?_⟩,
    ⟨waiter, (waiters _).trans found, token⟩, fun listed => List.mem_append_left _ (h.own listed),
    fun {key group} found caller => ?_, h.apart⟩
  · rw [lastToken]
    exact h.issued ((waiters slot).symm.trans found)
  · rw [lastToken]
    exact h.entered listed
  · simp only [remembers, live]
    exact h.booked listed
  · rw [lastToken]
    rw [joins] at found
    split at found
    · cases found
      exact issued
    · exact h.called found
  · rw [joins] at found
    split at found
    · cases found
      exact absurd caller.symm (h.apart remnant listed)
    · exact h.joined found remnant listed caller
  · rw [lastToken]
    exact h.past remnant listed
  · rw [joins] at found
    split at found
    · exact ⟨clauses, List.mem_append_right _ List.mem_cons_self⟩
    · exact (h.grant (.join clauses)).opened found caller

theorem Arms.armOn (h : Arms left me granted s) {alternative : Alternative σ}
    (accepted : alternative.isAccepted s.kernel = true) :
    Arms left me (granted ++ [alternative]) (s.armOn B me alternative).1 := by
  cases alternative with
  | trigger trigger => exact h.watch accepted
  | delay ticks =>
      change Arms left me _ (s.wakeAfter me ticks).1
      unfold wakeAfter
      cases s.after ticks with
      | error e => exact h.grant _
      | ok time => exact (h.grant _).evolves (.refl h.wellFormed) rfl rfl
  | noop => exact (h.grant .noop).evolves (.refl h.wellFormed) rfl rfl
  | spawn child => exact (h.grant (.spawn child)).addWaiter _ _ _
  | join clauses => exact (h.openJoin clauses).addBranches _ clauses
  | refused e => cases accepted

/-- An alternative that is accepted is granted, and the first that is not is the end of it. -/
theorem Arms.armOnAll (h : Arms left me granted s) (alternatives : List (Alternative σ)) :
    Arms left me (granted ++ alternatives.takeWhile (·.isAccepted s.kernel))
      (s.armOnAll B me alternatives).1 := by
  induction alternatives generalizing s granted with
  | nil =>
      rw [List.takeWhile_nil, List.append_nil]
      exact h
  | cons alternative rest ih =>
      cases accepted : alternative.isAccepted s.kernel with
      | false =>
          obtain ⟨e, refused⟩ := armOnAll_of_refused B me accepted rest
          rw [List.takeWhile_cons_of_neg (by simp [accepted]), List.append_nil, refused]
          exact h
      | true =>
          have armed := h.armOn (B := B) accepted
          obtain ⟨s₁, granted₁, goesOn, same⟩ :=
            armOnAll_of_accepted B me accepted rest
          rw [granted₁] at armed
          have further := ih armed
          simp only [Alternative.isAccepted_of_committed same] at further
          rw [List.takeWhile_cons_of_pos accepted, List.append_cons, goesOn]
          exact further

/-! ## Settling -/

/-- A waiter that leaves takes with it what it remembered. -/
theorem Arms.removed (h : Arms left me granted s)
    (waiters : s'.waiters = (s.waiters.remove me.slot).2) (stale : s'.stale = s.stale)
    (watchers : s'.kernel.watchers = s.kernel.watchers) :
    Filed (left ++ [⟨me, granted⟩]) s' := by
  obtain ⟨waiter, held, token⟩ := h.held
  have issued : me.token ≤ s.waiters.lastToken := by
    rw [← token]
    exact h.issued held
  have vacates : s.waiters.Vacates me.slot s'.waiters := by
    rw [waiters]
    exact .remove h.wellFormed me.slot
  refine h.toFiled.vacates vacates watchers (fun id noted => by rwa [stale])
    (fun remnant => List.mem_append_left _) (fun {t a} listed here remembers => .inr ?_)
    (fun remnant listed => (List.mem_append.mp listed).imp_right fun own => ?_)
  · obtain ⟨waiter', was, token', -⟩ := remembers
    rw [here, held] at was
    cases was
    obtain rfl : a = me := by
      cases a
      cases me
      exact congrArg₂ Arming.mk here (token'.symm.trans token)
    exact ⟨⟨a, granted⟩, List.mem_append_right _ List.mem_cons_self, rfl, h.own listed⟩
  · obtain rfl := List.mem_singleton.mp own
    exact ⟨issued, h.opened⟩

/-- A waiter that had been granted nothing leaves nothing. -/
theorem Filed.forget (h : Filed (left ++ [⟨me, []⟩]) s) : Filed left s where
  wellFormed := h.wellFormed
  issued := h.issued
  entered := h.entered
  booked listed := by
    refine (h.booked listed).imp_right fun ⟨dead, noted⟩ => ⟨dead, noted.imp_right ?_⟩
    rintro ⟨remnant, among, same, asked⟩
    rcases List.mem_append.mp among with before | own
    · exact ⟨remnant, before, same, asked⟩
    · cases List.mem_singleton.mp own
      cases asked
  called := h.called
  joined found remnant listed := h.joined found remnant (List.mem_append_left _ listed)
  past remnant listed := h.past remnant (List.mem_append_left _ listed)

theorem Filed.release {waiters waiters' : WaiterTable (Body σ)} (h : Filed left { s with waiters })
    (evolves : waiters.Evolves waiters') (caller : Option Arming) :
    Filed left (s.release (caller, waiters')) := by
  cases caller <;> exact h.evolves evolves rfl id

theorem Arms.complete (h : Arms left me [] s) : Filed left (s.complete me.slot) := by
  have removed : Filed left { s with waiters := (s.waiters.remove me.slot).2 } := by
    apply Filed.forget
    exact h.removed rfl rfl rfl
  have wf := removed.wellFormed
  unfold Simulation.complete
  generalize s.waiters.remove me.slot = result at removed wf
  obtain ⟨_ | caller | group, waiters⟩ := result
  · exact removed.release (.refl wf) none
  · exact removed.release (.refl wf) (some caller)
  · exact removed.release (.completeBranch wf group) _

/-- What is left after an act has been settled: what a waiter had been granted that was refused. -/
theorem Arms.settle (h : Arms left me [] s) (done : Act σ) :
    Filed (match (s.settle B me done).2 with
      | .ok _ => left
      | .error _ => left ++ [⟨me, done.asked.takeWhile (·.isAccepted s.kernel)⟩])
      (s.settle B me done).1 := by
  cases done with
  | completes => exact h.complete
  | fails e => exact h.removed rfl rfl rfl
  | waits body alternatives =>
      have restored : s.waiters.Evolves (s.waiters.restore me.slot body) :=
        .modify h.wellFormed me.slot (fun _ => rfl) (fun _ => rfl) fun _ _ => id
      have back : Arms left me [] { s with waiters := s.waiters.restore me.slot body } :=
        h.evolves restored rfl rfl
      have armed := back.armOnAll (B := B) alternatives
      dsimp only [List.nil_append] at armed
      unfold Simulation.settle rearm
      dsimp only
      generalize Simulation.armOnAll B _ me alternatives = result at armed ⊢
      obtain ⟨s₁, e | ⟨⟩⟩ := result
      · exact armed.removed rfl rfl rfl
      · exact armed.toFiled

/-! ## Resuming -/

theorem Filed.claim (h : Filed left s) {a : Arming} {body : Body σ} {stale : List SignalId}
    {waiters : WaiterTable (Body σ)}
    (claimed : s.waiters.consume a = (some (me, body, stale), waiters)) :
    Arms left me [] { s with waiters, stale := s.stale.insertMany stale } := by
  have vacates : s.waiters.Vacates a.slot waiters := .consume h.wellFormed claimed
  obtain ⟨waiter, held, rfl, rfl, own⟩ := WaiterTable.waiter?_of_consume claimed
  have more {id : SignalId} (noted : id ∈ s.stale ∨ id ∈ waiter.subscriptions) :
      id ∈ s.stale.insertMany waiter.subscriptions := by
    rw [Std.HashSet.mem_insertMany_list]
    simpa using noted
  -- a token that is given out now is not on any entry, group or remnant
  have fresh {a' : Arming} (issued : a'.token ≤ s.waiters.lastToken) :
      a' ≠ ⟨a.slot, s.waiters.lastToken + 1⟩ := by
    rintro rfl
    exact Nat.not_succ_le_self _ issued
  refine ⟨h.vacates vacates rfl (fun id noted => more (.inl noted)) (fun _ => id)
    (fun {t a'} listed here remembers => ?_) (fun _ => .inl), ⟨_, own, rfl⟩,
    fun listed => absurd rfl (fresh (h.entered listed)), fun {key group} present caller => ?_,
    fun remnant listed => fresh (h.past remnant listed)⟩
  · obtain ⟨waiter', was, -, remembered⟩ := remembers
    rw [here, held] at was
    cases was
    exact .inl (more (.inr remembered))
  · rw [vacates.joins] at present
    exact absurd caller (fresh (h.called present))

theorem Filed.runWaiter (h : Filed left s) (known : s.OutputsKnown) {a : Arming}
    {result : Except SimError Unit} (ran : Simulation.runWaiter B s a = some (s', result)) :
    Filed (left ++ ((s.lapseOf? B a result).map (·.remnant s.kernel)).toList) s' := by
  cases way_of_runWaiter known ran with
  | skipped unclaimed =>
      rw [lapseOf?, Option.map_none, Option.toList_none, List.append_nil]
      exact h.evolves (WaiterTable.evolves_of_consume h.wellFormed unclaimed) rfl id
  | @acted me body stale waiters done k w _ _ claimed acted settled =>
      obtain ⟨-, -, -, same, -⟩ := WaiterTable.waiter?_of_consume claimed
      have edits := edits_act acted
      have claims := h.claim claimed
      have arms : Arms left me [] (s.afterAct waiters stale body k w) :=
        claims.evolves (.refl claims.wellFormed) rfl edits.watchers
      have after := arms.settle (B := B) done
      rw [settled] at after
      cases result with
      | ok _ =>
          rw [lapseOf?, Option.map_none, Option.toList_none, List.append_nil]
          exact after
      | error e =>
          rw [lapseOf?, Option.map_some, Option.toList_some, Lapse.remnant,
            asked_of_claimed claimed acted, ← same]
          simp only [afterAct, Alternative.isAccepted_of_committed edits.committed] at after
          exact after

/-- What each resume keeps, as long as its lapse is counted among what was left behind, a whole
round of them keeps. -/
theorem remnants_of_runReady {P : List (Remnant σ) → Simulation σ ω → Prop}
    (resumes : ∀ {left s s' a ready result}, P left s → s.OutputsKnown →
      Simulation.runWaiter B { s with ready } a = some (s', result) →
      P (left ++ ((s.lapseOf? B a result).map (·.remnant s.kernel)).toList) s')
    {fuel : Nat} {failure failure' : Except SimError Unit} (holds : P left s)
    (known : s.OutputsKnown) (ran : Simulation.runReady B fuel s failure = .ok (s', failure')) :
    P (left ++ (s.lapses B fuel).map (·.remnant s.kernel)) s' := by
  replace ran := way_of_runReady ran
  induction ran generalizing left with
  | idle idle =>
      rw [lapses_of_idle idle, List.map_nil, List.append_nil]
      exact holds
  | resumed popped resumed further ih =>
      have same := surroundings_runWaiter resumed
      have first := resumes holds known resumed
      have rest := ih first (known.of_surroundings same)
      simp only [Lapse.remnant_of_committed (committed_of_surroundings same)] at rest
      rw [lapses_succ popped resumed, List.map_append, ← Option.toList_map, ← List.append_assoc]
      exact rest

/-- What is left after all that were ready were resumed. -/
theorem Filed.runReady {fuel : Nat} {failure failure' : Except SimError Unit} (h : Filed left s)
    (known : s.OutputsKnown) (ran : Simulation.runReady B fuel s failure = .ok (s', failure')) :
    Filed (left ++ (s.lapses B fuel).map (·.remnant s.kernel)) s' := by
  refine remnants_of_runReady (P := Filed) (fun {left s s' a ready result} filed known ran => ?_)
    h known ran
  have popped : Filed left { s with ready } := filed.same rfl rfl id
  exact popped.runWaiter known ran

end Simulation

end DeltaCycle
