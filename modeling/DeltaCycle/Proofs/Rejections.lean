import DeltaCycle.Proofs.FailedRounds

/-!
# Refused clauses

A waiter is armed on the alternatives of its clause one after the other. When one is refused, the
waiter leaves, and what it remembered is forgotten with it, so that nothing is noted for the purge:
what it had been granted stays where it is. So a clause that is refused at its first alternative
leaves nothing, and any other leaves its entries in the wait lists, unless something else strikes
them, and the groups and waiters that were made for it.
-/

set_option autoImplicit false

namespace DeltaCycle

open Roster

variable {σ ω : Type}

/-- The triggers on which the waiter had been armed. -/
def Remnant.triggers (remnant : Remnant σ) : List Trigger :=
  remnant.granted.filterMap Alternative.trigger?

namespace Simulation

variable {B : Behaviours σ ω} {left : List (Remnant σ)} {s s' : Simulation σ ω}

/-! ## Entries that are made -/

/-- A waiter that is armed on a trigger is listed for it. -/
theorem watchers_armOn (me : Arming) {alternative : Alternative σ}
    (accepted : alternative.isAccepted s.kernel = true) (t : Trigger) :
    (s.armOn B me alternative).1.kernel.watchers t =
      List.replicate (alternative.trigger?.toList.count t) me ++ s.kernel.watchers t := by
  cases alternative with
  | trigger trigger =>
      obtain ⟨signal, found⟩ := Option.isSome_iff_exists.mp accepted
      simp only [armOn, watch, found]
      rw [Kernel.watchers_watch accepted]
      rw [Alternative.trigger?, Option.toList_some, List.count_singleton]
      by_cases same : t = trigger
      · rw [if_pos same, if_pos (beq_iff_eq.mpr same.symm)]
        rfl
      · rw [if_neg same, if_neg fun equal => same (beq_iff_eq.mp equal).symm]
        rfl
  | delay ticks =>
      simp only [armOn, wakeAfter]
      cases s.after ticks <;> rfl
  | noop => rfl
  | spawn child => rfl
  | join clauses =>
      simp only [armOn, kernel_foldl_addBranch]
      rfl
  | refused e => cases accepted

/-- A waiter that is armed on alternatives is listed for the triggers before the first that is
refused. -/
theorem watchers_armOnAll (s : Simulation σ ω) (me : Arming) (alternatives : List (Alternative σ))
    (t : Trigger) : (s.armOnAll B me alternatives).1.kernel.watchers t =
      List.replicate (((alternatives.takeWhile (·.isAccepted s.kernel)).filterMap
        Alternative.trigger?).count t) me ++ s.kernel.watchers t := by
  induction alternatives generalizing s with
  | nil => rfl
  | cons alternative rest ih =>
      cases accepted : alternative.isAccepted s.kernel with
      | false =>
          obtain ⟨e, refused⟩ := armOnAll_of_refused B me accepted rest
          rw [List.takeWhile_cons_of_neg (by simp [accepted]), refused]
          rfl
      | true =>
          have listed := watchers_armOn (B := B) me accepted t
          obtain ⟨s₁, granted, goesOn, same⟩ :=
            armOnAll_of_accepted B me accepted rest
          rw [granted] at listed
          have further := ih s₁
          simp only [Alternative.isAccepted_of_committed same] at further
          rw [List.takeWhile_cons_of_pos accepted, goesOn, further, listed, ← List.append_assoc, List.replicate_append_replicate,
            List.filterMap_cons]
          cases alternative.trigger? with
          | none => simp
          | some trigger => simp [List.count_cons, Nat.add_comm]

theorem watchers_settle (s : Simulation σ ω) (me : Arming) (done : Act σ) (t : Trigger) :
    (s.settle B me done).1.kernel.watchers t =
      List.replicate (((done.asked.takeWhile (·.isAccepted s.kernel)).filterMap
        Alternative.trigger?).count t) me ++ s.kernel.watchers t := by
  cases done with
  | completes =>
      simp only [settle, kernel_complete]
      rfl
  | fails e => rfl
  | waits body alternatives =>
      have armed := watchers_armOnAll (B := B)
        { s with waiters := s.waiters.restore me.slot body } me alternatives t
      unfold settle rearm
      dsimp only at armed ⊢
      generalize Simulation.armOnAll B _ me alternatives = result at armed ⊢
      obtain ⟨s₁, e | ⟨⟩⟩ := result
      · exact armed
      · exact armed

/-- Whoever is resumed is listed for the triggers before the first alternative that is refused. -/
theorem watchers_runWaiter {a : Arming} {result : Except SimError Unit} (known : s.OutputsKnown)
    (ran : runWaiter B s a = some (s', result)) (t : Trigger) :
    s'.kernel.watchers t =
      List.replicate ((((s.asked B a).takeWhile (·.isAccepted s.kernel)).filterMap
        Alternative.trigger?).count t) ⟨a.slot, s.waiters.lastToken + 1⟩ ++
          s.kernel.watchers t := by
  cases way_of_runWaiter known ran with
  | skipped unclaimed =>
      rw [asked_of_unclaimed unclaimed]
      rfl
  | @acted me body stale waiters done k w _ _ claimed acted settled =>
      obtain ⟨-, -, -, rfl, -⟩ := WaiterTable.waiter?_of_consume claimed
      have edits := edits_act acted
      have after := watchers_settle (B := B) (s.afterAct waiters stale body k w)
        ⟨a.slot, s.waiters.lastToken + 1⟩ done t
      rw [settled] at after
      simp only [afterAct, Alternative.isAccepted_of_committed edits.committed, edits.watchers]
        at after
      rw [asked_of_claimed claimed acted]
      exact after

/-- The remnants are listed for what they had been granted. -/
def Listed (left : List (Remnant σ)) (s : Simulation σ ω) : Prop :=
  ∀ remnant ∈ left, ∀ t,
    (s.kernel.watchers t).count remnant.arming = remnant.triggers.count t

/-- An arming that is given is new, so that no entry of a remnant comes or goes with it. -/
theorem Listed.runWaiter (h : Listed left s) (filed : Filed left s) (known : s.OutputsKnown)
    {a : Arming} {result : Except SimError Unit}
    (ran : Simulation.runWaiter B s a = some (s', result)) :
    Listed (left ++ ((s.lapseOf? B a result).map (·.remnant s.kernel)).toList) s' := by
  intro remnant listed t
  rw [watchers_runWaiter known ran, List.count_append, List.count_replicate]
  rcases List.mem_append.mp listed with before | own
  · have past := filed.past remnant before
    have other : (⟨a.slot, s.waiters.lastToken + 1⟩ : Arming) ≠ remnant.arming := by
      intro same
      rw [← same] at past
      exact Nat.not_succ_le_self _ past
    rw [if_neg fun equal => other (beq_iff_eq.mp equal), Nat.zero_add]
    exact h remnant before t
  · cases result with
    | ok _ => cases own
    | error e =>
        obtain rfl := List.mem_singleton.mp own
        have fresh : (⟨a.slot, s.waiters.lastToken + 1⟩ : Arming) ∉ s.kernel.watchers t :=
          fun entered => Nat.not_succ_le_self _ (filed.entered entered)
        have none := List.count_eq_zero_of_not_mem fresh
        exact congrArg₂ (· + ·) (if_pos (beq_self_eq_true _)) none

theorem Listed.runReady {fuel : Nat} {failure failure' : Except SimError Unit} (h : Listed left s)
    (filed : Filed left s) (known : s.OutputsKnown)
    (ran : Simulation.runReady B fuel s failure = .ok (s', failure')) :
    Listed (left ++ (s.lapses B fuel).map (·.remnant s.kernel)) s' := by
  have both := remnants_of_runReady (P := fun left s => Filed left s ∧ Listed left s)
    (fun {left s s' a ready result} holds known ran => by
      obtain ⟨filed, listed⟩ := holds
      have popped : Filed left { s with ready } := filed.same rfl rfl id
      exact ⟨popped.runWaiter known ran,
        Listed.runWaiter (s := { s with ready }) listed popped known ran⟩)
    ⟨filed, h⟩ known ran
  exact both.2

/-! ## Entries that are struck -/

/-- Wrapping up a round strikes the entries for a trigger: the trigger is fired by what is committed,
or the lists of its signal were noted. -/
def Strikes (s : Simulation σ ω) (t : Trigger) : Prop :=
  t.signal ∈ s.stale ∨ ∃ change ∈ s.commits, t.firedBy change = true

theorem watchers_wrapUp (s : Simulation σ ω) (failure : Except SimError Unit) (t : Trigger) :
    (s.wrapUp failure).1.kernel.watchers t =
      if t.signal ∈ s.stale then (s.commitPending.1.kernel.watchers t).filter s.waiters.isLive
      else s.commitPending.1.kernel.watchers t := by
  obtain ⟨stopRequest, wrapped⟩ := s.wrapUp_eq failure
  have sheds := s.sheds_commitPending
  have kept :
      (s.wrapUp failure).1.kernel.watchers t = s.commitPending.1.purge.kernel.watchers t := by
    rw [wrapped]
    rfl
  rw [kept, watchers_purge, sheds.stale, sheds.waiters]

/-- After a round was wrapped up, an entry is live, or it is what a remnant had been granted. -/
theorem Filed.live_of_wrapUp (h : Filed left s) {failure : Except SimError Unit} {t : Trigger}
    {a : Arming} (listed : a ∈ (s.wrapUp failure).1.kernel.watchers t) :
    s.waiters.isLive a = true ∨ ∃ remnant ∈ left, remnant.arming = a := by
  obtain ⟨stopRequest, wrapped⟩ := s.wrapUp_eq failure
  have sheds := s.sheds_commitPending
  rw [wrapped] at listed
  rcases (h.sheds sheds).live_of_purge listed with live | ⟨remnant, among, same, -⟩
  · rw [sheds.waiters] at live
    exact .inl live
  · exact .inr ⟨remnant, among, same⟩

theorem watchers_wrapUp_of_spared {t : Trigger} (spared : ¬s.Strikes t)
    (failure : Except SimError Unit) :
    (s.wrapUp failure).1.kernel.watchers t = s.kernel.watchers t := by
  obtain ⟨unnoted, unfired⟩ := not_or.mp spared
  rw [watchers_wrapUp, if_neg unnoted, watchers_commitPending,
    if_neg fun fired => unfired (List.any_eq_true.mp fired)]

theorem not_mem_watchers_wrapUp {a : Arming} (dead : s.waiters.isLive a = false) {t : Trigger}
    (struck : s.Strikes t) (failure : Except SimError Unit) :
    a ∉ (s.wrapUp failure).1.kernel.watchers t := by
  intro listed
  rw [watchers_wrapUp] at listed
  rcases struck with noted | fired
  · rw [if_pos noted] at listed
    have live := (List.mem_filter.mp listed).2
    exact Bool.false_ne_true (dead.symm.trans live)
  · rw [watchers_commitPending, if_pos (List.any_eq_true.mpr fired), List.filter_nil, ite_self]
      at listed
    cases listed

/-! ## What remains -/

/-- What remains of a waiter that was refused: the entries for which it had been listed, unless they
were struck, the groups that were opened for it, and the waiters that were made for it. -/
structure Remains (ledger : List Tag) (struck : Trigger → Prop) (remnant : Remnant σ)
    (s : Simulation σ ω) : Prop where
  kept : ∀ t, ¬struck t → (s.kernel.watchers t).count remnant.arming = remnant.triggers.count t
  struck : ∀ t, struck t → remnant.arming ∉ s.kernel.watchers t
  groups : ∀ key group, s.waiters.join? key = some group → group.caller = remnant.arming →
    ∃ clauses, .join clauses ∈ remnant.granted
  waiters : ∃ tag, ledger[remnant.arming.token - 1]? = some tag ∧ s.Gone ledger tag.name ∧
    ∀ slot waiter tag' p b, s.waiters.waiter? slot = some waiter →
      ledger[waiter.token - 1]? = some tag' → tag'.name = Group.member ⟨tag, p⟩ b →
      ∃ alternative, remnant.granted[p]? = some alternative ∧ b < alternative.bodies.length

/-- Whoever is named for an arming was made for one of the alternatives that were granted to it. -/
theorem History.granted {rounds : List (Round σ)} {round : Round σ} {ledger : List Tag}
    {failure : Except SimError Unit} (history : History B (rounds ++ [round]) ledger s failure)
    {turn : Turn σ} (listed : turn ∈ round.turns) {slot p b : Nat} {waiter : Waiter (Body σ)}
    (found : s.waiters.waiter? slot = some waiter) {tag : Tag}
    (entered : ledger[waiter.token - 1]? = some tag)
    (named : tag.name = Group.member ⟨turn.tag.next, p⟩ b) :
    ∃ alternative, turn.deed.alternatives[p]? = some alternative ∧
      b < alternative.bodies.length := by
  obtain ⟨r, explained, -, -, follows⟩ := history.explained
  obtain ⟨marks, tracks⟩ := follows.tracks
  obtain ⟨tag', tagged, alive, -⟩ := tracks.seats.held found
  obtain ⟨-, entered', -⟩ := tracks.seats.entered tagged
  obtain rfl : tag' = tag := Option.some.inj (entered'.symm.trans entered)
  have born : r.seat (Group.member ⟨turn.tag.next, p⟩ b) ≠ .unborn := by
    rw [← named, alive]
    exact nofun
  obtain ⟨i, turn', listed', next, made⟩ := explained.made born
  have told : turn ∈ (Story.ofList (rounds ++ [round]) rounds.length).turns := by
    rw [Story.ofList_concat, Function.update_self]
    exact listed
  obtain ⟨-, rfl⟩ := explained.once listed' told (Tag.next_inj next)
  unfold Alternative.bodyAt at made
  cases place : turn'.deed.alternatives[p]? with
  | none =>
      rw [place] at made
      cases made
  | some alternative =>
      rw [place, Option.bind_some] at made
      refine ⟨alternative, rfl, ?_⟩
      obtain ⟨body, found⟩ := Option.isSome_iff_exists.mp made
      exact (List.getElem?_eq_some_iff.mp found).1

section Round

variable {m r : Simulation σ ω} {granted : Nat} {failure : Except SimError Unit}
  {rounds : List (Round σ)} {round : Round σ} {ledger : List Tag}
  (recounts : Recounts B m r granted failure rounds round ledger)

include recounts

theorem Recounts.dead : ∀ lapse ∈ m.lapses B granted, r.waiters.isLive lapse.arming = false := by
  intro lapse among
  obtain ⟨turn, -, -, entered, gone⟩ := recounts.gone lapse among
  refine Bool.eq_false_iff.mpr fun live => ?_
  obtain ⟨waiter, found, token⟩ := (r.waiters.isLive_iff lapse.arming).mp live
  obtain ⟨tag, entered', other⟩ := gone _ _ found
  rw [token] at entered'
  cases entered.symm.trans entered'
  exact other rfl

variable (ran : runReady B granted m (.ok ()) = .ok (r, failure))

include ran

theorem Recounts.remains : ∀ lapse ∈ m.lapses B granted,
    Remains ledger r.Strikes (lapse.remnant m.kernel) (r.wrapUp failure).1 := by
  intro lapse among
  have left : lapse.remnant m.kernel ∈ (m.lapses B granted).map (·.remnant m.kernel) :=
    List.mem_map_of_mem among
  have filed := recounts.filed.runReady recounts.known ran
  have nothing : Listed [] m := nofun
  have listed := nothing.runReady recounts.filed recounts.known ran
  rw [List.nil_append] at filed listed
  obtain ⟨turn, told, deed, entered, gone⟩ := recounts.gone lapse among
  have waiters := r.waiters_wrapUp failure
  refine ⟨fun t spared => ?_, fun t struck => ?_, fun key group found caller => ?_, turn.tag.next,
    entered, fun slot waiter found => ?_, fun slot waiter tag p b found entered' named => ?_⟩
  · rw [watchers_wrapUp_of_spared spared]
    exact listed _ left t
  · exact not_mem_watchers_wrapUp (recounts.dead lapse among) struck failure
  · rw [waiters] at found
    exact filed.joined found _ left caller
  · rw [waiters] at found
    exact gone slot waiter found
  · rw [waiters] at found
    have made := recounts.history.granted told found entered' named
    rw [deed] at made
    exact made

theorem Recounts.accounted : ∀ t, ∀ a ∈ (r.wrapUp failure).1.kernel.watchers t,
    (r.wrapUp failure).1.waiters.isLive a = true ∨
      ∃ lapse ∈ m.lapses B granted, lapse.arming = a := by
  intro t a entry
  have filed := recounts.filed.runReady recounts.known ran
  rw [waiters_wrapUp]
  refine (filed.live_of_wrapUp entry).imp_right ?_
  rintro ⟨remnant, left, rfl⟩
  obtain ⟨lapse, among, rfl⟩ := List.mem_map.mp left
  exact ⟨lapse, among, rfl⟩

/-- Nothing that is stale is listed exactly if every trigger that was granted was struck. -/
theorem Recounts.staleEntries_eq_zero_iff : (r.wrapUp failure).1.staleEntries = 0 ↔
    ∀ lapse ∈ m.lapses B granted, ∀ t ∈ (lapse.remnant m.kernel).triggers, r.Strikes t := by
  rw [Simulation.staleEntries_eq_zero_iff]
  constructor
  · intro fresh lapse among t asked
    by_contra spared
    have kept := (recounts.remains ran lapse among).kept t spared
    have some : 0 < (lapse.remnant m.kernel).triggers.count t := List.count_pos_iff.mpr asked
    rw [← kept] at some
    have live := fresh t _ (List.count_pos_iff.mp some)
    rw [waiters_wrapUp] at live
    exact Bool.false_ne_true ((recounts.dead lapse among).symm.trans live)
  · intro struck t a entry
    rcases recounts.accounted ran t a entry with live | ⟨lapse, among, rfl⟩
    · exact live
    · have remains := recounts.remains ran lapse among
      by_cases strikes : r.Strikes t
      · exact absurd entry (remains.struck t strikes)
      · have some : 0 < (lapse.remnant m.kernel).triggers.count t := by
          rw [← remains.kept t strikes]
          exact List.count_pos_iff.mpr entry
        exact absurd (struck lapse among t (List.count_pos_iff.mp some)) strikes

end Round

/-- A clause that is refused leaves what it had been granted. After the round in which it was refused
and the purge, exactly the entries on which its waiter had been armed before are listed, but for
those that were struck, and no waiter or group is there for it but those of alternatives that were
granted. So nothing that is stale is listed exactly if every trigger that was granted was struck. -/
theorem a_refused_clause_leaves_what_it_was_granted {s s₀ c m r : Simulation σ ω}
    {fuel granted : Nat} {duration : Option Nat} {failure : Except SimError Unit} {first : Lapse σ}
    {rest : List (Lapse σ)} (operated : Operated B s) (running : s.hasEnded = false)
    (started : s.startHook = (s₀, .ok ()))
    (comes : Comes B (s₀.capOf duration) fuel s₀ granted c)
    (committed : c.commitPending = (m, .ok ()))
    (ran : runReady B granted m (.ok ()) = .ok (r, failure))
    (lapses : m.lapses B granted = first :: rest) :
    ∃ s' rounds round ledger, run B fuel s duration = .ok (s', .error first.error) ∧
      History B (rounds ++ [round]) ledger r failure ∧
      (∀ lapse ∈ m.lapses B granted, s'.Remains ledger r.Strikes (lapse.remnant m.kernel)) ∧
      (∀ t, ∀ a ∈ s'.kernel.watchers t, s'.waiters.isLive a = true ∨
        ∃ lapse ∈ m.lapses B granted, lapse.arming = a) ∧
      (s'.staleEntries = 0 ↔ ∀ lapse ∈ m.lapses B granted,
        ∀ t ∈ (lapse.remnant m.kernel).triggers, r.Strikes t) := by
  obtain ⟨link, world, runs⟩ := run_of_lapses running started comes committed ran lapses
  obtain ⟨rounds, round, ledger, recounts⟩ :=
    operated.recounts running started comes committed ran
  refine ⟨_, rounds, round, ledger, runs, recounts.history, fun lapse among => ?_,
    recounts.accounted ran, recounts.staleEntries_eq_zero_iff ran⟩
  obtain ⟨kept, struck, groups, waiters⟩ := recounts.remains ran lapse among
  exact ⟨kept, struck, groups, waiters⟩

/-- A client that waits for a clause, and helpers that wait for a signal that nobody writes to. -/
def clients (clause : Clause Bool) : Behaviours Bool Unit where
  name _ := "client"
  resume
    | true => .done (.wait true clause)
    | false => .done (.wait false (.event ⟨0⟩))
  react client := .done client

/-- A client whose clause is refused at its first place. -/
def hasty : Behaviours Bool Unit := clients (.any [.any [], .event ⟨0⟩])

/-- A simulation of the client. -/
def agency : Simulation Bool Unit :=
  ({ kernel := ledger, world := () } : Simulation Bool Unit).addWaiter "client" (.process true) none

/-- The hasty client leaves nothing. -/
theorem a_client_refused_at_once_is_not_listed :
    ∃ s' e, run hasty 9 agency none = .ok (s', .error e) ∧
      s'.staleEntries = 0 := by
  have made : ledger.Made := .signal .empty "total" (.int 0) none
  have operated : Operated hasty agency :=
    .built made (show build hasty ledger [.process true] () = .ok agency from rfl)
  have started : agency.startHook = (agency.startHook.1, .ok ()) := rfl
  have comes : Comes hasty (agency.startHook.1.capOf none) 9 agency.startHook.1 9
    agency.startHook.1 := .here
  have committed : agency.startHook.1.commitPending =
    (agency.startHook.1.commitPending.1, .ok ()) := rfl
  have one : (agency.startHook.1.commitPending.1.lapses hasty 9).length = 1 := by decide +kernel
  have ends : (runReady hasty 9 agency.startHook.1.commitPending.1 (.ok ())).isOk = true := by
    decide +kernel
  have ungranted : (agency.startHook.1.commitPending.1.lapses hasty 9).all fun lapse =>
      (lapse.remnant agency.startHook.1.commitPending.1.kernel).triggers.isEmpty := by
    decide +kernel
  cases lapses : agency.startHook.1.commitPending.1.lapses hasty 9 with
  | nil =>
      rw [lapses] at one
      cases one
  | cons first rest =>
      rcases ran : runReady hasty 9 agency.startHook.1.commitPending.1 (.ok ()) with
        stuck | ⟨r, failure⟩
      · rw [ran] at ends
        cases ends
      · obtain ⟨s', rounds, round, ledger', runs, -, -, -, fresh⟩ :=
          a_refused_clause_leaves_what_it_was_granted operated rfl started comes committed ran lapses
        refine ⟨s', first.error, runs, fresh.mpr fun lapse among t asked => ?_⟩
        have none := List.isEmpty_iff.mp (List.all_eq_true.mp ungranted lapse among)
        rw [none] at asked
        cases asked

/-- The error with which a run ends, and how many stale entries and waiters there are after it. -/
def remainders :
    Except Stuck (Simulation Bool Unit × Except SimError Outcome) → Option (SimError × Nat × Nat)
  | .ok (s, .error e) => some (e, s.staleEntries, s.liveWaiters)
  | _ => none

/-- What a client had been granted before it was refused is there after the run. -/
theorem a_refused_client_is_still_listed :
    remainders (run (clients (.any [.event ⟨0⟩, .any []])) 9 agency none) = some (.emptyAny, 1, 0) ∧
      remainders (run (clients (.any [.spawn false, .any []])) 9 agency none) =
        some (.emptyAny, 0, 1) := by
  constructor <;> decide +kernel

end Simulation

end DeltaCycle
