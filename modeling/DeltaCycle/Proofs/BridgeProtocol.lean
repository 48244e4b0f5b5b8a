import DeltaCycle.Proofs.Dialogue
import DeltaCycle.Proofs.Sessions

/-!
# The protocol of a bridge

The waiter of the bridge is either ready or it watches all outputs, so a round in which an output
changed does not end without a send. That is why neither the clock moves nor a run stops for want of
events while anything is left to be sent or read.
-/

set_option autoImplicit false

namespace DeltaCycle

open Roster

variable {σ ω : Type}

/-! ## While the bridge is open -/

/-- The waiter of the outputs, if there are any, was fired, or it watches all outputs and something
holds. -/
def Roster.Listens (r : Roster σ) (outputs : List SignalId) (P : Prop) : Prop :=
  outputs = [] ∧ P ∨ ∃ number, r.Minds number .outputs outputs P

namespace Roster.Listens

variable {r : Roster σ} {outputs : List SignalId} {P Q : Prop}

theorem advance (listens : r.Listens outputs P) {changes : List Change} (drained : Option Nat)
    (keeps : (∀ c ∈ changes, c.signal ∉ outputs) → P → Q) :
    (r.advance changes drained).Listens outputs Q := by
  rcases listens with ⟨rfl, holds⟩ | ⟨number, minds⟩
  · exact .inl ⟨rfl, keeps (fun _ _ => List.not_mem_nil) holds⟩
  · exact .inr ⟨number, minds.advance drained keeps⟩

theorem of_quiet (listens : r.Listens outputs P) (quiet : r.Quiet) : P := by
  rcases listens with ⟨-, holds⟩ | ⟨number, count, alive, armed⟩
  · exact holds
  · refine (armed.resolve_left fun fired => ?_).2
    rw [quiet ⟨.root number, count⟩ ⟨_, alive⟩] at fired
    cases fired

end Roster.Listens

namespace Simulation

variable {B : Behaviours σ ω} {note : ω → List BridgeCall}

/-- The roster tracks the simulation and listens to the outputs of an open bridge: until its waiter
is fired or notes that an output changed, the values that were sent last are those of the outputs. -/
structure Attuned (note : ω → List BridgeCall) (ledger : List Tag) (s : Simulation σ ω)
    (r : Roster σ) : Prop where
  tracks : ∃ marks, Tracks ledger s marks r
  rested : r.Rested
  known : s.OutputsKnown
  discreet : s.Discreet note
  hears : ∃ l last, s.openLink? = some l ∧ l.bridge.Noted note ∧
    Dialogue (note s.world) (l.awaits s.kernel.now) last ∧
    r.Listens l.bridge.outputs
      (l.changed = true ∨ last = some (snapshot s.kernel l.bridge.outputs))

namespace Attuned

variable {ledger : List Tag} {s s' : Simulation σ ω} {r : Roster σ}
  (attuned : Attuned note ledger s r)

include attuned

theorem civil : s.Civil note := by
  obtain ⟨-, -, known, discreet, l, last, linked, noted, said, -⟩ := attuned
  exact .of_openLink? discreet known linked noted said

/-- What leaves the books and the wires as they are changes nothing. -/
theorem of_wiring (same : s'.wiring note = s.wiring note) (waiters : s'.waiters = s.waiters)
    (ready : s'.ready = s.ready) (queue : s'.queue = s.queue) (kernel : s'.kernel = s.kernel) :
    Attuned note ledger s' r := by
  obtain ⟨⟨marks, tracks⟩, rested, known, discreet, l, last, linked, noted, said, listens⟩ := attuned
  have links : s'.link = s.link := congrArg (fun wires => wires.2.1) same
  have notes : note s'.world = note s.world := congrArg Prod.fst same
  refine ⟨⟨marks, tracks.of_books waiters ready queue (congrArg Kernel.watchers kernel)⟩, rested, ?_,
    discreet.of_wiring same, l, last, (openLink?_of_wiring same).trans linked, noted, ?_, ?_⟩
  · rw [OutputsKnown, kernel, outputs, links]
    exact known
  · rw [notes, kernel]
    exact said
  · rw [kernel]
    exact listens

theorem commitPending : Attuned note ledger s.commitPending.1 (r.advance s.commits none) := by
  obtain ⟨⟨marks, tracks⟩, rested, known, discreet, l, last, linked, noted, said, listens⟩ := attuned
  have same := wiring_commitPending discreet.overlooked
  have notes : note s.commitPending.1.world = note s.world := congrArg Prod.fst same
  refine ⟨⟨marks, tracks.commitPending⟩, rested, known.of_frame (frame_updateAll _ _ _),
    discreet.of_wiring same, l, last, (openLink?_of_wiring same).trans linked, noted, ?_, ?_⟩
  · rw [notes, now_commitPending]
    exact said
  · refine listens.advance none fun others => Or.imp_right fun sent => ?_
    rw [sent, snapshot_of_same fun id output =>
      s.moves_commitPending.val id fun c listed same => others c listed (same ▸ output)]

/-- To resume a waiter leaves the bridge as it is, except that the waiter of the outputs notes that
one of them changed. -/
theorem resume (spares : B.Spares note) {a : Arming} {ready : Fifo Arming}
    {result : Except SimError Unit} (popped : s.ready.pop? = some (a, ready))
    (ran : runWaiter B { s with ready } a = some (s', result)) :
    ∃ ledger' r', Attuned note ledger' s' r' := by
  obtain ⟨⟨marks, tracks⟩, rested, known, discreet, l, last, linked, noted, said, listens⟩ := attuned
  have same := surroundings_runWaiter ran
  have committed := committed_of_surroundings same
  have hook : s'.hook = s.hook := congrArg Surroundings.hook same
  have known' := known.of_surroundings same
  have notes : note s'.world = note s.world :=
    note_of_runWaiter (s := { s with ready }) spares known ran
  have said' : Dialogue (note s'.world) (l.awaits s'.kernel.now) last := by
    rw [notes, Kernel.now_of_committed committed]
    exact said
  have snapshots : snapshot s'.kernel l.bridge.outputs = snapshot s.kernel l.bridge.outputs :=
    snapshot_of_same fun id _ => Kernel.val?_of_committed committed id
  have discreet' : s'.Discreet note := fun h hooked => discreet h (hook.symm.trans hooked)
  rcases tracks.resume rested known popped ran with ⟨-, stale, -, tracks'⟩ |
    ⟨turn, marks', taken, -, takes, -, tracks'⟩
  · have links : s'.link = s.link := by
      rw [runWaiter_of_stale B (s := { s with ready }) stale] at ran
      cases ran
      rfl
    refine ⟨ledger, r, ⟨marks, tracks'⟩, rested, known', discreet', l, last, ?_, noted, said', ?_⟩
    · rw [openLink?, links]
      exact linked
    · rw [snapshots]
      exact listens
  · obtain ⟨me, body, stale, done, k, w, claimed, alive, acted, deed, -⟩ :=
      tracks.acts popped takes taken
    have claimed' : s.waiters.consume a = (some (me, body, stale), (s.waiters.consume a).2) :=
      Prod.ext claimed rfl
    have outside := outside_of_runWaiter (s := { s with ready }) known claimed' acted ran
    have links : s'.link = Simulation.noted s.link body := congrArg (fun out => out.2.1) outside
    obtain ⟨l', linked', bridge, reply, keeps, notes'⟩ := openLink?_of_noted linked links
    refine ⟨_, _, ⟨marks', tracks'⟩, rested.turn _ _ _, known', discreet', l', last, linked',
      bridge ▸ noted, ?_, ?_⟩
    · rw [Link.awaits, reply]
      exact said'
    rw [bridge, snapshots]
    rcases listens with ⟨none, holds⟩ | ⟨number, minds⟩
    · exact .inl ⟨none, holds.imp_left keeps⟩
    · refine .inr ⟨number, ?_⟩
      by_cases own : turn.tag.name = .root number
      · obtain ⟨count, alive', -⟩ := minds
        rw [own, alive'] at alive
        cases alive
        have outputs : s.outputs = l.bridge.outputs := by
          rw [Simulation.outputs, link_of_openLink? linked]
        cases acted
        have accepted : (s.outputs.map fun id => (.trigger (.event id) : Alternative σ)).all
            (·.isAccepted s.kernel) = true := by
          rw [List.all_map, List.all_eq_true]
          exact known
        rw [deed, Act.deed, if_pos accepted]
        refine .of_turn r _ own (fun id output => ?_) (.inl (notes' rfl))
        rw [outputs]
        exact List.mem_map_of_mem (f := fun id => Alternative.trigger (.event id)) output
      · exact minds.turn _ _ own fun holds => holds.imp_left keeps

/-- After a round nobody is fired. -/
theorem runReady (spares : B.Spares note) {fuel : Nat} {failure failure' : Except SimError Unit}
    (ran : Simulation.runReady B fuel s failure = .ok (s', failure')) :
    ∃ ledger' r', Attuned note ledger' s' r' ∧ r'.Quiet := by
  replace ran := way_of_runReady ran
  induction ran generalizing ledger r with
  | idle idle =>
      obtain ⟨marks, tracks⟩ := attuned.tracks
      exact ⟨ledger, r, attuned, tracks.quiet idle⟩
  | resumed popped resumed further ih =>
      obtain ⟨ledger₁, r₁, attuned₁⟩ := attuned.resume spares popped resumed
      exact ih attuned₁

/-- An exchange that does not fail sends what is to be sent. -/
theorem exchange (quiet : r.Quiet) {result : Except SimError Bool}
    (exchanged : s.exchange = (s', result)) :
    s'.Civil note ∧ ∀ sent, result = .ok sent → ∃ l, s'.Clear note l ∧
      (sent = false → l.awaitingReply = false) := by
  have known' := attuned.known.of_frame (frame_exchange s)
  rw [exchanged] at known'
  obtain ⟨-, -, known, discreet, l, last, linked, noted, said, listens⟩ := attuned
  have settled := listens.of_quiet quiet
  obtain ⟨kernel, world, link, same, edits, -⟩ := exchange_spec s
  have committed : s'.kernel.committed = s.kernel.committed := by
    rw [exchanged] at same
    dsimp only at same
    rw [same]
    exact edits.committed
  have snapshots : snapshot s'.kernel l.bridge.outputs = snapshot s.kernel l.bridge.outputs :=
    snapshot_of_same fun id _ => Kernel.val?_of_committed committed id
  unfold Simulation.exchange at exchanged
  simp only [linked] at exchanged
  cases read : s.readReply l with
  | mk s₁ inbound =>
      obtain ⟨linked₁, hook₁, said₁⟩ := said_of_readReply linked noted said read
      have discreet₁ : s₁.Discreet note := fun h hooked => discreet h (hook₁.symm.trans hooked)
      simp only [read] at exchanged
      cases inbound with
      | error e =>
          cases exchanged
          exact ⟨.of_openLink? discreet₁ known' linked₁ noted said₁, nofun⟩
      | ok inbound =>
          dsimp only at exchanged
          split at exchanged
          · cases sent : s₁.sendOutputs l.bridge with
            | mk s₂ outcome =>
                obtain ⟨kernel₂, hook₂, told, ends⟩ :=
                  said_of_sendOutputs (l := { l with awaitingReply := false }) linked₁ noted said₁ sent
                have discreet₂ : s₂.Discreet note := fun h hooked =>
                  discreet₁ h (hook₂.symm.trans hooked)
                rw [sent] at exchanged
                rcases ends with ⟨⟨e, rfl⟩, linked₂⟩ | ⟨rfl, linked₂⟩
                · cases exchanged
                  exact ⟨.of_openLink? discreet₂ known' linked₂ noted told, nofun⟩
                · cases exchanged
                  have clear : s'.Clear note { l with changed := false, awaitingReply := true } :=
                    ⟨discreet₂, linked₂, noted, rfl, by rw [kernel₂]; exact told⟩
                  exact ⟨clear.civil known', fun sent yes => ⟨_, clear, fun no => by
                    cases yes.trans (congrArg Except.ok no)⟩⟩
          · next idle =>
              cases exchanged
              simp only [Bool.or_eq_true, not_or, Bool.not_eq_true] at idle
              have current := settled.resolve_left (by rw [idle.2]; exact Bool.false_ne_true)
              have clear : s'.Clear note { l with awaitingReply := false } := by
                refine ⟨discreet₁, linked₁, noted, idle.2, ?_⟩
                rw [snapshots, ← current]
                exact said₁
              exact ⟨clear.civil known', fun sent yes => ⟨_, clear, fun _ => rfl⟩⟩

/-- Where the tick has nothing more to do, everything is delivered. -/
theorem delivered (quiet : r.Quiet) {q : Simulation σ ω} (settles : s.settled? = some q) :
    q.Delivered note := by
  have way := way_of_proceed s
  rw [settles] at way
  cases way with
  | settled exchanged pending proceeds =>
      obtain ⟨l, clear, answered⟩ := (attuned.exchange quiet exchanged).2 false rfl
      exact clear.purge.delivered (answered rfl)

/-- What follows a round keeps to the protocol. -/
theorem proceed (quiet : r.Quiet) {cap : Option Nat} {verdict : Verdict}
    (went : s.proceed cap = (s', verdict)) :
    s'.Civil note ∧ (verdict = .again ∨ verdict = .ended (.ok .suspended) →
      ∃ r', Attuned note ledger s' r') := by
  have known' := attuned.known.of_frame (frame_proceed s cap)
  have clears : s'.Civil note ∧
      (verdict = .again ∨ verdict = .ended (.ok .suspended) → ∃ l', s'.Clear note l') := by
    have way := s.way_of_proceed
    generalize s.settled? = settled at way
    cases way with
    | failed exchanged proceeds =>
        cases (proceeds cap).symm.trans went
        exact ⟨(attuned.exchange quiet exchanged).1, nofun⟩
    | @entered m sent exchanged proceeds =>
        obtain ⟨l, clear, -⟩ := (attuned.exchange quiet exchanged).2 sent rfl
        have entered := clear.purge.of_wiring (wiring_nextDelta m.purge)
          (congrArg Kernel.committed (kernel_nextDelta m.purge))
        have same : (s.proceed cap).1 = m.purge.nextDelta.1 := by rw [proceeds, fst_goOn]
        rw [went] at same known'
        dsimp only at same known'
        rw [← same] at entered
        exact ⟨entered.civil known', fun _ => ⟨l, entered⟩⟩
    | @settled m exchanged pending proceeds =>
        obtain ⟨civil, clears⟩ := attuned.exchange quiet exchanged
        obtain ⟨l, clear, answered⟩ := clears false rfl
        exact clear.purge.leaveTick (answered rfl) (civil.known.of_frame (frame_purge m))
          ((proceeds cap).symm.trans went)
  refine ⟨clears.1, fun goes => ?_⟩
  obtain ⟨l', clear⟩ := clears.2 goes
  obtain ⟨⟨marks, tracks⟩, rested, known, discreet, l, last, linked, noted, said, listens⟩ := attuned
  have fine : ∀ e, verdict ≠ .ended (.error e) := by
    rintro e rfl
    rcases goes with goes | goes <;> cases goes
  rw [went] at known'
  have outputs : l'.bridge.outputs = l.bridge.outputs := by
    have bridges := congrArg Prod.fst (frame_proceed s cap)
    rw [went] at bridges
    change s'.link.map _ = s.link.map _ at bridges
    rw [link_of_openLink? clear.linked, link_of_openLink? linked] at bridges
    exact congrArg Bridge.outputs (Option.some.inj bridges)
  refine ⟨_, ⟨marks, tracks.proceed went fine⟩, rested, known', clear.discreet, l', _, clear.linked,
    clear.noted, clear.said, ?_⟩
  rw [outputs]
  exact listens.advance _ fun _ _ => .inr rfl

/-- A cycle keeps to the protocol, and goes on listening unless it ends the simulation. -/
theorem cycle (spares : B.Spares note) {fuel : Nat} {cap : Option Nat} {verdict : Verdict}
    (turned : s.cycle B fuel cap = .ok (s', verdict)) :
    s'.Civil note ∧ (verdict = .again ∨ verdict = .ended (.ok .suspended) →
      ∃ ledger' r', Attuned note ledger' s' r') := by
  have begun := attuned.commitPending
  cases way_of_cycle turned with
  | refused committed =>
      rw [committed] at begun
      exact ⟨begun.civil, nofun⟩
  | proceeded committed ran running went =>
      rw [committed] at begun
      obtain ⟨ledger', r', attuned', quiet⟩ := begun.runReady spares ran
      obtain ⟨civil, goesOn⟩ := attuned'.proceed quiet went
      exact ⟨civil, fun goes => ⟨ledger', goesOn goes⟩⟩
  | wrapped committed ran stops ends =>
      rw [committed] at begun
      obtain ⟨ledger', r', attuned', -⟩ := begun.runReady spares ran
      obtain ⟨civil, result, rfl, running⟩ := attuned'.civil.wrapUp ends
      exact ⟨civil, fun goes => by rcases goes with ⟨⟨⟩⟩ | ⟨⟨⟩⟩; exact absurd rfl running⟩

end Attuned

/-! ## Without an open bridge -/

/-- No bridge is open. -/
structure Mute (note : ω → List BridgeCall) (s : Simulation σ ω) : Prop extends Civil note s where
  unlinked : s.openLink? = none

namespace Mute

variable {s s' : Simulation σ ω} (mute : s.Mute note)

include mute

theorem of_wiring (known : s'.OutputsKnown) (same : s'.wiring note = s.wiring note) :
    s'.Mute note :=
  ⟨mute.toCivil.of_wiring known same, (openLink?_of_wiring same).trans mute.unlinked⟩

theorem commitPending : s.commitPending.1.Mute note :=
  mute.of_wiring (mute.known.of_frame (frame_updateAll _ _ _))
    (wiring_commitPending mute.discreet.overlooked)

theorem runReady (spares : B.Spares note) {fuel : Nat} {failure failure' : Except SimError Unit}
    (ran : Simulation.runReady B fuel s failure = .ok (s', failure')) : s'.Mute note := by
  obtain ⟨resumes, same⟩ := surroundings_runReady ran
  have notes := note_of_runReady spares mute.known ran
  have hook : s'.hook = s.hook := congrArg Surroundings.hook same
  have links := congrArg Surroundings.link same
  change s'.link.map _ = s.link.map _ at links
  have unlinked : s'.openLink? = none := by
    refine Option.filter_eq_none_iff.mpr fun l' present isOpen => ?_
    rw [present, Option.map_some] at links
    obtain ⟨l, before, marked⟩ := Option.map_eq_some_iff.mp links.symm
    have closed := congrArg Link.closed marked
    have closed : l.closed = l'.closed := closed
    refine Option.filter_eq_none_iff.mp mute.unlinked l before ?_
    rw [closed]
    exact isOpen
  refine ⟨⟨fun h hooked => mute.discreet h (hook.symm.trans hooked), mute.known.of_surroundings same,
    fun l linked => ?_, fun _ => ?_⟩, unlinked⟩
  · rw [unlinked] at linked
    cases linked
  · rw [notes]
    exact mute.spoke mute.unlinked

theorem wiring_advanceTo (time : Nat) : (s.advanceTo time).1.wiring note = s.wiring note := by
  have overlooked := mute.discreet.overlooked
  refine advanceTo_induction (P := fun t => t.wiring note = s.wiring note) (wiring_moveClock s time)
    (fun _ count same => (wiring_drainUpTo (overlooked.of_wiring same) count time).trans same)
    fun _ l linked same => ?_
  -- The bridge is closed, and stays so.
  cases linked.symm.trans ((openLink?_of_wiring same).trans mute.unlinked)

theorem exchange : s.exchange = (s, .ok false) := by
  unfold Simulation.exchange
  simp only [mute.unlinked]

theorem delivered {q : Simulation σ ω} (settles : s.settled? = some q) : q.Delivered note := by
  rw [settled?, mute.exchange] at settles
  dsimp only at settles
  split at settles
  · cases settles
  · cases settles
    intro l linked
    have purged : s.purge.wiring note = s.wiring note := wiring_purge s
    rw [openLink?_of_wiring purged, mute.unlinked] at linked
    cases linked

theorem proceed (cap : Option Nat) : (s.proceed cap).1.Mute note := by
  have exchanged : s.exchange.1.Mute note := by
    rw [mute.exchange]
    exact mute
  exact proceed_induction exchanged
    (fun s₁ mute => mute.of_wiring (mute.known.of_frame (frame_purge s₁)) (wiring_purge s₁))
    (fun s₁ mute => mute.of_wiring (mute.known.of_frame (frame_nextDelta s₁)) (wiring_nextDelta s₁))
    (fun _ _ mute => mute.of_wiring mute.known rfl)
    (fun s₁ time mute =>
      mute.of_wiring (mute.known.of_frame (frame_advanceTo s₁ time)) (mute.wiring_advanceTo time))
    cap

theorem wrapUp {failure : Except SimError Unit} {verdict : Verdict}
    (wrapped : s.wrapUp failure = (s', verdict)) : s'.Mute note := by
  have same := wiring_wrapUp mute.discreet.overlooked failure
  rw [wrapped] at same
  exact mute.of_wiring (mute.toCivil.wrapUp wrapped).1.known same

theorem cycle (spares : B.Spares note) {fuel : Nat} {cap : Option Nat} {verdict : Verdict}
    (turned : s.cycle B fuel cap = .ok (s', verdict)) : s'.Mute note := by
  have begun := mute.commitPending
  cases way_of_cycle turned with
  | refused committed =>
      rw [committed] at begun
      exact begun
  | proceeded committed ran running went =>
      rw [committed] at begun
      have proceeds := (begun.runReady spares ran).proceed cap
      rw [went] at proceeds
      exact proceeds
  | wrapped committed ran stops ends =>
      rw [committed] at begun
      exact (begun.runReady spares ran).wrapUp ends

end Mute

/-- Closing the bridge ends the calls on it. -/
theorem Civil.closeLink {s : Simulation σ ω} (civil : s.Civil note) : s.closeLink.1.Mute note := by
  have known : s.closeLink.1.OutputsKnown := by
    refine civil.known.of_frame ?_
    unfold Simulation.closeLink
    cases present : s.link with
    | none => rfl
    | some l =>
        simp only [Link.close, frame, present]
        split <;> rfl
  cases linked : s.openLink? with
  | none =>
      have same : s.closeLink.1.wiring note = s.wiring note := by
        unfold Simulation.closeLink
        cases present : s.link with
        | none => rfl
        | some l =>
            have closed : l.closed = true := by
              simpa using Option.filter_eq_none_iff.mp linked l present
            simp only [Link.close, closed, if_true, wiring, present]
      exact ⟨civil.of_wiring known same, (openLink?_of_wiring same).trans linked⟩
  | some l =>
      obtain ⟨present, isOpen⟩ := Option.filter_eq_some_iff.mp linked
      simp only [Bool.not_eq_true'] at isOpen
      obtain ⟨noted, awaited, last, said⟩ := civil.speaks l linked
      have complete := said.protocol true
      rw [if_pos rfl, ← noted.close s.world] at complete
      simp only [Simulation.closeLink, present, Link.close, isOpen, Bool.false_eq_true, if_false]
        at known ⊢
      refine ⟨⟨civil.discreet, known, fun l' linked' => ?_, fun _ => complete⟩, rfl⟩
      cases linked'

theorem Civil.shutdown {s : Simulation σ ω} (civil : s.Civil note) : s.shutdown.1.Mute note := by
  have closed := civil.closeLink
  unfold Simulation.shutdown
  generalize s.closeLink = result at closed ⊢
  obtain ⟨s', _ | _⟩ := result
  · exact closed
  · dsimp only at closed ⊢
    cases hooked : s'.hook with
    | none => exact closed
    | some h =>
        have spared := (closed.discreet h hooked).finish s'.world
        refine closed.of_wiring closed.known ?_
        simp only [wiring, hooked, spared]

/-! ## Rest -/

theorem now_wrapUp (s : Simulation σ ω) (failure : Except SimError Unit) :
    (s.wrapUp failure).1.kernel.now = s.kernel.now := by
  obtain ⟨stopRequest, wrapped⟩ := s.wrapUp_eq failure
  rw [wrapped]
  exact (now_purge s.commitPending.1).trans (now_commitPending s)

/-- A cycle that does not come to rest leaves the clock where it is, and does not end the run for
want of anything to do. -/
theorem stays_of_unrested {fuel : Nat} {s s' : Simulation σ ω} {cap : Option Nat} {verdict : Verdict}
    (unrested : s.rested? B fuel = none) (turned : s.cycle B fuel cap = .ok (s', verdict)) :
    s'.kernel.now = s.kernel.now ∧ verdict ≠ .ended (.ok .suspended) ∧
      verdict ≠ .ended (.ok (.finished .noMoreEvents)) := by
  have begun := now_commitPending s
  cases way_of_cycle turned with
  | refused committed =>
      rw [committed] at begun
      exact ⟨begun, nofun, nofun⟩
  | @proceeded m s₁ _ committed ran running went =>
      rw [committed] at begun
      have now := (now_of_surroundings (surroundings_runReady ran).choose_spec).trans begun
      have exchanges := now_exchange s₁
      have way := way_of_proceed s₁
      rw [← rested?_of_round committed ran running, unrested] at way
      cases way with
      | failed exchanged proceeds =>
          rw [exchanged] at exchanges
          cases (proceeds cap).symm.trans went
          exact ⟨exchanges.trans now, nofun, nofun⟩
      | @entered s₂ sent exchanged proceeds =>
          rw [exchanged] at exchanges
          have kernel := kernel_nextDelta s₂.purge
          have went := (proceeds cap).symm.trans went
          generalize s₂.purge.nextDelta = next at went kernel
          have same := (congrArg Kernel.now kernel).trans
            ((now_purge s₂).trans (exchanges.trans now))
          obtain ⟨s₃, e | _⟩ := next <;> cases went <;> exact ⟨same, nofun, nofun⟩
  | @wrapped m s₁ failure _ committed ran stops ends =>
      rw [committed] at begun
      have now := (now_of_surroundings (surroundings_runReady ran).choose_spec).trans begun
      have same := now_wrapUp s₁ failure
      have asked := asked_of_wrapUp s₁ failure
      rw [ends] at same asked
      refine ⟨same.trans now, ?_⟩
      rcases asked with ⟨e, rfl⟩ | ⟨reason, rfl⟩
      · exact ⟨nofun, nofun⟩
      · exact ⟨nofun, nofun⟩

/-- A cycle that leaves its tick, or stops there in good order, has come to rest before. -/
theorem rested_of_leaves {fuel : Nat} {s s' : Simulation σ ω} {cap : Option Nat} {verdict : Verdict}
    (turned : s.cycle B fuel cap = .ok (s', verdict))
    (leaves : s'.kernel.now ≠ s.kernel.now ∨ verdict = .ended (.ok .suspended) ∨
      verdict = .ended (.ok (.finished .noMoreEvents))) :
    ∃ q, s.rested? B fuel = some q ∧ q.leaveTick cap = (s', verdict) := by
  cases rested : s.rested? B fuel with
  | none =>
      obtain ⟨now, running, going⟩ := stays_of_unrested rested turned
      rcases leaves with moves | stops | stops
      · exact absurd now moves
      · exact absurd stops running
      · exact absurd stops going
  | some q =>
      exact ⟨q, rfl, Except.ok.inj (((cycle_of_rested rested).2.2 cap).symm.trans turned)⟩

/-! ## Sessions -/

/-- The roster listens to an open bridge, or no bridge is open. -/
def Proper (note : ω → List BridgeCall) (s : Simulation σ ω) : Prop :=
  s.Mute note ∨ ∃ ledger r, Attuned note ledger s r

namespace Proper

variable {s s' : Simulation σ ω} (proper : s.Proper note)

include proper

theorem civil : s.Civil note := by
  rcases proper with mute | ⟨ledger, r, attuned⟩
  · exact mute.toCivil
  · exact attuned.civil

theorem of_wiring (same : s'.wiring note = s.wiring note) (waiters : s'.waiters = s.waiters)
    (ready : s'.ready = s.ready) (queue : s'.queue = s.queue) (kernel : s'.kernel = s.kernel) :
    s'.Proper note := by
  rcases proper with mute | ⟨ledger, r, attuned⟩
  · have links : s'.link = s.link := congrArg (fun wires => wires.2.1) same
    refine .inl (mute.of_wiring ?_ same)
    rw [OutputsKnown, kernel, outputs, links]
    exact mute.known
  · exact .inr ⟨ledger, r, attuned.of_wiring same waiters ready queue kernel⟩

theorem cycle (spares : B.Spares note) {fuel : Nat} {cap : Option Nat} {verdict : Verdict}
    (turned : s.cycle B fuel cap = .ok (s', verdict)) :
    s'.Civil note ∧ (verdict = .again ∨ verdict = .ended (.ok .suspended) → s'.Proper note) := by
  rcases proper with mute | ⟨ledger, r, attuned⟩
  · have mute' := mute.cycle spares turned
    exact ⟨mute'.toCivil, fun _ => .inl mute'⟩
  · obtain ⟨civil, goesOn⟩ := attuned.cycle spares turned
    exact ⟨civil, fun goes => .inr (goesOn goes)⟩

theorem loop (spares : B.Spares note) {fuel : Nat} {cap : Option Nat}
    {result : Except SimError Outcome} (looped : Simulation.loop B fuel s cap = .ok (s', result)) :
    s'.Civil note ∧ (result = .ok .suspended → s'.Proper note) := by
  replace looped := way_of_loop looped
  induction looped with
  | ended turned =>
      obtain ⟨civil, goesOn⟩ := proper.cycle spares turned
      exact ⟨civil, fun suspended => goesOn (.inr (congrArg Verdict.ended suspended))⟩
  | again turned further ih => exact ih ((proper.cycle spares turned).2 (.inl rfl))

theorem startHook : s.startHook.1.Proper note := by
  obtain ⟨hook, hookStarted, state, maxDeltas, defaultDuration, world, adjusted⟩ := s.adjusts_startHook
  exact proper.of_wiring (wiring_startHook proper.civil.discreet.overlooked) (by rw [adjusted])
    (by rw [adjusted]) (by rw [adjusted]) (by rw [adjusted])

theorem run (spares : B.Spares note) {fuel : Nat} {duration : Option Nat}
    {result : Except SimError Outcome} (ran : Simulation.run B fuel s duration = .ok (s', result)) :
    s'.Proper note := by
  have begun := proper.startHook
  cases way_of_run ran with
  | terminated ended => exact proper
  | untold running started =>
      rw [started] at begun
      exact begun
  | @played s₁ s₂ _ final _ running started looped concluded =>
      rw [started] at begun
      obtain ⟨civil, suspended⟩ := begun.loop spares looped
      have shuts (state : RunState) : ({ s₂ with state } : Simulation σ ω).shutdown.1.Mute note :=
        Civil.shutdown ⟨civil.discreet, civil.known, civil.speaks, civil.spoke⟩
      unfold conclude at concluded
      split at concluded
      · cases concluded
        exact (suspended rfl).of_wiring rfl rfl rfl rfl rfl
      · have shut := shuts .finished
        generalize shutdown { s₂ with state := .finished } = down at concluded shut
        obtain ⟨s₃, _ | _⟩ := down <;> cases concluded <;> exact .inl shut
      · cases concluded
        exact .inl (shuts .failed)

/-- Where a cycle comes to rest, everything is delivered. -/
theorem delivered (spares : B.Spares note) {fuel : Nat} {q : Simulation σ ω}
    (rested : s.rested? B fuel = some q) : q.Delivered note := by
  obtain ⟨m, s₁, committed, ran, -, settles⟩ := round_of_rested rested
  rcases proper with mute | ⟨ledger, r, attuned⟩
  · have mute₁ := mute.commitPending
    rw [committed] at mute₁
    exact (mute₁.runReady spares ran).delivered settles
  · have attuned₁ := attuned.commitPending
    rw [committed] at attuned₁
    obtain ⟨ledger', r', attuned₂, quiet⟩ := attuned₁.runReady spares ran
    exact attuned₂.delivered quiet settles

end Proper

/-! ## Beginnings -/

/-- Building makes no calls. A bridge that was attached is one of the instances. -/
theorem outside_of_addInstances {s s' : Simulation σ ω} {instances : List (Instance σ ω)}
    (added : s.addInstances B instances = .ok s') :
    s'.world = s.world ∧ s'.hook = s.hook ∧
      (s'.link = s.link ∨ ∃ bridge, .bridge bridge ∈ instances ∧ s'.link = some { bridge }) := by
  induction instances generalizing s with
  | nil =>
      cases added
      exact ⟨rfl, rfl, .inl rfl⟩
  | cons i rest ih =>
      obtain ⟨s₁, first, added⟩ := addInstances_cons added
      obtain ⟨world, hook, link⟩ := ih added
      have same : s₁.world = s.world ∧ s₁.hook = s.hook ∧
          (s₁.link = s.link ∨ ∃ bridge, .bridge bridge = i ∧ s₁.link = some { bridge }) := by
        cases way_of_addInstance first with
        | waiter made unbridged => exact ⟨rfl, rfl, .inl rfl⟩
        | group members => exact ⟨rfl, rfl, .inl rfl⟩
        | silent silent => exact ⟨rfl, rfl, .inr ⟨_, rfl, rfl⟩⟩
        | bridge speaks known => exact ⟨rfl, rfl, .inr ⟨_, rfl, rfl⟩⟩
      refine ⟨world.trans same.1, hook.trans same.2.1, ?_⟩
      rcases link with link | ⟨bridge, listed, linked⟩
      · rcases same.2.2 with kept | ⟨bridge, rfl, linked⟩
        · exact .inl (link.trans kept)
        · exact .inr ⟨bridge, List.mem_cons_self, link.trans linked⟩
      · exact .inr ⟨bridge, List.mem_cons_of_mem _ listed, linked⟩

theorem outside_of_build {kernel : Kernel} {instances : List (Instance σ ω)} {world : ω}
    {s : Simulation σ ω} (built : build B kernel instances world = .ok s) :
    s.world = world ∧ s.hook = none ∧
      (s.link = none ∨
        ∃ bridge, .bridge bridge ∈ Instance.flattenAll instances ∧ s.link = some { bridge }) := by
  have start : ({ kernel, world } : Simulation σ ω).addShadows.outside = (world, none, none) := by
    obtain ⟨waiters, ready, shadowed⟩ := addShadows_spec ({ kernel, world } : Simulation σ ω)
    rw [shadowed]
    rfl
  obtain ⟨world', hook, link⟩ := outside_of_addInstances built
  obtain ⟨world₀, rest⟩ := Prod.mk.inj start
  obtain ⟨link₀, hook₀⟩ := Prod.mk.inj rest
  exact ⟨world'.trans world₀, hook.trans hook₀, link.imp_left fun same => same.trans link₀⟩

end Simulation

namespace Instance

mutual

theorem flatten_tapped (i : Instance σ ω) : i.tapped.flatten = i.flatten.map tapped := by
  cases i with
  | process state => rfl
  | always block => rfl
  | bridge b => rfl
  | group members => exact flattenAll_tappedAll members

theorem flattenAll_tappedAll (instances : List (Instance σ ω)) :
    flattenAll (tappedAll instances) = (flattenAll instances).map tapped := by
  cases instances with
  | nil => rfl
  | cons i rest =>
      rw [tappedAll, flattenAll, flattenAll, List.map_append, flatten_tapped i,
        flattenAll_tappedAll rest]

end

/-- All bridges among tapped instances are tapped. -/
theorem exists_of_mem_tapped {instances : List (Instance σ ω)}
    {bridge : Bridge (ω × List BridgeCall)}
    (listed : .bridge bridge ∈ flattenAll (tappedAll instances)) : ∃ b, bridge = Bridge.tapped b := by
  rw [flattenAll_tappedAll, List.mem_map] at listed
  obtain ⟨i, -, same⟩ := listed
  cases i with
  | bridge b =>
      cases same
      exact ⟨b, rfl⟩
  | process | always | group => cases same

end Instance

namespace Simulation

variable {B : Behaviours σ ω}

/-- Simulations of tapped instances, between the calls of a session and between the cycles of a call.
Hooks and settings may be changed at any time. -/
inductive Wired (B : Behaviours σ ω) : Simulation σ (ω × List BridgeCall) → Prop where
  | built {kernel : Kernel} {instances : List (Instance σ ω)} {world : ω}
      {s : Simulation σ (ω × List BridgeCall)} (made : kernel.Made)
      (built : build (B.beside _) kernel (Instance.tappedAll instances) (world, []) = .ok s) :
      Wired B s
  | tuned {s : Simulation σ (ω × List BridgeCall)} (wired : Wired B s) (hook : Option (Hook ω))
      (hookStarted : Bool) (maxDeltas : Nat) (defaultDuration : Option Nat) :
      Wired B { s with hook := hook.map (Hook.beside _), hookStarted, maxDeltas, defaultDuration }
  | begun {s s' : Simulation σ (ω × List BridgeCall)} (wired : Wired B s)
      (running : s.hasEnded = false) (started : s.startHook = (s', .ok ())) : Wired B s'
  | cycled {s s' : Simulation σ (ω × List BridgeCall)} {fuel : Nat} {cap : Option Nat}
      (wired : Wired B s) (turned : s.cycle (B.beside _) fuel cap = .ok (s', .again)) : Wired B s'
  | answered {s s' : Simulation σ (ω × List BridgeCall)} {fuel : Nat} {call : Call}
      {result : Except SimError Outcome} (wired : Wired B s)
      (answered : s.answer (B.beside _) fuel call = .ok (s', result)) : Wired B s'

theorem proper_of_build {kernel : Kernel} {instances : List (Instance σ ω)} {world : ω}
    {s : Simulation σ (ω × List BridgeCall)} (made : kernel.Made)
    (built : build (B.beside _) kernel (Instance.tappedAll instances) (world, []) = .ok s) :
    s.Proper Prod.snd := by
  obtain ⟨world', hook, link⟩ := outside_of_build built
  have notes : s.world.2 = [] := by rw [world']
  have discreet : s.Discreet Prod.snd := by
    intro h hooked
    rw [hook] at hooked
    cases hooked
  have known := known_build built
  rcases link with link | ⟨bridge, listed, link⟩
  · have unlinked : s.openLink? = none := by rw [openLink?, link, Option.filter_none]
    refine .inl ⟨⟨discreet, known, fun l linked => ?_, fun _ => ?_⟩, unlinked⟩
    · rw [unlinked] at linked
      cases linked
    · rw [notes]
      exact Dialogue.begins.protocol false
  · obtain ⟨b, rfl⟩ := Instance.exists_of_mem_tapped listed
    obtain ⟨marks, tracks⟩ := Tracks.of_adds made.sound.atStart.idle (adds_build built)
      List.length_range List.nodup_range
    refine .inr ⟨_, _, ⟨marks, tracks⟩, rested_rooted _, known, discreet, _, none,
      by rw [openLink?, link]; rfl, b.noted_tapped, ?_, ?_⟩
    · rw [notes]
      exact .begins
    · cases outputs : b.outputs with
      | nil => exact .inl ⟨outputs, .inl rfl⟩
      | cons id rest =>
          have body : (.outputs : Body σ) ∈
              startingBodies kernel (Instance.tappedAll instances) := by
            refine List.mem_append_right _ (List.mem_filterMap.mpr ⟨_, listed, ?_⟩)
            have some : b.tapped.outputs.isEmpty = false := by
              rw [show b.tapped.outputs = b.outputs from rfl, outputs]
              rfl
            rw [Instance.body?, some]
            rfl
          obtain ⟨number, found⟩ := List.mem_iff_getElem?.mp body
          exact .inr ⟨number, minds_rooted found _ _⟩

theorem Wired.proper {s : Simulation σ (ω × List BridgeCall)} (wired : Wired B s) :
    s.Proper Prod.snd := by
  induction wired with
  | built made built => exact proper_of_build made built
  | @tuned s wired hook hookStarted maxDeltas defaultDuration ih =>
      have discreet : Discreet Prod.snd
          { s with hook := hook.map (Hook.beside _), hookStarted, maxDeltas, defaultDuration } := by
        intro h hooked
        obtain ⟨h, -, rfl⟩ := Option.map_eq_some_iff.mp hooked
        exact h.spares_beside
      rcases ih with mute | ⟨ledger, r, attuned⟩
      · exact .inl ⟨⟨discreet, mute.known, mute.speaks, mute.spoke⟩, mute.unlinked⟩
      · obtain ⟨marks, tracks⟩ := attuned.tracks
        exact .inr ⟨ledger, r, ⟨marks, tracks.of_books rfl rfl rfl rfl⟩, attuned.rested,
          attuned.known, discreet, attuned.hears⟩
  | begun wired running started ih =>
      have begun := ih.startHook
      rw [started] at begun
      exact begun
  | cycled wired turned ih => exact (ih.cycle B.spares_beside turned).2 (.inl rfl)
  | @answered s s' fuel call result wired answered ih =>
      cases call with
      | run duration => exact ih.run B.spares_beside answered
      | runToCompletion =>
          have ready : ({ s with defaultDuration := none } :
              Simulation σ (ω × List BridgeCall)).Proper Prod.snd :=
            ih.of_wiring rfl rfl rfl rfl rfl
          exact ready.run B.spares_beside answered

/-- The protocol of a bridge. The calls that are made on a bridge in a session alternate between
sends and receives, each at the tick of the send before it, and end with a close at most. A cycle
that moves the clock, that is suspended or that finds no more events comes to rest first, and then
the last values sent are those of the outputs, and the reply was read. -/
theorem sends_and_receives_alternate {s : Simulation σ (ω × List BridgeCall)} (wired : Wired B s) :
    Protocol s.world.2 ∧ Protocol s.quit.2.2 ∧
      ∀ fuel cap s' verdict, s.cycle (B.beside _) fuel cap = .ok (s', verdict) →
        (s'.kernel.now ≠ s.kernel.now ∨ verdict = .ended (.ok .suspended) ∨
          verdict = .ended (.ok (.finished .noMoreEvents))) →
        ∃ q, s.rested? (B.beside _) fuel = some q ∧ q.leaveTick cap = (s', verdict) ∧
          q.Delivered Prod.snd := by
  have proper := wired.proper
  refine ⟨?_, ?_, fun fuel cap s' verdict turned leaves => ?_⟩
  · cases linked : s.openLink? with
    | none => exact proper.civil.spoke linked
    | some l =>
        obtain ⟨-, awaited, last, said⟩ := proper.civil.speaks l linked
        have calls := said.protocol false
        rw [if_neg Bool.false_ne_true, List.append_nil] at calls
        exact calls
  · have closed := proper.civil.closeLink
    have calls := closed.spoke closed.unlinked
    unfold quit
    generalize s.closeLink = result at calls ⊢
    obtain ⟨s', _ | _⟩ := result <;> exact calls
  · obtain ⟨q, rested, left⟩ := rested_of_leaves turned leaves
    exact ⟨q, rested, left, proper.delivered B.spares_beside rested⟩

/-- An engine that drives nothing. -/
def listener : Bridge Unit where
  outputs := [⟨0⟩]
  receive _ w := (w, .ok [])
  send _ _ w := (w, .ok ())
  close w := (w, .ok ())

/-- A simulation of a sleeper that an engine watches. -/
def nightWatch : Simulation Unit (Unit × List BridgeCall) :=
  { (({ kernel := ledger, world := ((), []) } : Simulation Unit (Unit × List BridgeCall)).addWaiter
      "sleepy" (.process ()) none).addWaiter "cosim" .outputs none with
    link := some { bridge := listener.tapped } }

/-- Whether a run for four ticks is suspended after these calls, and whether a cycle up to the fifth
tick suspends it once more. -/
def suspendsTwice (calls : List BridgeCall) (s : Simulation Unit (Unit × List BridgeCall)) : Bool :=
  match s.answer (sleepy.beside _) 9 (.run (some 4)) with
  | .ok (s, .ok .suspended) =>
      match s.cycle (sleepy.beside _) 9 (some 5) with
      | .ok (_, .ended (.ok .suspended)) => decide (s.world.2 = calls)
      | _ => false
  | _ => false

/-- Nobody sleeps on a call: the sleeper wakes at the third tick, and there is one more exchange. -/
theorem a_night_watch_is_kept_up_to_date :
    ∃ s t q, nightWatch.answer (sleepy.beside _) 9 (.run (some 4)) = .ok (s, .ok .suspended) ∧
      s.world.2 = [.send 0 [(⟨0⟩, .int 0)], .receive 0, .send 3 [(⟨0⟩, .int 0)], .receive 3] ∧
      Protocol s.world.2 ∧
      s.cycle (sleepy.beside _) 9 (some 5) = .ok (t, .ended (.ok .suspended)) ∧
      s.rested? (sleepy.beside _) 9 = some q ∧ q.Delivered Prod.snd := by
  have made : ledger.Made := .signal .empty "total" (.int 0) none
  have built : build (sleepy.beside _) ledger (Instance.tappedAll [.process (), .bridge listener])
      ((), []) = .ok nightWatch := rfl
  have wired : Wired sleepy nightWatch := .built made built
  have suspends : suspendsTwice
      [.send 0 [(⟨0⟩, .int 0)], .receive 0, .send 3 [(⟨0⟩, .int 0)], .receive 3] nightWatch = true := by
    decide +kernel
  unfold suspendsTwice at suspends
  split at suspends
  · next s answered =>
      split at suspends
      · next t turned =>
          obtain ⟨protocol, -, rests⟩ := sends_and_receives_alternate (wired.answered answered)
          obtain ⟨q, rested, -, delivered⟩ := rests 9 (some 5) t _ turned (.inr (.inl rfl))
          exact ⟨s, t, q, answered, of_decide_eq_true suspends, protocol, turned, rested, delivered⟩
      · cases suspends
  · cases suspends

end Simulation

end DeltaCycle
