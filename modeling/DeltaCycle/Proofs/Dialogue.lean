import DeltaCycle.Proofs.Wiretap

/-!
# Dialogues with an engine

The outputs are sent and the reply is read in strict alternation. A reply is read in the delta cycle
after the send, so it belongs to the same tick.
-/

set_option autoImplicit false

namespace DeltaCycle

variable {σ ω : Type}

/-! ## Dialogues -/

/-- A dialogue with an engine: the calls so far, the tick of a send that was not answered, and the
values that were sent last. -/
inductive Dialogue :
    List BridgeCall → Option Nat → Option (List (SignalId × Value)) → Prop where
  | begins : Dialogue [] none none
  | sends {calls : List BridgeCall} {last : Option (List (SignalId × Value))}
      (said : Dialogue calls none last) (time : Nat) (values : List (SignalId × Value)) :
      Dialogue (calls ++ [.send time values]) (some time) (some values)
  | receives {calls : List BridgeCall} {time : Nat} {last : Option (List (SignalId × Value))}
      (said : Dialogue calls (some time) last) : Dialogue (calls ++ [.receive time]) none last

/-- Values that are sent at a tick, and the reply at the same tick. -/
def exchangeOf (sent : Nat × List (SignalId × Value)) : List BridgeCall :=
  [.send sent.1 sent.2, .receive sent.1]

/-- Exchanges, then at most one send without a reply, then at most one close and nothing after. -/
def Protocol (calls : List BridgeCall) : Prop :=
  ∃ (exchanges : List (Nat × List (SignalId × Value)))
    (unanswered : Option (Nat × List (SignalId × Value))) (closing : Bool),
    calls = exchanges.flatMap exchangeOf ++ (unanswered.map fun sent => .send sent.1 sent.2).toList ++
      if closing then [.close] else []

namespace Dialogue

variable {calls : List BridgeCall} {awaited : Option Nat} {last : Option (List (SignalId × Value))}

/-- A dialogue is a list of exchanges, and a send where a reply is awaited. -/
theorem exchanges (said : Dialogue calls awaited last) :
    ∃ exchanges : List (Nat × List (SignalId × Value)),
      match awaited with
      | none => calls = exchanges.flatMap exchangeOf ∧ last = exchanges.getLast?.map Prod.snd
      | some time => ∃ values, last = some values ∧
          calls = exchanges.flatMap exchangeOf ++ [.send time values] := by
  induction said with
  | begins => exact ⟨[], rfl, rfl⟩
  | sends said time values ih =>
      obtain ⟨exchanges, rfl, -⟩ := ih
      exact ⟨exchanges, values, rfl, rfl⟩
  | @receives calls time last said ih =>
      obtain ⟨exchanges, values, rfl, rfl⟩ := ih
      refine ⟨exchanges ++ [(time, values)], ?_, ?_⟩
      · simp [exchangeOf]
      · simp

theorem protocol (said : Dialogue calls awaited last) (closing : Bool) :
    Protocol (calls ++ if closing then [.close] else []) := by
  obtain ⟨exchanges, same⟩ := said.exchanges
  cases awaited with
  | none =>
      obtain ⟨rfl, -⟩ := same
      exact ⟨exchanges, none, closing, by simp⟩
  | some time =>
      obtain ⟨values, -, rfl⟩ := same
      exact ⟨exchanges, some (time, values), closing, rfl⟩

/-- Where no reply is awaited, the last values were sent and answered in the last two calls. -/
theorem answered {values : List (SignalId × Value)} (said : Dialogue calls none (some values)) :
    ∃ before time, calls = before ++ [.send time values, .receive time] := by
  obtain ⟨exchanges, rfl, last⟩ := said.exchanges
  rcases List.eq_nil_or_concat' exchanges with rfl | ⟨before, ⟨time, sent⟩, rfl⟩
  · cases last
  · rw [List.getLast?_concat] at last
    cases last
    exact ⟨before.flatMap exchangeOf, time, by simp [exchangeOf]⟩

end Dialogue

/-- The tick of the reply that is awaited. -/
def Link.awaits (l : Link ω) (now : Nat) : Option Nat := if l.awaitingReply then some now else none

namespace Simulation

variable {note : ω → List BridgeCall}

theorem link_of_openLink? {s : Simulation σ ω} {l : Link ω} (linked : s.openLink? = some l) :
    s.link = some l :=
  (Option.filter_eq_some_iff.mp linked).1

/-- The bridge stays open where a body is resumed, and hears of it from the waiter of the outputs. -/
theorem openLink?_of_noted {s s' : Simulation σ ω} {l : Link ω} (linked : s.openLink? = some l)
    {body : Body σ} (links : s'.link = noted s.link body) :
    ∃ l', s'.openLink? = some l' ∧ l'.bridge = l.bridge ∧ l'.awaitingReply = l.awaitingReply ∧
      (l.changed = true → l'.changed = true) ∧ (body = .outputs → l'.changed = true) := by
  obtain ⟨present, isOpen⟩ := Option.filter_eq_some_iff.mp linked
  rw [present] at links
  have isOpen' (l' : Link ω) (closed : l'.closed = l.closed) (links : s'.link = some l') :
      s'.openLink? = some l' := by
    refine Option.filter_eq_some_iff.mpr ⟨links, ?_⟩
    rw [closed]
    exact isOpen
  cases body with
  | outputs =>
      exact ⟨{ l with changed := true }, isOpen' _ rfl links, rfl, rfl, fun _ => rfl, fun _ => rfl⟩
  | process | branch | shadow | always =>
      refine ⟨l, isOpen' _ rfl links, rfl, rfl, id, fun same => ?_⟩
      cases same

theorem snapshot_of_same {k k' : Kernel} {outputs : List SignalId}
    (same : ∀ id ∈ outputs, k'.val? id = k.val? id) : snapshot k' outputs = snapshot k outputs := by
  refine List.filterMap_congr fun id output => ?_
  rw [same id output]

/-! ## Calls on the bridge -/

/-- After a reply was read, well or not, none is awaited. -/
theorem said_of_readReply {s s₁ : Simulation σ ω} {l : Link ω} {last : Option (List (SignalId × Value))}
    {result : Except SimError Bool} (linked : s.openLink? = some l) (noted : l.bridge.Noted note)
    (said : Dialogue (note s.world) (l.awaits s.kernel.now) last)
    (read : s.readReply l = (s₁, result)) :
    s₁.openLink? = some { l with awaitingReply := false } ∧ s₁.hook = s.hook ∧
      Dialogue (note s₁.world) none last := by
  unfold Link.awaits at said
  unfold readReply at read
  split at read
  · next awaiting =>
      rw [if_pos awaiting] at said
      have relinked : ({ s with link := s.link.map fun l => { l with awaitingReply := false } } :
          Simulation σ ω).openLink? = some { l with awaitingReply := false } := by
        obtain ⟨present, isOpen⟩ := Option.filter_eq_some_iff.mp linked
        simp only [openLink?, present, Option.map_some]
        exact Option.filter_eq_some_iff.mpr ⟨rfl, isOpen⟩
      have heard := said.receives
      rw [← noted.receive s.kernel.now s.world] at heard
      dsimp only [changeLink] at read
      generalize l.bridge.receive s.kernel.now s.world = received at read heard
      obtain ⟨world, e | values⟩ := received
      · cases read
        exact ⟨relinked, rfl, heard⟩
      · dsimp only at read heard
        obtain ⟨kernel, same, -⟩ := takeIn_spec
          { s with link := s.link.map fun l => { l with awaitingReply := false }, world } false values
        rw [read] at same
        dsimp only at same
        subst same
        exact ⟨relinked, rfl, heard⟩
  · next settled =>
      cases read
      rw [if_neg settled] at said
      refine ⟨?_, rfl, said⟩
      rw [linked]
      simp only [Bool.not_eq_true] at settled
      rw [← settled]

/-- After a send, a reply is awaited, unless the send failed. -/
theorem said_of_sendOutputs {s s₁ : Simulation σ ω} {l : Link ω}
    {last : Option (List (SignalId × Value))} {result : Except SimError Unit}
    (linked : s.openLink? = some l) (noted : l.bridge.Noted note)
    (said : Dialogue (note s.world) none last) (sent : s.sendOutputs l.bridge = (s₁, result)) :
    s₁.kernel = s.kernel ∧ s₁.hook = s.hook ∧
      Dialogue (note s₁.world) (some s.kernel.now) (some (snapshot s.kernel l.bridge.outputs)) ∧
      ((∃ e, result = .error e) ∧ s₁.openLink? = some l ∨
        result = .ok () ∧ s₁.openLink? = some { l with changed := false, awaitingReply := true }) := by
  have told := said.sends s.kernel.now (snapshot s.kernel l.bridge.outputs)
  rw [← noted.send s.kernel.now (snapshot s.kernel l.bridge.outputs) s.world] at told
  unfold sendOutputs at sent
  generalize l.bridge.send s.kernel.now (snapshot s.kernel l.bridge.outputs) s.world = result at sent told
  obtain ⟨world, e | ⟨⟩⟩ := result
  · cases sent
    exact ⟨rfl, rfl, told, .inl ⟨⟨_, rfl⟩, linked⟩⟩
  · cases sent
    refine ⟨rfl, rfl, told, .inr ⟨rfl, ?_⟩⟩
    obtain ⟨present, isOpen⟩ := Option.filter_eq_some_iff.mp linked
    simp only [openLink?, changeLink, present, Option.map_some]
    exact Option.filter_eq_some_iff.mpr ⟨rfl, isOpen⟩

/-! ## Decent simulations -/

/-- The calls so far follow the protocol. -/
structure Civil (note : ω → List BridgeCall) (s : Simulation σ ω) : Prop where
  discreet : s.Discreet note
  known : s.OutputsKnown
  speaks : ∀ l, s.openLink? = some l →
    l.bridge.Noted note ∧ ∃ awaited last, Dialogue (note s.world) awaited last
  spoke : s.openLink? = none → Protocol (note s.world)

/-- The bridge is open, and the values that were sent last are those of the outputs. -/
structure Clear (note : ω → List BridgeCall) (s : Simulation σ ω) (l : Link ω) : Prop where
  discreet : s.Discreet note
  linked : s.openLink? = some l
  noted : l.bridge.Noted note
  unchanged : l.changed = false
  said : Dialogue (note s.world) (l.awaits s.kernel.now) (some (snapshot s.kernel l.bridge.outputs))

theorem Civil.of_openLink? {s : Simulation σ ω} {l : Link ω} (discreet : s.Discreet note)
    (known : s.OutputsKnown) (linked : s.openLink? = some l) (noted : l.bridge.Noted note)
    {awaited : Option Nat} {last : Option (List (SignalId × Value))}
    (said : Dialogue (note s.world) awaited last) : s.Civil note := by
  refine ⟨discreet, known, fun l' linked' => ?_, fun unlinked => ?_⟩
  · obtain rfl := Option.some.inj (linked.symm.trans linked')
    exact ⟨noted, _, _, said⟩
  · rw [linked] at unlinked
    cases unlinked

theorem Civil.of_wiring {s s' : Simulation σ ω} (civil : s.Civil note) (known : s'.OutputsKnown)
    (same : s'.wiring note = s.wiring note) : s'.Civil note := by
  have links := openLink?_of_wiring same
  have notes : note s'.world = note s.world := congrArg Prod.fst same
  refine ⟨civil.discreet.of_wiring same, known, fun l linked => ?_, fun unlinked => ?_⟩
  · rw [notes]
    exact civil.speaks l (links ▸ linked)
  · rw [notes]
    exact civil.spoke (links ▸ unlinked)

/-- Whenever the bridge is open, the last calls on it were a send of the values that the outputs have
and the reply to it. -/
def Delivered (note : ω → List BridgeCall) (s : Simulation σ ω) : Prop :=
  ∀ l, s.openLink? = some l → ∃ before time, note s.world =
    before ++ [.send time (snapshot s.kernel l.bridge.outputs), .receive time]

theorem Civil.wrapUp {s s' : Simulation σ ω} {failure : Except SimError Unit} {verdict : Verdict}
    (civil : s.Civil note) (wrapped : s.wrapUp failure = (s', verdict)) :
    s'.Civil note ∧ ∃ result, verdict = .ended result ∧ result ≠ .ok .suspended := by
  have stops := ended_of_wrapUp s failure
  have same := wiring_wrapUp civil.discreet.overlooked failure
  have known : (s.wrapUp failure).1.OutputsKnown := by
    have known₁ : s.commitPending.1.OutputsKnown := civil.known.of_frame (frame_updateAll _ _ _)
    have known₂ := known₁.of_frame (frame_purge _)
    obtain ⟨stopRequest, same⟩ := s.wrapUp_eq failure
    rw [same]
    exact known₂
  rw [wrapped] at stops same known
  exact ⟨civil.of_wiring known same, stops⟩

namespace Clear

variable {s s' : Simulation σ ω} {l : Link ω} (clear : s.Clear note l)

include clear

theorem of_wiring (same : s'.wiring note = s.wiring note)
    (committed : s'.kernel.committed = s.kernel.committed) : s'.Clear note l := by
  have notes : note s'.world = note s.world := congrArg Prod.fst same
  refine ⟨clear.discreet.of_wiring same, (openLink?_of_wiring same).trans clear.linked, clear.noted,
    clear.unchanged, ?_⟩
  rw [notes, Kernel.now_of_committed committed,
    snapshot_of_same fun id _ => Kernel.val?_of_committed committed id]
  exact clear.said

theorem civil (known : s.OutputsKnown) : s.Civil note :=
  .of_openLink? clear.discreet known clear.linked clear.noted clear.said

/-- Where no reply is awaited, moving the clock ends with a send, well or not. -/
theorem advanceTo {time : Nat} {result : Except SimError Unit} (settled : l.awaitingReply = false)
    (known : s.OutputsKnown) (advanced : s.advanceTo time = (s', result)) :
    s'.Civil note ∧ (result = .ok () → ∃ l', s'.Clear note l') := by
  have known' := known.of_frame (frame_advanceTo s time)
  rw [advanced] at known'
  have civil := clear.civil known
  have wired : (s.moveClock time).1.wiring note = s.wiring note := wiring_moveClock s time
  unfold Simulation.advanceTo at advanced
  generalize s.moveClock time = moved at advanced wired
  obtain ⟨s₁, e | ⟨⟩⟩ := moved
  · cases advanced
    exact ⟨civil.of_wiring known' wired, nofun⟩
  · have drained :=
      (wiring_drainUpTo (clear.discreet.overlooked.of_wiring wired) s₁.queue.size time).trans wired
    change (drain s₁ time).1.wiring note = _ at drained
    dsimp only at advanced
    generalize drain s₁ time = result at advanced drained
    obtain ⟨s₂, e | ⟨⟩⟩ := result
    · cases advanced
      exact ⟨civil.of_wiring known' drained, nofun⟩
    · have linked := (openLink?_of_wiring drained).trans clear.linked
      have notes : note s₂.world = note s.world := congrArg Prod.fst drained
      have said := clear.said
      rw [Link.awaits, settled, if_neg Bool.false_ne_true, ← notes] at said
      simp only [linked] at advanced
      obtain ⟨kernel, hook, told, outcome⟩ :=
        said_of_sendOutputs linked clear.noted said advanced
      have discreet : s'.Discreet note := fun h hooked =>
        clear.discreet.of_wiring drained h (hook.symm.trans hooked)
      rcases outcome with ⟨⟨e, rfl⟩, linked'⟩ | ⟨rfl, linked'⟩
      · exact ⟨.of_openLink? discreet known' linked' clear.noted told, nofun⟩
      · have clear' : s'.Clear note { l with changed := false, awaitingReply := true } :=
          ⟨discreet, linked', clear.noted, rfl, by rw [kernel]; exact told⟩
        exact ⟨clear'.civil known', fun _ => ⟨_, clear'⟩⟩

theorem purge : s.purge.Clear note l := clear.of_wiring (wiring_purge s) (committed_purge s)

theorem delivered (settled : l.awaitingReply = false) : s.Delivered note := by
  intro l' linked
  obtain rfl := Option.some.inj (clear.linked.symm.trans linked)
  have said := clear.said
  rw [Link.awaits, settled, if_neg Bool.false_ne_true] at said
  exact said.answered

/-- What the loop does at the end of a tick keeps to the protocol. -/
theorem leaveTick {cap : Option Nat} {verdict : Verdict} (settled : l.awaitingReply = false)
    (known : s.OutputsKnown) (left : s.leaveTick cap = (s', verdict)) :
    s'.Civil note ∧
      (verdict = .again ∨ verdict = .ended (.ok .suspended) → ∃ l', s'.Clear note l') := by
  have civil := clear.civil known
  have way := way_of_leaveTick left
  generalize s.onward? cap = onward at way
  cases way with
  | held here => exact ⟨civil, fun _ => ⟨l, clear⟩⟩
  | exhausted elsewhere last => exact ⟨civil, nofun⟩
  | @stopped now _ elsewhere next present before =>
      have jumped : ({ s with kernel := { s.kernel with now }, delta := 0 } :
          Simulation σ ω).Clear note l := by
        refine ⟨clear.discreet, clear.linked, clear.noted, clear.unchanged, ?_⟩
        have said := clear.said
        rw [Link.awaits, settled, if_neg Bool.false_ne_true] at said ⊢
        exact said
      exact ⟨jumped.civil known, fun _ => ⟨l, jumped⟩⟩
  | failed elsewhere next inTime advanced =>
      exact ⟨(clear.advanceTo settled known advanced).1, nofun⟩
  | advanced elsewhere next inTime advanced =>
      obtain ⟨civil', clears⟩ := clear.advanceTo settled known advanced
      exact ⟨civil', fun _ => clears rfl⟩

end Clear

end Simulation

end DeltaCycle
