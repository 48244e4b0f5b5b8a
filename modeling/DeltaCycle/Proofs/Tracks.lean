import DeltaCycle.Proofs.Seats

/-!
# Tracking a simulation

The roster tracks a simulation if the waiter table agrees with its seats, if the current
armings that are ready are those that fired, if the others sit in exactly the wait lists of
their triggers, and if the queue holds what the roster awaits.
-/

set_option autoImplicit false

namespace DeltaCycle

variable {σ ω : Type}

/-- The wait list of a trigger. -/
def WaitLists.list (w : WaitLists) : Trigger → List Arming
  | .event _ => w.event
  | .edge ⟨_, .rising⟩ => w.rising
  | .edge ⟨_, .falling⟩ => w.falling

/-- The armings in the wait list of a trigger. -/
def Kernel.watchers (k : Kernel) (trigger : Trigger) : List Arming :=
  match k.signal? trigger.signal with
  | some signal => signal.waits.list trigger
  | none => []

/-- Whom an entry wakes, and when. -/
def Entry.wake? (e : Entry) : Option (Nat × Arming) :=
  match e.payload with
  | .wake a => some (e.time, a)
  | .apply .. => none

/-- Who is woken at which tick. -/
def EventQueue.wakes (q : EventQueue) : Multiset (Nat × Arming) :=
  (q.toList.filterMap Entry.wake? : List (Nat × Arming))

open Roster

/-- The current armings that are ready are those that fired. -/
structure Marked (ready : List Arming) (tags : Arming → Option Tag) (seat : Name → Seat σ)
    (fired : Tag → Bool) : Prop where
  tagged : ∀ a ∈ ready, ∃ tag, tags a = some tag
  exact : ∀ {a tag}, tags a = some tag → Current seat tag → (fired tag = true ↔ a ∈ ready)

/-- The current armings that have not fired sit in the wait lists of their triggers, once for each
time that they wait for one. -/
structure Watched (watchers : Trigger → List Arming) (tags : Arming → Option Tag)
    (seat : Name → Seat σ) (fired : Tag → Bool) (triggers : Tag → List Trigger) : Prop where
  tagged : ∀ t, ∀ a ∈ watchers t, ∃ tag, tags a = some tag
  counts : ∀ {a tag}, tags a = some tag → Current seat tag → fired tag = false →
    ∀ t, (watchers t).count a = (triggers tag).count t

/-- The queue holds what is awaited. -/
def Awaited (wakes : Multiset (Nat × Arming)) (tags : Arming → Option Tag)
    (awaited : Multiset (Nat × Tag)) : Prop :=
  wakes.map (fun e => (e.1, tags e.2)) = awaited.map fun e => (e.1, some e.2)

/-- The roster tracks the simulation. -/
structure Tracks (ledger : List Tag) (s : Simulation σ ω) (marks : Marks) (r : Roster σ) :
    Prop where
  seats : Seats ledger s.waiters marks r.seat r.outstanding
  marked : Marked s.ready.toList marks.tag r.seat r.fired
  watched : Watched s.kernel.watchers marks.tag r.seat r.fired r.triggers
  awaited : Awaited s.queue.wakes marks.tag r.wakes

/-! ## What is ready -/

namespace Marked

variable {ready : List Arming} {tags : Arming → Option Tag} {seat seat' : Name → Seat σ}
  {fired : Tag → Bool} (h : Marked ready tags seat fired)

include h

theorem mono (fewer : ∀ tag, Current seat' tag → Current seat tag) :
    Marked ready tags seat' fired :=
  ⟨h.tagged, fun tagged current => h.exact tagged (fewer _ current)⟩

theorem notify (injective : ∀ {a a' tag}, tags a = some tag → tags a' = some tag → a = a')
    {a : Arming} {tag : Tag} (tagged : tags a = some tag) :
    Marked (ready ++ [a]) tags seat (Function.update fired tag true) := by
  refine ⟨fun a' listed => ?_, fun {a' tag'} tagged' current => ?_⟩
  · rcases List.mem_append.mp listed with listed | listed
    · exact h.tagged a' listed
    · cases List.mem_singleton.mp listed
      exact ⟨tag, tagged⟩
  · by_cases same : tag' = tag
    · subst same
      obtain rfl := injective tagged tagged'
      simp
    · have other : a' ≠ a := by
        rintro rfl
        exact same (Option.some.inj (tagged'.symm.trans tagged))
      rw [Function.update_of_ne same, List.mem_append, List.mem_singleton, or_iff_left other]
      exact h.exact tagged' current

/-- Armings become ready that are those for which a condition holds, where they can fire. -/
theorem append {woken : List Arming} {hit : Tag → Bool}
    (tagged : ∀ a ∈ woken, ∃ tag, tags a = some tag)
    (exact : ∀ {a tag}, tags a = some tag → Current seat tag → fired tag = false →
      (hit tag = true ↔ a ∈ woken)) :
    Marked (ready ++ woken) tags seat
      fun tag => fired tag || (isCurrent seat tag && hit tag) := by
  refine ⟨fun a listed => ?_, fun {a tag} tagged' current => ?_⟩
  · rcases List.mem_append.mp listed with listed | listed
    · exact h.tagged a listed
    · exact tagged a listed
  · have before := h.exact tagged' current
    rw [isCurrent_iff.mpr current, Bool.true_and, Bool.or_eq_true, List.mem_append]
    cases idle : fired tag with
    | true => simp only [true_or, before.mp idle]
    | false =>
        have notReady : a ∉ ready := fun listed =>
          absurd (before.mpr listed) (by rw [idle]; exact Bool.false_ne_true)
        simp only [Bool.false_eq_true, false_or, notReady]
        exact exact tagged' current idle

end Marked

theorem Marked.skip {a : Arming} {rest : List Arming} {tags : Arming → Option Tag}
    {seat : Name → Seat σ} {fired : Tag → Bool} (h : Marked (a :: rest) tags seat fired)
    (stale : ∀ tag, tags a = some tag → ¬Current seat tag) : Marked rest tags seat fired := by
  refine ⟨fun a' listed => h.tagged a' (List.mem_cons_of_mem _ listed),
    fun {a' tag} tagged current => ?_⟩
  have other : a' ≠ a := by
    rintro rfl
    exact stale tag tagged current
  rw [h.exact tagged current, List.mem_cons, or_iff_right other]

/-- A fresh arming gets a name, and is ready or not. -/
theorem Marked.issue {ready : List Arming} {tags : Arming → Option Tag}
    {seat seat' : Name → Seat σ} {fired : Tag → Bool} (h : Marked ready tags seat fired)
    {me : Arming} {new : Tag} (fresh : tags me = none) (unknown : ∀ a, tags a ≠ some new)
    (fewer : ∀ tag, tag ≠ new → Current seat' tag → Current seat tag) (isReady : Bool) :
    Marked (if isReady then ready ++ [me] else ready) (Function.update tags me (some new)) seat'
      (Function.update fired new isReady) := by
  have unlisted : me ∉ ready := by
    intro listed
    obtain ⟨tag, tagged⟩ := h.tagged me listed
    cases fresh.symm.trans tagged
  have self : ∀ a, a = me → ∃ tag, Function.update tags me (some new) a = some tag := by
    rintro a rfl
    exact ⟨new, Function.update_self ..⟩
  refine ⟨fun a listed => ?_, fun {a tag} tagged current => ?_⟩
  · by_cases same : a = me
    · exact self a same
    · have listed' : a ∈ ready := by
        split at listed
        · rcases List.mem_append.mp listed with listed | listed
          · exact listed
          · exact absurd (List.mem_singleton.mp listed) same
        · exact listed
      rw [Function.update_of_ne same]
      exact h.tagged a listed'
  · by_cases same : a = me
    · subst same
      rw [Function.update_self] at tagged
      cases tagged
      rw [Function.update_self]
      cases isReady <;> simp [unlisted]
    · rw [Function.update_of_ne same] at tagged
      have other : tag ≠ new := by
        rintro rfl
        exact unknown a tagged
      rw [Function.update_of_ne other, h.exact tagged (fewer tag other current)]
      cases isReady <;> simp [same]

/-! ## What is watched -/

theorem Kernel.signal?_modify (k : Kernel) (id : SignalId) (f : Signal → Signal)
    (id' : SignalId) :
    (k.modify id f).signal? id' = if id = id' then (k.signal? id').map f else k.signal? id' := by
  obtain ⟨index⟩ := id
  obtain ⟨index'⟩ := id'
  simp only [signal?, modify, Array.getElem?_modify, SignalId.mk.injEq]

theorem WaitLists.list_enlist (me : Arming) (w : WaitLists) {trigger t : Trigger}
    (same : trigger.signal = t.signal) :
    (Simulation.enlist me w trigger).list t =
      if t = trigger then me :: w.list t else w.list t := by
  rcases trigger with signal | ⟨signal, _ | _⟩ <;> rcases t with signal' | ⟨signal', _ | _⟩ <;>
    cases same <;> simp [Simulation.enlist, list]

theorem Kernel.watchers_watch {k : Kernel} {trigger : Trigger}
    (known : (k.signal? trigger.signal).isSome = true) (me : Arming) (t : Trigger) :
    (k.modify trigger.signal fun signal =>
        { signal with waits := Simulation.enlist me signal.waits trigger }).watchers t =
      if t = trigger then me :: k.watchers t else k.watchers t := by
  unfold watchers
  rw [signal?_modify]
  by_cases same : trigger.signal = t.signal
  · rw [if_pos same]
    cases found : k.signal? t.signal with
    | none =>
        rw [same, found] at known
        cases known
    | some signal => exact WaitLists.list_enlist me signal.waits same
  · have other : t ≠ trigger := by
      rintro rfl
      exact same rfl
    rw [if_neg same, if_neg other]

theorem Kernel.watchers_modify (k : Kernel) (id : SignalId) {f : Signal → Signal}
    (kept : ∀ s, k.signal? id = some s → (f s).waits = s.waits) :
    (k.modify id f).watchers = k.watchers := by
  funext t
  unfold watchers
  rw [signal?_modify]
  by_cases same : id = t.signal
  · subst same
    rw [if_pos rfl]
    cases found : k.signal? t.signal with
    | none => rfl
    | some signal => exact congrArg (·.list t) (kept signal found)
  · rw [if_neg same]

namespace Watched

variable {watchers watchers' : Trigger → List Arming} {tags : Arming → Option Tag}
  {seat seat' : Name → Seat σ} {fired fired' : Tag → Bool} {triggers : Tag → List Trigger}
  (h : Watched watchers tags seat fired triggers)

include h

theorem exact {a : Arming} {tag : Tag} (tagged : tags a = some tag) (current : Current seat tag)
    (idle : fired tag = false) (t : Trigger) : a ∈ watchers t ↔ t ∈ triggers tag := by
  rw [← List.count_pos_iff, ← List.count_pos_iff, h.counts tagged current idle t]

theorem mono (fewer : ∀ tag, Current seat' tag → Current seat tag)
    (more : ∀ tag, fired' tag = false → fired tag = false) :
    Watched watchers tags seat' fired' triggers :=
  ⟨h.tagged, fun tagged current idle => h.counts tagged (fewer _ current) (more _ idle)⟩

theorem notify (tag : Tag) :
    Watched watchers tags seat (Function.update fired tag true) triggers := by
  refine h.mono (fun _ => id) fun tag' idle => ?_
  by_cases same : tag' = tag
  · rw [same, Function.update_self] at idle
    cases idle
  · rwa [Function.update_of_ne same] at idle

theorem shrink (fewer : ∀ t, ∀ a ∈ watchers' t, a ∈ watchers t)
    (kept : ∀ {a tag}, tags a = some tag → Current seat tag →
      ∀ t, (watchers' t).count a = (watchers t).count a) :
    Watched watchers' tags seat fired triggers := by
  refine ⟨fun t a listed => h.tagged t a (fewer t a listed), fun tagged current idle t => ?_⟩
  rw [kept tagged current t]
  exact h.counts tagged current idle t

theorem watch (injective : ∀ {a a' tag}, tags a = some tag → tags a' = some tag → a = a')
    {me : Arming} {tag : Tag} (tagged : tags me = some tag) (trigger : Trigger) :
    Watched (fun t => if t = trigger then me :: watchers t else watchers t) tags seat fired
      (Function.update triggers tag (triggers tag ++ [trigger])) := by
  refine ⟨fun t a listed => ?_, fun {a tag'} tagged' current idle t => ?_⟩
  · split at listed
    · rcases List.mem_cons.mp listed with rfl | listed
      · exact ⟨tag, tagged⟩
      · exact h.tagged t a listed
    · exact h.tagged t a listed
  · have before := h.counts tagged' current idle t
    by_cases same : tag' = tag
    · subst same
      obtain rfl := injective tagged tagged'
      rw [Function.update_self, List.count_append, ← before, List.count_singleton]
      split
      · next here => simp [here]
      · next elsewhere => simp [Ne.symm elsewhere]
    · have other : me ≠ a := by
        rintro rfl
        exact same (Option.some.inj (tagged'.symm.trans tagged))
      rw [Function.update_of_ne same, ← before]
      split
      · exact List.count_cons_of_ne other
      · rfl

/-- A fresh arming gets a name, and watches nothing yet. -/
theorem issue {me : Arming} {new : Tag} (fresh : tags me = none)
    (unknown : ∀ a, tags a ≠ some new)
    (fewer : ∀ tag, tag ≠ new → Current seat' tag → Current seat tag) (isReady : Bool) :
    Watched watchers (Function.update tags me (some new)) seat' (Function.update fired new isReady)
      (Function.update triggers new []) := by
  have unlisted (t : Trigger) : me ∉ watchers t := by
    intro listed
    obtain ⟨tag, tagged⟩ := h.tagged t me listed
    cases fresh.symm.trans tagged
  refine ⟨fun t a listed => ?_, fun {a tag} tagged current idle t => ?_⟩
  · have other : a ≠ me := by
      rintro rfl
      exact unlisted t listed
    rw [Function.update_of_ne other]
    exact h.tagged t a listed
  · by_cases same : a = me
    · subst same
      rw [Function.update_self] at tagged
      cases tagged
      rw [Function.update_self]
      exact (List.count_eq_zero.mpr (unlisted t)).trans List.count_nil.symm
    · rw [Function.update_of_ne same] at tagged
      have other : tag ≠ new := by
        rintro rfl
        exact unknown a tagged
      rw [Function.update_of_ne other] at idle ⊢
      exact h.counts tagged (fewer tag other current) idle t

end Watched

/-! ## What is awaited -/

namespace Awaited

variable {wakes : Multiset (Nat × Arming)} {tags tags' : Arming → Option Tag}
  {awaited : Multiset (Nat × Tag)} (h : Awaited wakes tags awaited)

include h

theorem tagged {e : Nat × Arming} (listed : e ∈ wakes) :
    ∃ tag, tags e.2 = some tag ∧ (e.1, tag) ∈ awaited := by
  have mapped := Multiset.mem_map_of_mem (fun e : Nat × Arming => (e.1, tags e.2)) listed
  rw [h] at mapped
  obtain ⟨e', listed', same⟩ := Multiset.mem_map.mp mapped
  obtain ⟨time, tag⟩ := e'
  simp only [Prod.mk.injEq] at same
  obtain ⟨rfl, tagged⟩ := same
  exact ⟨tag, tagged.symm, listed'⟩

theorem extend (tags_of : ∀ a tag, tags a = some tag → tags' a = some tag) :
    Awaited wakes tags' awaited := by
  refine Eq.trans (Multiset.map_congr rfl fun e listed => ?_) h
  obtain ⟨tag, tagged, -⟩ := h.tagged listed
  rw [tags_of _ _ tagged, tagged]

theorem push {a : Arming} {tag : Tag} (time : Nat) (tagged : tags a = some tag) :
    Awaited ((time, a) ::ₘ wakes) tags ((time, tag) ::ₘ awaited) := by
  unfold Awaited at h ⊢
  rw [Multiset.map_cons, Multiset.map_cons, h, tagged]

end Awaited

theorem Awaited.pop {wakes : Multiset (Nat × Arming)} {tags : Arming → Option Tag}
    {awaited : Multiset (Nat × Tag)} {time : Nat} {a : Arming}
    (h : Awaited ((time, a) ::ₘ wakes) tags awaited) :
    ∃ tag, tags a = some tag ∧ (time, tag) ∈ awaited ∧
      Awaited wakes tags (awaited.erase (time, tag)) := by
  obtain ⟨tag, tagged, listed⟩ := h.tagged (Multiset.mem_cons_self ..)
  refine ⟨tag, tagged, listed, ?_⟩
  obtain ⟨rest, rfl⟩ := Multiset.exists_cons_of_mem listed
  rw [Multiset.erase_cons_head]
  unfold Awaited at h ⊢
  rw [Multiset.map_cons, Multiset.map_cons] at h
  simp only [tagged] at h
  exact (Multiset.cons_inj_right _).mp h

theorem EventQueue.wakes_push_wake (q : EventQueue) (time : Nat) (a : Arming) :
    (q.push time (.wake a)).wakes = (time, a) ::ₘ q.wakes := by
  have same := (q.toList_push time (.wake a)).filterMap Entry.wake?
  exact Multiset.coe_eq_coe.mpr same

theorem EventQueue.wakes_push_apply (q : EventQueue) (time : Nat) (id : SignalId)
    (value : Value) (stamp : Nat) : (q.push time (.apply id value stamp)).wakes = q.wakes := by
  have same := (q.toList_push time (.apply id value stamp)).filterMap Entry.wake?
  exact Multiset.coe_eq_coe.mpr same

theorem EventQueue.wakes_popDue_wake {q rest : EventQueue} {time : Nat} {a : Arming}
    (popped : q.popDue time = some (.wake a, rest)) : q.wakes = (time, a) ::ₘ rest.wakes := by
  obtain ⟨first, rfl, payload, -, same⟩ := EventQueue.toList_popDue popped
  have same := same.filterMap Entry.wake?
  rw [List.filterMap_cons_some (b := (first.time, a)) (by simp only [Entry.wake?, payload])] at same
  exact Multiset.coe_eq_coe.mpr same

theorem EventQueue.wakes_popDue_apply {q rest : EventQueue} {time : Nat} {id : SignalId}
    {value : Value} {stamp : Nat} (popped : q.popDue time = some (.apply id value stamp, rest)) :
    q.wakes = rest.wakes := by
  obtain ⟨first, -, payload, -, same⟩ := EventQueue.toList_popDue popped
  have same := same.filterMap Entry.wake?
  rw [List.filterMap_cons_none (by simp only [Entry.wake?, payload])] at same
  exact Multiset.coe_eq_coe.mpr same

end DeltaCycle
