import DeltaCycle.Proofs.Timetable

/-!
# Views

What a simulation shows of one signal: the signal without its wait lists, and the values that are
due for it. A commit phase and a drain of the queue change what is shown of a signal, and commit
changes of it, as if there were no other signal. So neither the order in which signals were written
nor the order in which entries of different signals come due makes a difference.
-/

set_option autoImplicit false

namespace DeltaCycle

variable {σ ω : Type}

/-- The changes of a signal, in order. -/
def changesOf (id : SignalId) (changes : List Change) : List Change :=
  changes.filter fun c => c.signal = id

theorem changesOf_append (id : SignalId) (first second : List Change) :
    changesOf id (first ++ second) = changesOf id first ++ changesOf id second :=
  List.filter_append ..

/-- Lists with the same changes of each signal differ in their order alone. -/
theorem perm_of_changesOf {changes changes' : List Change}
    (same : ∀ id, changesOf id changes' = changesOf id changes) : changes'.Perm changes := by
  have count (c : Change) (changes : List Change) :
      (changesOf c.signal changes).count c = changes.count c :=
    List.count_filter (decide_eq_true rfl)
  exact List.perm_iff_count.mpr fun c => by rw [← count c, same, count]

/-! ## Bare signals -/

namespace Commit

/-- The outcome of a transition without those whom it wakes. -/
def bare : Commit → Commit
  | changed old _ => changed old []
  | commit => commit

/-- What is due for the signal after a transition. -/
def defer (now : Nat) (dues : List Due) : Commit → List Due
  | deferred delay value stamp =>
      if now + delay ≤ lastTick then Due.insert ⟨now + delay, value, stamp⟩ dues else dues
  | _ => dues

/-- The outcome does not reach past the last tick. -/
def Fits (now : Nat) : Commit → Prop
  | deferred delay _ _ => now + delay ≤ lastTick
  | _ => True

theorem defer_bare (now : Nat) (dues : List Due) (commit : Commit) :
    commit.bare.defer now dues = commit.defer now dues := by
  cases commit <;> rfl

theorem fits_bare (now : Nat) (commit : Commit) : commit.bare.Fits now = commit.Fits now := by
  cases commit <;> rfl

end Commit

namespace Signal

/-- The signal without its wait lists. -/
def bare (s : Signal) : Signal := { s with waits := {} }

/-- A transition does not depend on who waits. -/
def Blind (f : Signal → Signal × Commit) : Prop := ∀ s, f s.bare = ((f s).1.bare, (f s).2.bare)

/-- A transition defers nothing. -/
def Prompt (f : Signal → Signal × Commit) : Prop :=
  ∀ s delay value stamp, (f s).2 ≠ .deferred delay value stamp

theorem blind_apply (new : Value) : Blind fun s => s.apply new := by
  intro s
  unfold apply
  dsimp only [bare]
  split
  · rfl
  · split
    · rfl
    · split <;> rfl

theorem blind_update : Blind update := by
  intro s
  cases inertia : s.inertia with
  | none =>
      rw [update_of_prompt inertia, update_of_prompt (s := s.bare) inertia]
      exact blind_apply _ s
  | some i =>
      rw [update_of_inertial inertia, update_of_inertial (s := s.bare) inertia]
      rfl

theorem blind_applyDeferred (value : Value) (stamp : Nat) :
    Blind fun s => s.applyDeferred value stamp := by
  intro s
  cases inertia : s.inertia with
  | none =>
      dsimp only
      rw [applyDeferred_of_prompt inertia, applyDeferred_of_prompt (s := s.bare) inertia]
      rfl
  | some i =>
      dsimp only
      rw [applyDeferred_of_inertial inertia, applyDeferred_of_inertial (s := s.bare) inertia]
      split
      · exact blind_apply value s
      · rfl

theorem prompt_applyDeferred (value : Value) (stamp : Nat) :
    Prompt fun s => s.applyDeferred value stamp := by
  intro s delay value' stamp'
  cases inertia : s.inertia with
  | none =>
      dsimp only
      rw [applyDeferred_of_prompt inertia]
      rintro ⟨⟩
  | some i =>
      dsimp only
      rw [applyDeferred_of_inertial inertia]
      split
      · rcases s.apply_cases value with ⟨-, same⟩ | ⟨-, waits, woken, same⟩ <;> rw [same] <;>
          rintro ⟨⟩
      · rintro ⟨⟩

end Signal

/-! ## Views -/

/-- What is shown of one signal. -/
structure View where
  signal : Option Signal
  dues : List Due

namespace View

variable (v : View) (now : Nat) (id : SignalId) (f : Signal → Signal × Commit)

/-- What is shown after a transition of the signal. -/
def step : View :=
  match v.signal with
  | none => v
  | some s => { signal := some (f s).1, dues := (f s).2.defer now v.dues }

/-- The transition of the signal does not reach past the last tick. -/
def Fits : Prop :=
  match v.signal with
  | none => True
  | some s => (f s).2.Fits now

/-- The change that a transition of the signal makes. -/
def change? : Option Change :=
  match v.signal with
  | none => none
  | some s =>
      match f s with
      | (s', .changed old _) =>
          some { time := now, signal := id, name := s'.name, old, new := s'.val }
      | _ => none

/-- The changes that a number of updates makes. -/
def updates : Nat → View → List Change
  | 0, _ => []
  | n + 1, v => (v.change? now id Signal.update).toList ++ updates n (v.step now Signal.update)

/-- What is shown after everything that is due at a tick has come. -/
def arrive (time : Nat) : Option Signal → List Due → View
  | signal, [] => ⟨signal, []⟩
  | signal, due :: dues =>
      if due.time = time then
        arrive time (signal.map fun s => (s.applyDeferred due.value due.stamp).1) dues
      else
        ⟨signal, due :: dues⟩

/-- The changes that are made by what is due at a tick. -/
def arrivals (time : Nat) : Option Signal → List Due → List Change
  | _, [] => []
  | signal, due :: dues =>
      if due.time = time then
        (change? ⟨signal, dues⟩ now id fun s => s.applyDeferred due.value due.stamp).toList ++
          arrivals time (signal.map fun s => (s.applyDeferred due.value due.stamp).1) dues
      else
        []

theorem arrive_of_later {time : Nat} {dues : List Due} (later : ∀ d ∈ dues, time < d.time)
    (signal : Option Signal) : arrive time signal dues = ⟨signal, dues⟩ := by
  cases dues with
  | nil => rfl
  | cons due dues => exact if_neg (Nat.ne_of_gt (later due List.mem_cons_self))

theorem arrivals_of_later {time : Nat} {dues : List Due} (later : ∀ d ∈ dues, time < d.time)
    (signal : Option Signal) : arrivals now id time signal dues = [] := by
  cases dues with
  | nil => rfl
  | cons due dues => exact if_neg (Nat.ne_of_gt (later due List.mem_cons_self))

theorem step_of_prompt (prompt : Signal.Prompt f) :
    v.step now f = ⟨v.signal.map fun s => (f s).1, v.dues⟩ := by
  obtain ⟨_ | s, dues⟩ := v
  · rfl
  · have prompt := prompt s
    simp only [step, Option.map_some]
    generalize (f s).2 = commit at prompt ⊢
    cases commit with
    | unchanged | changed => rfl
    | deferred delay value stamp => exact absurd rfl (prompt delay value stamp)

theorem fits_of_prompt (prompt : Signal.Prompt f) : v.Fits now f := by
  obtain ⟨_ | s, dues⟩ := v
  · trivial
  · have prompt := prompt s
    simp only [Fits]
    generalize (f s).2 = commit at prompt ⊢
    cases commit with
    | unchanged | changed => trivial
    | deferred delay value stamp => exact absurd rfl (prompt delay value stamp)

theorem signal_of_change? {c : Change} (changes : v.change? now id f = some c) : c.signal = id := by
  unfold change? at changes
  split at changes
  · cases changes
  · split at changes <;> cases changes
    rfl

theorem changesOf_change? (id' : SignalId) :
    changesOf id' (v.change? now id f).toList =
      if id = id' then (v.change? now id f).toList else [] := by
  cases changes : v.change? now id f with
  | none => split <;> rfl
  | some c =>
      have about := signal_of_change? v now id f changes
      rw [Option.toList_some, changesOf, List.filter_singleton, about]
      split <;> simp_all

end View

namespace Simulation

/-- What a simulation shows of its signals. -/
structure Shows (s : Simulation σ ω) (views : SignalId → View) : Prop where
  signals : ∀ id, (s.kernel.signal? id).map Signal.bare = (views id).signal
  dues : s.queue.Keeps fun id => (views id).dues

theorem report_of_unhooked {s : Simulation σ ω} (unhooked : s.hook = none) (id : SignalId)
    (old : Value) : s.report id old = (s, .ok ()) := by
  simp only [report, unhooked]

/-- What becomes due when a simulation takes in what was done to a signal. -/
theorem keeps_absorb {s : Simulation σ ω} (unhooked : s.hook = none) {table : Timetable}
    (keeps : s.queue.Keeps table) (id : SignalId) (commit : Commit) :
    (s.absorb id commit).1.queue.Keeps
        (Function.update table id (commit.defer s.kernel.now (table id))) ∧
      ((s.absorb id commit).2 = .ok () ↔ commit.Fits s.kernel.now) := by
  have stays : Function.update table id (table id) = table := Function.update_eq_self ..
  cases commit with
  | unchanged =>
      refine ⟨?_, iff_of_true rfl trivial⟩
      rw [show Commit.unchanged.defer s.kernel.now (table id) = table id from rfl, stays]
      exact keeps
  | changed old woken =>
      rw [show (Commit.changed old woken).defer s.kernel.now (table id) = table id from rfl, stays,
        absorb, report_of_unhooked]
      · exact ⟨keeps, iff_of_true rfl trivial⟩
      · exact unhooked
  | deferred delay value stamp =>
      by_cases inTime : s.kernel.now + delay ≤ lastTick
      · simp only [absorb, after, Commit.defer, if_pos inTime]
        exact ⟨keeps.push_apply _ id value stamp, iff_of_true trivial inTime⟩
      · simp only [absorb, after, Commit.defer, if_neg inTime, stays]
        exact ⟨keeps, iff_of_false (fun fine => by cases fine) inTime⟩

namespace Shows

variable {s : Simulation σ ω} {views : SignalId → View} (shows : s.Shows views)

include shows

/-- A transition of a signal is one of its view. -/
theorem step (unhooked : s.hook = none) {f : Signal → Signal × Commit} (blind : Signal.Blind f)
    (id : SignalId) :
    (s.step id f).1.Shows (Function.update views id ((views id).step s.kernel.now f)) ∧
      s.changeOf? id f = (views id).change? s.kernel.now id f ∧
      ((s.step id f).2 = .ok () ↔ (views id).Fits s.kernel.now f) := by
  have shown := shows.signals id
  cases found : s.kernel.signal? id with
  | none =>
      rw [found, Option.map_none] at shown
      have stepped : s.step id f = (s, .ok ()) := by simp only [Simulation.step, found]
      simp only [stepped, View.step, View.change?, View.Fits, changeOf?, ← shown, found,
        Function.update_eq_self]
      exact ⟨shows, trivial, trivial⟩
  | some signal =>
      rw [found, Option.map_some] at shown
      have turned := blind signal
      have stepped : s.step id f =
          absorb { s with kernel := s.kernel.modify id fun _ => (f signal).1 } id (f signal).2 := by
        simp only [Simulation.step, found]
      obtain ⟨keeps, fits⟩ := keeps_absorb
        (s := { s with kernel := s.kernel.modify id fun _ => (f signal).1 }) unhooked shows.dues id
        (f signal).2
      rw [← stepped] at keeps fits
      refine ⟨⟨fun id' => ?_, ?_⟩, ?_, ?_⟩
      · rw [kernel_step, Kernel.signal?_modify]
        by_cases here : id = id'
        · subst here
          simp only [if_pos, Function.update_self, View.step, ← shown, found, turned,
            Option.map_some]
        · rw [if_neg here, Function.update_of_ne (Ne.symm here)]
          exact shows.signals id'
      · refine cast (congrArg _ (funext fun id' => ?_)) keeps
        by_cases here : id' = id
        · subst here
          simp only [Function.update_self, View.step, ← shown, turned, Commit.defer_bare]
          rfl
        · rw [Function.update_of_ne here, Function.update_of_ne here]
      · simp only [changeOf?, View.change?, ← shown, found, turned]
        generalize f signal = result
        obtain ⟨signal', _ | _ | _⟩ := result <;> rfl
      · simp only [View.Fits, ← shown, turned, Commit.fits_bare]
        exact fits

/-- Update phases change what is shown of each signal, and commit changes of it, as often as the
signal is updated. -/
theorem updateAll (unhooked : s.hook = none) (failure : Except SimError Unit)
    (ids : List SignalId) :
    (s.updateAll failure ids).1.Shows
        (fun id => (View.step · s.kernel.now Signal.update)^[ids.count id] (views id)) ∧
      (∀ id, changesOf id (s.updates ids) =
        View.updates s.kernel.now id (ids.count id) (views id)) ∧
      ((s.updateAll failure ids).2 = .ok () ↔ failure = .ok () ∧ ∀ id, ∀ n < ids.count id,
        ((View.step · s.kernel.now Signal.update)^[n] (views id)).Fits s.kernel.now
          Signal.update) := by
  induction ids generalizing s failure views with
  | nil => exact ⟨shows, fun _ => rfl, (and_iff_left fun _ _ none => absurd none (by simp)).symm⟩
  | cons id rest ih =>
      obtain ⟨shows', changes, fits⟩ := shows.step unhooked Signal.blind_update id
      have unhooked' := (moved_step s id Signal.update).hook.trans unhooked
      obtain ⟨others, changes', fits'⟩ := ih shows' unhooked'
        (firstError failure (s.step id Signal.update).2)
      rw [now_step] at others changes' fits'
      rw [updateAll_cons, Simulation.updates]
      refine ⟨cast (congrArg _ (funext fun id' => ?_)) others, fun id' => ?_, ?_⟩
      · by_cases here : id' = id
        · subst here
          rw [Function.update_self, List.count_cons_self, Function.iterate_succ_apply]
        · rw [Function.update_of_ne here, List.count_cons_of_ne (Ne.symm here)]
      · rw [changesOf_append, changes', changes, View.changesOf_change?]
        by_cases here : id = id'
        · subst here
          rw [if_pos rfl, Function.update_self, List.count_cons_self, View.updates]
        · rw [if_neg here, Function.update_of_ne (Ne.symm here), List.count_cons_of_ne here,
            List.nil_append]
      · rw [fits', firstError_eq_ok, fits, and_assoc]
        refine and_congr_right fun _ => ⟨?_, fun all => ⟨?_, ?_⟩⟩
        · rintro ⟨first, later⟩ id' n lt
          by_cases here : id' = id
          · subst here
            cases n with
            | zero => exact first
            | succ n =>
                have later := later id' n (by simpa using lt)
                rw [Function.update_self] at later
                rwa [Function.iterate_succ_apply]
          · rw [List.count_cons_of_ne (Ne.symm here)] at lt
            have later := later id' n lt
            rwa [Function.update_of_ne here] at later
        · exact all id 0 (by simp)
        · intro id' n lt
          by_cases here : id' = id
          · subst here
            have later := all id' (n + 1) (by simpa using lt)
            rw [Function.iterate_succ_apply] at later
            rwa [Function.update_self]
          · rw [Function.update_of_ne here]
            exact all id' n (by rwa [List.count_cons_of_ne (Ne.symm here)])

/-- A commit phase updates each signal as often as it was marked. -/
theorem commitPending (unhooked : s.hook = none) :
    s.commitPending.1.Shows (fun id =>
        (View.step · s.kernel.now Signal.update)^[s.kernel.pending.count id] (views id)) ∧
      (∀ id, changesOf id s.commits =
        View.updates s.kernel.now id (s.kernel.pending.count id) (views id)) ∧
      (s.commitPending.2 = .ok () ↔ ∀ id, ∀ n < s.kernel.pending.count id,
        ((View.step · s.kernel.now Signal.update)^[n] (views id)).Fits s.kernel.now
          Signal.update) := by
  have unmarked : ({ s with kernel := { s.kernel with pending := [] } } : Simulation σ ω).Shows
      views := ⟨shows.signals, shows.dues⟩
  have updated := unmarked.updateAll unhooked (.ok ()) s.kernel.pending.reverse
  simp only [List.count_reverse, true_and] at updated
  exact updated

/-- A value that comes due is taken. -/
theorem take (unhooked : s.hook = none) {time : Nat} {id : SignalId} {value : Value} {stamp : Nat}
    {queue : EventQueue} (popped : s.queue.popDue time = some (.apply id value stamp, queue)) :
    ∃ dues s', (views id).dues = ⟨time, value, stamp⟩ :: dues ∧
      fire { s with queue } (.apply id value stamp) = (s', .ok ()) ∧
      s'.Shows (Function.update views id
        ⟨(views id).signal.map fun s => (s.applyDeferred value stamp).1, dues⟩) ∧
      s'.kernel.now = s.kernel.now ∧
      changeOfPayload? { s with queue } (.apply id value stamp) =
        View.change? ⟨(views id).signal, dues⟩ s.kernel.now id fun s =>
          s.applyDeferred value stamp := by
  obtain ⟨dues, due, keeps⟩ := shows.dues.pop_apply popped
  have taken : ({ s with queue } : Simulation σ ω).Shows
      (Function.update views id ⟨(views id).signal, dues⟩) := by
    refine ⟨fun id' => ?_, cast (congrArg _ (funext fun id' => ?_)) keeps⟩ <;>
      by_cases here : id' = id
    · subst here
      rw [Function.update_self]
      exact shows.signals id'
    · rw [Function.update_of_ne here]
      exact shows.signals id'
    · subst here
      rw [Function.update_self, Function.update_self]
    · rw [Function.update_of_ne here, Function.update_of_ne here]
  have prompt := Signal.prompt_applyDeferred value stamp
  obtain ⟨stepped, changes, fits⟩ :=
    taken.step unhooked (Signal.blind_applyDeferred value stamp) id
  rw [Function.update_self, View.step_of_prompt _ _ _ prompt, Function.update_idem] at stepped
  rw [Function.update_self] at changes fits
  exact ⟨dues, _, due, Prod.ext rfl (fits.mpr (View.fits_of_prompt _ _ _ prompt)), stepped,
    now_step { s with queue } id _, changes⟩

/-- Where nothing is due, everything stays as it is. -/
theorem still {time : Nat} (ahead : ∀ e ∈ s.queue.toList, time ≤ e.time)
    (idle : s.queue.popDue time = none) :
    s.Shows (fun id => View.arrive time (views id).signal (views id).dues) ∧
      ∀ id, [] = View.arrivals s.kernel.now id time (views id).signal (views id).dues := by
  have later (id : SignalId) : ∀ d ∈ (views id).dues, time < d.time := fun d listed =>
    shows.dues.lt_of_popDue ahead idle listed
  refine ⟨?_, fun id => (View.arrivals_of_later _ _ (later id) _).symm⟩
  simp only [View.arrive_of_later (later _)]
  exact shows

/-- To drain the queue is to take what is due for each signal. -/
theorem drainUpTo (unhooked : s.hook = none) {count time : Nat} (enough : s.queue.size ≤ count)
    (ahead : ∀ e ∈ s.queue.toList, time ≤ e.time) :
    (Simulation.drainUpTo count s time).2 = .ok () ∧
      (Simulation.drainUpTo count s time).1.Shows
        (fun id => View.arrive time (views id).signal (views id).dues) ∧
      (∀ id, changesOf id (s.arrivals count time) =
        View.arrivals s.kernel.now id time (views id).signal (views id).dues) ∧
      s.drained count time = s.arrivals count time := by
  induction count generalizing s views with
  | zero =>
      have idle := EventQueue.popDue_of_empty (Nat.le_zero.mp enough) time
      obtain ⟨stays, silent⟩ := shows.still ahead idle
      exact ⟨rfl, stays, silent, rfl⟩
  | succ count ih =>
      rw [Simulation.drainUpTo, Simulation.arrivals, Simulation.drained]
      cases popped : s.queue.popDue time with
      | none =>
          obtain ⟨stays, silent⟩ := shows.still ahead popped
          exact ⟨rfl, stays, silent, rfl⟩
      | some due =>
          obtain ⟨payload, queue⟩ := due
          obtain ⟨enough', ahead'⟩ := left_of_fire popped enough ahead
          have unhooked' := (moved_fire (s := s) queue payload).hook.trans unhooked
          cases payload with
          | wake a =>
              have taken :
                  ({ s with queue, ready := s.ready.push a } : Simulation σ ω).Shows views :=
                ⟨shows.signals, shows.dues.pop_wake popped⟩
              exact ih taken unhooked' enough' ahead'
          | apply id value stamp =>
              obtain ⟨dues, s', due, fired, taken, now, change⟩ := shows.take unhooked popped
              rw [fired] at enough' ahead' unhooked'
              obtain ⟨fine, others, changes, drains⟩ := ih taken unhooked' enough' ahead'
              dsimp only
              rw [fired, change]
              refine ⟨fine, cast (congrArg _ (funext fun id' => ?_)) others, fun id' => ?_,
                congrArg _ drains⟩
              · by_cases here : id' = id
                · subst here
                  rw [Function.update_self, due, View.arrive, if_pos rfl]
                · rw [Function.update_of_ne here]
              · rw [changesOf_append, changes, View.changesOf_change?, now]
                by_cases here : id = id'
                · subst here
                  rw [if_pos rfl, Function.update_self, due, View.arrivals, if_pos rfl]
                · rw [if_neg here, Function.update_of_ne (Ne.symm here), List.nil_append]

end Shows

end Simulation

end DeltaCycle
