import DeltaCycle.Proofs.LastWrite
import DeltaCycle.Proofs.Sessions

/-!
# Postings

What the waiters write and what the engine replies, in one log. A signal keeps the last value in the
log for it proposed, as it represents the value.
-/

set_option autoImplicit false

namespace DeltaCycle

variable {σ ω : Type}

/-- A value that was written to a signal. -/
inductive Posting where
  /-- By a waiter, as the signal represents the value. -/
  | written (signal : SignalId) (value : Value)
  /-- By the engine, as the value was received. -/
  | received (signal : SignalId) (value : Value)
deriving Repr, DecidableEq

namespace Posting

/-- The signal that the value is for. -/
def signal : Posting → SignalId
  | written id _ => id
  | received id _ => id

/-- What a signal makes of the value. -/
def Means (s : Signal) (value : Value) : Posting → Prop
  | written _ v => value = v
  | received _ v => s.kind.coerce v = .ok value

theorem Means.of_design {s s' : Signal} {value : Value} {p : Posting} (means : p.Means s value)
    (same : s'.design = s.design) : p.Means s' value := by
  have kind := Signal.kind_of_design same
  cases p with
  | written id v => exact means
  | received id v =>
      unfold Means
      rw [kind]
      exact means

/-- A posting stands for a write. -/
def Yields (k : Kernel) (p : Posting) (write : SignalId × Value) : Prop :=
  write.1 = p.signal ∧ ∀ s, k.signal? p.signal = some s → p.Means s write.2

theorem Yields.of_extends {k k' : Kernel} {p : Posting} {write : SignalId × Value}
    (yields : p.Yields k' write) (extends_ : k.Extends k') : p.Yields k write := by
  refine ⟨yields.1, ?_⟩
  intro s found
  obtain ⟨s', found', same⟩ := extends_ p.signal s found
  exact (yields.2 s' found').of_design same.symm

/-- The last posting for a signal. -/
def lastFor (id : SignalId) (log : List Posting) : Option Posting :=
  (log.filter fun p => p.signal == id).getLast?

theorem lastFor_append (id : SignalId) (first second : List Posting) :
    lastFor id (first ++ second) = (lastFor id second).or (lastFor id first) := by
  rw [lastFor, List.filter_append, List.getLast?_append]
  rfl

/-- A posting is the last for its signal unless a later one is for the same signal. -/
theorem later_or_last (before after : List Posting) (p : Posting) :
    (∃ later ∈ after, later.signal = p.signal) ∨ lastFor p.signal (before ++ p :: after) = some p := by
  by_cases overwritten : ∃ later ∈ after, later.signal = p.signal
  · exact .inl overwritten
  · right
    have others : (after.filter fun later => later.signal == p.signal) = [] := by
      refine List.filter_eq_nil_iff.mpr ?_
      intro later listed same
      exact overwritten ⟨later, listed, eq_of_beq same⟩
    simp only [lastFor, List.filter_append, List.filter_cons, BEq.rfl, if_true, others,
      List.getLast?_append, List.getLast?_singleton, Option.some_or]

/-- The last of the postings for a signal stands for the last write to it. -/
theorem last_cases {k : Kernel} {postings : List Posting} {writes : List (SignalId × Value)}
    (yield : List.Forall₂ (Yields k) postings writes) (id : SignalId) :
    lastFor id postings = none ∧ lastWritten id writes = none ∨
      ∃ p value, lastFor id postings = some p ∧ lastWritten id writes = some value ∧
        p.Yields k (id, value) := by
  induction yield with
  | nil => exact .inl ⟨rfl, rfl⟩
  | @cons p write postings writes first _ ih =>
      rw [← List.singleton_append, ← List.singleton_append (l := writes), lastFor_append,
        lastWritten_append]
      rcases ih with ⟨last, last'⟩ | ⟨q, value, last, last', yields⟩
      · rw [last, last']
        obtain ⟨here, value⟩ := write
        obtain ⟨same, means⟩ := first
        dsimp only at same means
        subst same
        by_cases about : p.signal = id
        · subst about
          refine .inr ⟨p, value, ?_, ?_, rfl, means⟩ <;> simp [lastFor, lastWritten]
        · left
          constructor <;> simp [lastFor, lastWritten, about]
      · right
        exact ⟨q, value, by rw [last]; rfl, by rw [last']; rfl, yields⟩

end Posting

/-- Every signal has the last value proposed that the log has for it. -/
def Kernel.Heeds (k : Kernel) (log : List Posting) : Prop :=
  ∀ id s, k.signal? id = some s → ∀ p, Posting.lastFor id log = some p → p.Means s s.next

theorem Kernel.Heeds.nothing (k : Kernel) : k.Heeds [] := fun _ _ _ _ last => nomatch last

open Desk in
/-- In a course, the log grows by postings for what is written. -/
theorem Kernel.Heeds.goes {d d' : Desk} {log postings : List Posting} {course : List Happening}
    (heeds : d.kernel.Heeds log) (goes : Goes d course d')
    (yield : List.Forall₂ (Posting.Yields d.kernel) postings (course.filterMap Happening.write?)) :
    d'.kernel.Heeds (log ++ postings) := by
  intro id s' found' p last
  obtain ⟨s, found, same⟩ := goes.extended id s' found'
  obtain ⟨s'', found'', -, next⟩ := goes.next found
  cases found'.symm.trans found''
  rw [Posting.lastFor_append] at last
  rcases Posting.last_cases yield id with ⟨none, none'⟩ | ⟨q, value, one, one', about, means⟩
  · rw [none, Option.none_or] at last
    rw [none', Option.getD_none] at next
    rw [next]
    exact (heeds id s found p last).of_design same.symm
  · rw [one, Option.some_or] at last
    cases last
    rw [one', Option.getD_some] at next
    rw [next]
    dsimp only at about
    subst about
    exact (means s found).of_design same.symm

namespace Simulation

/-! ## What is posted -/

/-- The values of the reply that is awaited, if any. -/
def reply (s : Simulation σ ω) : List (SignalId × Value) :=
  match s.openLink? with
  | none => []
  | some l =>
      if l.awaitingReply then
        match l.bridge.receive s.kernel.now s.world with
        | (_, .error _) => []
        | (_, .ok values) => values
      else
        []

/-- Postings for the values of a reply. -/
def postingsOf (values : List (SignalId × Value)) : List Posting :=
  values.map fun value => .received value.1 value.2

/-- What is posted in a cycle: by the waiters in the order of resumes, and then by the engine. -/
def cyclePostings (B : Behaviours σ ω) (fuel : Nat) (s : Simulation σ ω) : List Posting :=
  match s.rounded? B fuel with
  | none => []
  | some (s₁, failure) =>
      (s.commitPending.1.writes B fuel).map (fun write => .written write.1 write.2) ++
        if failure.isOk && s₁.kernel.stopRequest.isNone then postingsOf s₁.reply else []

/-- What is posted in a loop. -/
def loopPostings (B : Behaviours σ ω) : Nat → Simulation σ ω → Option Nat → List Posting
  | 0, _, _ => []
  | fuel + 1, s, cap =>
      s.cyclePostings B (fuel + 1) ++
        match s.cycle B (fuel + 1) cap with
        | .ok (s', .again) => loopPostings B fuel s' cap
        | _ => []

/-- What is posted in a run. -/
def runPostings (B : Behaviours σ ω) (fuel : Nat) (s : Simulation σ ω) (duration : Option Nat) :
    List Posting :=
  if s.hasEnded then
    []
  else
    match s.startHook with
    | (_, .error _) => []
    | (s, .ok _) => loopPostings B fuel s (s.capOf duration)

/-- What is posted in a call. -/
def answerPostings (B : Behaviours σ ω) (fuel : Nat) (s : Simulation σ ω) : Call → List Posting
  | .run duration => s.runPostings B fuel duration
  | .runToCompletion => { s with defaultDuration := none }.runPostings B fuel none

/-! ## Replies -/

theorem received_eq (s : Simulation σ ω) : s.received = s.kernel.takes s.reply := by
  unfold received reply
  cases s.openLink? with
  | none => rfl
  | some l =>
      dsimp only
      split
      · generalize l.bridge.receive s.kernel.now s.world = result
        obtain ⟨world, e | values⟩ := result <;> rfl
      · rfl

/-- A reply that is taken in is written, all of it. -/
theorem yield_of_takeIn {s : Simulation σ ω} {k : Kernel} {values : List (SignalId × Value)}
    {changed inbound : Bool} (extends_ : k.Extends s.kernel)
    (taken : (s.takeIn changed values).2 = .ok inbound) :
    List.Forall₂ (Posting.Yields k) (postingsOf values) (s.kernel.takes values) := by
  induction values generalizing s changed with
  | nil => exact .nil
  | cons value rest ih =>
      obtain ⟨id, value⟩ := value
      have goes := s.kernel.goes_setNext s.queue id value
      rw [takeIn] at taken
      rw [Kernel.takes]
      unfold Kernel.write Kernel.writes at *
      cases proposed : s.kernel.proposal id value false with
      | error e => simp [proposed] at taken
      | ok next =>
          simp only [proposed] at taken goes ⊢
          refine .cons ?_ (ih (extends_.trans goes.extends) taken)
          refine Posting.Yields.of_extends ⟨rfl, ?_⟩ extends_
          intro signal found
          have found : s.kernel.signal? id = some signal := found
          simp only [Kernel.proposal, Kernel.lookup, found] at proposed
          split at proposed
          · cases proposed
          · split at proposed
            · cases proposed
            · cases coerced : signal.kind.coerce value with
              | error e =>
                  rw [coerced] at proposed
                  cases proposed
              | ok v =>
                  rw [coerced] at proposed
                  cases proposed
                  exact coerced

theorem yield_of_exchange {s : Simulation σ ω} {k : Kernel} {sent : Bool}
    (extends_ : k.Extends s.kernel) (exchanged : s.exchange.2 = .ok sent) :
    List.Forall₂ (Posting.Yields k) (postingsOf s.reply) s.received := by
  rw [received_eq]
  unfold exchange at exchanged
  unfold reply
  cases linked : s.openLink? with
  | none => exact .nil
  | some l =>
      simp only [linked, readReply] at exchanged
      dsimp only
      split
      · next awaiting =>
          rw [if_pos awaiting] at exchanged
          dsimp only [changeLink] at exchanged
          generalize l.bridge.receive s.kernel.now s.world = result at exchanged ⊢
          obtain ⟨world, e | values⟩ := result
          · exact .nil
          · dsimp only at exchanged ⊢
            generalize taken : Simulation.takeIn _ false values = out at exchanged
            obtain ⟨s₁, e | inbound⟩ := out
            · cases exchanged
            · have all := fun extends_ => yield_of_takeIn (k := k) extends_ (congrArg Prod.snd taken)
              exact all extends_
      · exact .nil

/-- What waiters write is posted as it is. -/
theorem yield_written (k : Kernel) (writes : List (SignalId × Value)) :
    List.Forall₂ (Posting.Yields k) (writes.map fun write => .written write.1 write.2) writes := by
  induction writes with
  | nil => exact .nil
  | cons write rest ih => exact .cons ⟨rfl, fun _ _ => rfl⟩ ih

/-! ## Cycles -/

/-- A cycle went on within the tick, or came to rest: nobody failed or asked for the end. -/
def Verdict.Calm (verdict : Verdict) : Prop :=
  verdict = .again ∨ verdict = .ended (.ok .suspended) ∨
    verdict = .ended (.ok (.finished .noMoreEvents))

theorem Verdict.Calm.fine {verdict : Verdict} (calm : verdict.Calm) (e : SimError) :
    verdict ≠ .ended (.error e) := by
  rintro rfl
  rcases calm with calm | calm | calm <;> cases calm

variable {B : Behaviours σ ω}

/-- After a calm cycle, every signal has the last value proposed that was posted for it. -/
theorem heeds_cycle {s s' : Simulation σ ω} {log : List Posting} {fuel : Nat} {cap : Option Nat}
    {verdict : Verdict} (staffed : s.Staffed) (heeds : s.kernel.Heeds log)
    (turned : s.cycle B fuel cap = .ok (s', verdict)) (calm : verdict.Calm) :
    s'.kernel.Heeds (log ++ s.cyclePostings B fuel) := by
  have commits := s.does_commitPending
  have unwritten : List.filterMap Happening.write? (.collected ::
      happenings { s with kernel := { s.kernel with pending := [] } } s.kernel.pending.reverse) =
      [] := by
    rw [List.filterMap_cons, write?_happenings]
    rfl
  unfold cyclePostings
  cases way_of_cycle turned with
  | refused committed => exact absurd rfl (calm.fine _)
  | @proceeded m s₁ _ committed ran running went =>
      have round := rounded?_of_round committed ran
      rw [committed] at commits
      have waits := does_runReady (commits.staffed staffed) ran
      obtain ⟨writes, rest, arrivals, proceeds, received⟩ := s₁.does_proceed cap
      have exchanged : ∃ sent, s₁.exchange.2 = .ok sent := by
        have way := way_of_proceed s₁
        generalize s₁.settled? = settled at way
        cases way with
        | failed exchanged proceeds =>
            cases (proceeds cap).symm.trans went
            exact absurd rfl (calm.fine _)
        | entered exchanged proceeds => exact ⟨_, congrArg Prod.snd exchanged⟩
        | settled exchanged pending proceeds => exact ⟨_, congrArg Prod.snd exchanged⟩
      obtain ⟨sent, exchanged⟩ := exchanged
      rw [received sent exchanged, went] at proceeds
      -- Commits and arrivals write nothing: what the cycle wrote is what the waiters and the reply did.
      have course := commits.goes.trans (waits.goes.trans proceeds.goes)
      have replies := yield_of_exchange (commits.goes.trans waits.goes).extends exchanged
      have posted := List.rel_append (yield_written s.desk.kernel (m.writes B fuel)) replies
      refine heeds.goes course ?_
      rw [List.filterMap_append, unwritten, List.filterMap_append, write?_logOfWrites,
        List.filterMap_append, write?_logOfWrites, write?_of_arrivals arrivals, round, committed]
      simpa only [running, Except.isOk, Except.toBool, Option.isNone_none, Bool.and_self, if_true,
        List.nil_append, List.append_nil] using posted
  | @wrapped m s₁ failure _ committed ran stops ends =>
      have asked := asked_of_wrapUp s₁ failure
      rw [ends] at asked
      rcases asked with ⟨e, rfl⟩ | ⟨reason, rfl⟩
      · exact absurd rfl (calm.fine e)
      · rcases calm with calm | calm | calm <;> cases calm

end Simulation

end DeltaCycle
