import DeltaCycle.Proofs.WakeUps

/-!
# When clauses fire

A clause for the first of several clauses fires in the earliest of their rounds, and a clause for
all of them in the latest. The process that waits for a clause is resumed in the round in which the
clause fires.
-/

set_option autoImplicit false

namespace DeltaCycle

open Roster

variable {σ ω : Type} {B : Behaviours σ ω}

/-- A branch of a join is a child, or a waiter for a clause. -/
theorem Clause.branchBody_cases (clause : Clause σ) :
    (∃ child, clause = .spawn child) ∨ clause.branchBody = .branch (some clause) := by
  cases clause with
  | spawn child => exact .inl ⟨child, rfl⟩
  | _ => exact .inr rfl

theorem exists_getElem?_append {α : Type} (xs ys : List α) (P : Nat → α → Prop) :
    (∃ p a, (xs ++ ys)[p]? = some a ∧ P p a) ↔
      (∃ p a, xs[p]? = some a ∧ P p a) ∨ ∃ p a, ys[p]? = some a ∧ P (xs.length + p) a := by
  constructor
  · rintro ⟨p, a, found, holds⟩
    rw [List.getElem?_append] at found
    split at found
    · exact .inl ⟨p, a, found, holds⟩
    · refine .inr ⟨p - xs.length, a, found, ?_⟩
      rwa [Nat.add_sub_cancel' (by omega)]
  · rintro (⟨p, a, found, holds⟩ | ⟨p, a, found, holds⟩)
    · refine ⟨p, a, ?_, holds⟩
      rwa [List.getElem?_append_left (List.getElem?_eq_some_iff.mp found).1]
    · refine ⟨xs.length + p, a, ?_, holds⟩
      rwa [List.getElem?_append_right (Nat.le_add_right _ _), Nat.add_sub_cancel_left]

/-- The first number with a property, if there is any. -/
noncomputable def firstWith (P : Nat → Prop) : ℕ∞ := ⨅ (i : Nat) (_ : P i), (i : ℕ∞)

theorem firstWith_le_iff {P : Nat → Prop} {i : Nat} : firstWith P ≤ i ↔ ∃ m ≤ i, P m := by
  constructor
  · intro le
    by_contra none
    have later : ((i + 1 : Nat) : ℕ∞) ≤ firstWith P := by
      refine le_iInf₂ fun m holds => Nat.cast_le.mpr ?_
      by_contra early
      exact none ⟨m, by omega, holds⟩
    have absurd := Nat.cast_le.mp (later.trans le)
    omega
  · rintro ⟨m, le, holds⟩
    exact (iInf₂_le m holds).trans (Nat.cast_le.mpr le)

namespace Story

variable (story : Story σ)

mutual

/-- The round in which a clause fires that was armed in round `r`: one that stands by itself in the
first later round that fires it, one for a child in the round in which the child completes, one for
the first of several clauses in the earliest of their rounds, and one for all of them in the latest.
The places of its alternatives are counted from `place` on. A clause without arguments, which is
refused, does not fire. -/
noncomputable def firing (r : Nat) (me : Tag) (place : Nat) : Clause σ → ℕ∞
  | .event signal => firstWith fun i =>
      r < i ∧ ∃ change ∈ (story i).changes, (Trigger.event signal).firedBy change = true
  | .edge e => firstWith fun i =>
      r < i ∧ ∃ change ∈ (story i).changes, (Trigger.edge e).firedBy change = true
  | .delay ticks => firstWith fun i => r < i ∧ (story i).drained = some ((story r).now + ticks)
  | .noop => firstWith fun i => r < i ∧ (story i).drained = some (story r).now
  | .spawn _ => firstWith fun i => story.Completes i (Group.member ⟨me, place⟩ 0)
  | .any clauses => earliest r me place clauses
  | .join [] => ⊤
  | .join clauses => latest r ⟨me, place⟩ 0 clauses

/-- The earliest of the rounds in which clauses fire. -/
noncomputable def earliest (r : Nat) (me : Tag) (place : Nat) : List (Clause σ) → ℕ∞
  | [] => ⊤
  | clause :: rest =>
      min (firing r me place clause) (earliest r me (place + clause.alternatives.length) rest)

/-- The latest of the rounds in which clauses fire that are branches of a join. A child that is a
branch is made by the join, and any other clause has a waiter of its own. -/
noncomputable def latest (r : Nat) (group : Group) (index : Nat) : List (Clause σ) → ℕ∞
  | [] => 0
  | .spawn _ :: rest =>
      max (firstWith fun i => story.Completes i (group.member index))
        (latest r group (index + 1) rest)
  | clause :: rest =>
      max (firing r ⟨group.member index, 1⟩ 0 clause) (latest r group (index + 1) rest)

end

theorem latest_cons {r : Nat} {group : Group} {index : Nat} {clause : Clause σ}
    {rest : List (Clause σ)} (branch : clause.branchBody = .branch (some clause)) :
    story.latest r group index (clause :: rest) =
      max (story.firing r ⟨group.member index, 1⟩ 0 clause)
        (story.latest r group (index + 1) rest) := by
  cases clause with
  | spawn child => cases branch
  | event signal => rw [latest]; exact nofun
  | edge e => rw [latest]; exact nofun
  | delay ticks => rw [latest]; exact nofun
  | noop => rw [latest]; exact nofun
  | any clauses => rw [latest]; exact nofun
  | join clauses => rw [latest]; exact nofun

/-- The waiters of a join have all completed by round `i` exactly if the last of them has completed
in some round up to it. -/
theorem exists_last_iff {story : Story σ} {group : Group} {count : Nat} (some : 0 < count) (i : Nat) :
    (∃ m ≤ i, (∃ b < count, story.Completes m (group.member b)) ∧
        ∀ b < count, ∃ m' ≤ m, story.Completes m' (group.member b)) ↔
      ∀ b < count, ∃ m ≤ i, story.Completes m (group.member b) := by
  constructor
  · rintro ⟨m, le, -, all⟩ b lt
    obtain ⟨m', le', completes⟩ := all b lt
    exact ⟨m', le'.trans le, completes⟩
  · intro all
    induction i with
    | zero =>
        obtain ⟨m, le, completes⟩ := all 0 some
        obtain rfl := Nat.le_zero.mp le
        exact ⟨0, le, ⟨0, some, completes⟩, all⟩
    | succ i ih =>
        by_cases last : ∃ b < count, story.Completes (i + 1) (group.member b)
        · exact ⟨i + 1, Nat.le_refl _, last, all⟩
        · obtain ⟨m, le, rest⟩ := ih fun b lt => by
            obtain ⟨m, le, completes⟩ := all b lt
            rcases Nat.le_succ_iff.mp le with le | rfl
            · exact ⟨m, le, completes⟩
            · exact absurd ⟨b, lt, completes⟩ last
          exact ⟨m, Nat.le_succ_of_le le, rest⟩

end Story

namespace Explained

variable {story : Story σ} {i : Nat} {r : Roster σ} (h : Explained story i r)

include h

/-- Nobody takes a turn before it is made. -/
theorem made_before {m b : Nat} {turn : Turn σ} {group : Group}
    (listed : turn ∈ (story m).turns) (member : turn.tag.name = group.member b) :
    ∃ m' ≤ m, story.Makes m' group b := by
  generalize count : turn.tag.count = n
  induction n generalizing m turn with
  | zero =>
      refine ⟨m, Nat.le_refl m, h.first ⟨turn, listed, ?_⟩⟩
      rw [← member, ← count]
  | succ n ih =>
      rcases h.explained ⟨turn, listed, rfl⟩ with first | ⟨j, le, alternatives, waits, -⟩
      · exact absurd first (by omega)
      · obtain ⟨before, listed', next, -⟩ := waits
        have names := congrArg Tag.name next
        have counts := congrArg Tag.count next
        simp only [Tag.next] at names counts
        obtain ⟨m', le', makes⟩ := ih listed' (names.trans member) (by omega)
        exact ⟨m', le'.trans le, makes⟩

/-- Whoever an arming made completes in the round of the arming or later. -/
theorem le_of_completes {j m p b : Nat} {tag : Tag} {alternatives : List (Alternative σ)}
    (waits : story.Waits j tag alternatives)
    (completes : story.Completes m (Group.member ⟨tag, p⟩ b)) : j ≤ m := by
  obtain ⟨turn, listed, named, -⟩ := completes
  obtain ⟨m', le, caller, listed', next, -⟩ := h.made_before listed named
  obtain ⟨rfl, -⟩ := h.waits_once waits listed' next
  exact le

theorem le_of_comesAbout {j m p : Nat} {tag : Tag} {alternatives : List (Alternative σ)}
    {a : Alternative σ} (waits : story.Waits j tag alternatives)
    (about : story.ComesAbout j m ⟨tag, p⟩ a) : j ≤ m := by
  cases a with
  | trigger t => exact Nat.le_of_lt about.1
  | delay ticks => exact Nat.le_of_lt about.1
  | noop => exact Nat.le_of_lt about.1
  | spawn child => exact h.le_of_completes waits about
  | join clauses =>
      obtain ⟨⟨b, -, completes⟩, -⟩ := about
      exact h.le_of_completes waits completes
  | refused e => exact about.elim

/-- An arming is resumed by some round exactly if something that it waits for has come about. -/
theorem resumed_by_iff (quiet : r.Quiet) (ends : ∀ m, i < m → story m = {}) {j m : Nat} {tag : Tag}
    {alternatives : List (Alternative σ)} (waits : story.Waits j tag alternatives) :
    (∃ m' ≤ m, story.Resumed m' tag) ↔
      ∃ p a, alternatives[p]? = some a ∧ ∃ m' ≤ m, story.ComesAbout j m' ⟨tag, p⟩ a := by
  have again {j' : Nat} {alternatives' : List (Alternative σ)}
      (waits' : story.Waits j' tag alternatives') : j' = j ∧ alternatives' = alternatives := by
    obtain ⟨turn, listed, next, body', deed'⟩ := waits'
    obtain ⟨rfl, body, deed⟩ := h.waits_once waits listed next
    rw [deed] at deed'
    cases deed'
    exact ⟨rfl, rfl⟩
  obtain ⟨turn, listed, rfl, body, deed⟩ := waits
  have waits : story.Waits j turn.tag.next alternatives := ⟨turn, listed, rfl, body, deed⟩
  constructor
  · rintro ⟨m', le, resumed⟩
    obtain ⟨j', -, alternatives', waits', -, p, a, found, about⟩ :=
      (h.resumed_next_iff quiet ends m' turn.tag).mp resumed
    obtain ⟨rfl, rfl⟩ := again waits'
    exact ⟨p, a, found, m', le, about⟩
  · rintro ⟨p, a, found, m', le, about⟩
    by_contra unused
    refine unused ⟨m', le, (h.resumed_next_iff quiet ends m' turn.tag).mpr
      ⟨j, h.le_of_comesAbout waits about, alternatives, waits, fun m'' _ earlier resumed => ?_, p, a,
        found, about⟩⟩
    exact unused ⟨m'', (Nat.le_of_lt earlier).trans le, resumed⟩

/-! ## Branches of joins -/

section Branches

variable (quiet : r.Quiet) (ends : ∀ m, i < m → story m = {})
  (fine : ∀ m, ∀ turn ∈ (story m).turns, turn.deed.isFailure = false)

include fine

/-- The waiter for a branch of a join completes when it is resumed for the branch. -/
theorem completes_branch_iff {j m p b : Nat} {turn : Turn σ} {clause : Clause σ}
    (listed : turn ∈ (story j).turns)
    (made : Alternative.bodyAt turn.deed.alternatives p b = some (.branch (some clause))) :
    story.Completes m (Group.member ⟨turn.tag.next, p⟩ b) ↔
      story.Resumed m ⟨Group.member ⟨turn.tag.next, p⟩ b, 1⟩ := by
  have helps := h.helps listed made
  constructor
  · rintro ⟨last, listed', name, deed⟩
    rcases helps.turned listed' name with ⟨-, failed | waiting⟩ | ⟨count, -⟩
    · rw [fine m last listed'] at failed
      cases failed
    · cases deed.symm.trans waiting
    · refine ⟨last, listed', ?_⟩
      rw [← name, ← count]
  · rintro ⟨last, listed', named⟩
    have name := congrArg Tag.name named
    have count := congrArg Tag.count named
    dsimp only at name count
    rcases helps.turned listed' name with ⟨first, -⟩ | ⟨-, deed⟩
    · omega
    · exact ⟨last, listed', name, deed⟩

include quiet

/-- The waiter for a branch of a join is armed on the branch in the round in which it is made. -/
theorem waits_branch {j p b : Nat} {turn : Turn σ} {clause : Clause σ}
    (listed : turn ∈ (story j).turns)
    (made : Alternative.bodyAt turn.deed.alternatives p b = some (.branch (some clause))) :
    story.Waits j ⟨Group.member ⟨turn.tag.next, p⟩ b, 1⟩ clause.alternatives := by
  have makes : story.Makes j ⟨turn.tag.next, p⟩ b := ⟨turn, listed, rfl, by rw [made]; rfl⟩
  obtain ⟨first, listed', named⟩ := (h.resumed_member_iff quiet j _ b).mpr makes
  have name := congrArg Tag.name named
  have count := congrArg Tag.count named
  dsimp only at name count
  rcases (h.helps listed made).turned listed' name with ⟨-, failed | waiting⟩ | ⟨second, -⟩
  · rw [fine j first listed'] at failed
    cases failed
  · refine ⟨first, listed', ?_, .branch none, waiting⟩
    rw [Tag.next, name, count]
  · omega

include ends

set_option linter.unusedSectionVars false in
mutual

/-- A clause has fired by a round exactly if one of its alternatives has come about. -/
theorem firing_le_iff (clause : Clause σ) {j : Nat} (place : Nat) {me : Tag}
    {alternatives : List (Alternative σ)} (waits : story.Waits j me alternatives)
    (listed : ∀ p a, clause.alternatives[p]? = some a → alternatives[place + p]? = some a)
    (m : Nat) :
    story.firing j me place clause ≤ m ↔
      ∃ p a, clause.alternatives[p]? = some a ∧
        ∃ m' ≤ m, story.ComesAbout j m' ⟨me, place + p⟩ a := by
  have single {a : Alternative σ} (alone : clause.alternatives = [a]) :
      (∃ p a, clause.alternatives[p]? = some a ∧
          ∃ m' ≤ m, story.ComesAbout j m' ⟨me, place + p⟩ a) ↔
        ∃ m' ≤ m, story.ComesAbout j m' ⟨me, place⟩ a := by
    rw [alone]
    constructor
    · rintro ⟨p, a', found, about⟩
      rw [List.getElem?_singleton] at found
      split at found
      · next zero =>
          cases zero
          cases found
          exact about
      · cases found
    · intro about
      exact ⟨0, a, rfl, about⟩
  cases clause with
  | event signal =>
      rw [single rfl, Story.firing, firstWith_le_iff]
      rfl
  | edge e =>
      rw [single rfl, Story.firing, firstWith_le_iff]
      rfl
  | delay ticks =>
      rw [single rfl, Story.firing, firstWith_le_iff]
      rfl
  | noop =>
      rw [single rfl, Story.firing, firstWith_le_iff]
      rfl
  | spawn child =>
      rw [single rfl, Story.firing, firstWith_le_iff]
      rfl
  | any clauses =>
      cases clauses with
      | nil =>
          rw [single rfl, Story.firing, Story.earliest, top_le_iff]
          simp [Story.ComesAbout]
      | cons clause rest =>
          rw [Story.firing]
          exact earliest_le_iff (clause :: rest) place waits listed m
  | join clauses =>
      cases clauses with
      | nil =>
          rw [single rfl, Story.firing, top_le_iff]
          simp [Story.ComesAbout]
      | cons clause rest =>
          obtain ⟨turn, taken, rfl, body, deed⟩ := waits
          rw [single rfl, Story.firing]
          refine (latest_le_iff (clause :: rest) 0 taken (fun b branch found => ?_) m).trans ?_
          · have here := listed 0 (.join (clause :: rest)) rfl
            rw [Nat.add_zero] at here
            rw [deed, Deed.alternatives, Alternative.bodyAt, here, Option.bind_some,
              Alternative.bodies, List.getElem?_map, Nat.zero_add, found, Option.map_some]
          · simp only [Nat.zero_add]
            exact (Story.exists_last_iff (Nat.succ_pos _) m).symm
          · exact List.cons_ne_nil clause rest

theorem earliest_le_iff (clauses : List (Clause σ)) {j : Nat} (place : Nat) {me : Tag}
    {alternatives : List (Alternative σ)} (waits : story.Waits j me alternatives)
    (listed : ∀ p a, (Clause.alternativesOfAll clauses)[p]? = some a →
      alternatives[place + p]? = some a) (m : Nat) :
    story.earliest j me place clauses ≤ m ↔
      ∃ p a, (Clause.alternativesOfAll clauses)[p]? = some a ∧
        ∃ m' ≤ m, story.ComesAbout j m' ⟨me, place + p⟩ a := by
  cases clauses with
  | nil =>
      rw [Story.earliest, top_le_iff]
      simp [Clause.alternativesOfAll]
  | cons clause rest =>
      rw [Clause.alternativesOfAll] at listed
      have first := firing_le_iff clause place waits (fun p a found => listed p a (by
        rw [List.getElem?_append_left (List.getElem?_eq_some_iff.mp found).1]
        exact found)) m
      have others := earliest_le_iff rest (place + clause.alternatives.length) waits
        (fun p a found => by
          rw [Nat.add_assoc]
          refine listed _ a ?_
          rw [List.getElem?_append_right (Nat.le_add_right _ _), Nat.add_sub_cancel_left]
          exact found) m
      rw [Story.earliest, min_le_iff, first, others, Clause.alternativesOfAll]
      simp only [Nat.add_assoc]
      exact (exists_getElem?_append clause.alternatives (Clause.alternativesOfAll rest)
        fun p a => ∃ m' ≤ m, story.ComesAbout j m' ⟨me, place + p⟩ a).symm

theorem latest_le_iff (clauses : List (Clause σ)) {j place : Nat} (index : Nat) {turn : Turn σ}
    (taken : turn ∈ (story j).turns)
    (made : ∀ b clause, clauses[b]? = some clause →
      Alternative.bodyAt turn.deed.alternatives place (index + b) = some clause.branchBody)
    (m : Nat) :
    story.latest j ⟨turn.tag.next, place⟩ index clauses ≤ m ↔
      ∀ b < clauses.length,
        ∃ m' ≤ m, story.Completes m' (Group.member ⟨turn.tag.next, place⟩ (index + b)) := by
  cases clauses with
  | nil => simp [Story.latest]
  | cons clause rest =>
      have others := latest_le_iff rest (index + 1) taken (fun b branch found => by
        rw [Nat.add_assoc, Nat.add_comm 1 b]
        exact made (b + 1) branch found) m
      rw [List.length_cons, Nat.forall_lt_succ_left]
      simp only [Nat.add_assoc, Nat.add_comm 1] at others
      have own := made 0 clause rfl
      rw [Nat.add_zero] at own
      rcases clause.branchBody_cases with ⟨child, rfl⟩ | branch
      · rw [Story.latest, max_le_iff, firstWith_le_iff, others]
        rfl
      · rw [branch] at own
        have waits := h.waits_branch quiet fine taken own
        have fires := firing_le_iff clause 0 waits
          (fun p a found => by rwa [Nat.zero_add]) m
        have resumes := h.resumed_by_iff quiet ends (m := m) waits
        rw [story.latest_cons branch, max_le_iff, others]
        simp only [Nat.zero_add] at fires
        simp only [h.completes_branch_iff fine taken own, Nat.add_zero]
        rw [fires, ← resumes]

end

/-- A waiter that was armed on a clause is resumed for it in the round in which the clause fires. -/
theorem resumed_iff_firing {clause : Clause σ} {j : Nat} {tag : Tag}
    (waits : story.Waits j tag clause.alternatives) (m : Nat) :
    story.Resumed m tag ↔ story.firing j tag 0 clause = m := by
  have by_iff (m : Nat) : story.firing j tag 0 clause ≤ m ↔ ∃ m' ≤ m, story.Resumed m' tag := by
    rw [h.firing_le_iff quiet ends fine clause 0 waits (fun p a found => by rwa [Nat.zero_add]) m,
      h.resumed_by_iff quiet ends waits]
    simp only [Nat.zero_add]
  constructor
  · intro resumed
    refine le_antisymm ((by_iff m).mpr ⟨m, Nat.le_refl m, resumed⟩) (le_of_not_gt fun early => ?_)
    obtain ⟨n, fires⟩ := ENat.ne_top_iff_exists.mp early.ne_top
    rw [← fires] at early
    obtain ⟨m', le, resumed'⟩ := (by_iff n).mp fires.ge
    have late := Nat.cast_lt.mp early
    obtain rfl := h.resumed_once resumed' resumed
    omega
  · intro fires
    obtain ⟨m', le, resumed⟩ := (by_iff m).mp fires.le
    have reached := (by_iff m').mpr ⟨m', Nat.le_refl m', resumed⟩
    rw [fires] at reached
    obtain rfl := Nat.le_antisymm le (Nat.cast_le.mp reached)
    exact resumed

end Branches

end Explained

namespace Simulation

/-- Clauses compose as first-of and all-of. A process that was armed on a clause is resumed for it
in the round in which the clause fires and in no other, and in that round once. So it is never
resumed for a clause that does not fire, nor later for branches of a join that was abandoned. -/
theorem resumed_exactly_when_the_clause_fires {rounds : List (Round σ)} {ledger : List Tag}
    {s : Simulation σ ω} (history : History B rounds ledger s (.ok ())) {j : Nat} {turn : Turn σ}
    (taken : turn ∈ (Story.ofList rounds j).turns) {body : Body σ} {clause : Clause σ}
    (yielded : turn.deed = .waiting body clause.alternatives) (i : Nat) :
    ((Story.ofList rounds i).turns.map Turn.tag).count turn.tag.next =
      if (Story.ofList rounds).firing j turn.tag.next 0 clause = i then 1 else 0 := by
  obtain ⟨r, explained, quiet, ends, -⟩ := history.explained
  obtain ⟨-, -, -, -, -, clean⟩ := history.replays
  have fine (m : Nat) (t : Turn σ) (listed : t ∈ (Story.ofList rounds m).turns) :
      t.deed.isFailure = false := by
    obtain ⟨round, played, listed⟩ := Story.exists_of_mem_turns_ofList listed
    exact clean.mp rfl round played t listed
  have fires := explained.resumed_iff_firing quiet ends fine ⟨turn, taken, rfl, body, yielded⟩ i
  split
  · next fired =>
      refine List.count_eq_one_of_mem (explained.nodup i) ?_
      obtain ⟨t, listed, named⟩ := fires.mpr fired
      exact List.mem_map.mpr ⟨t, listed, named⟩
  · next silent =>
      refine List.count_eq_zero_of_not_mem fun listed => silent (fires.mp ?_)
      obtain ⟨t, listed, named⟩ := List.mem_map.mp listed
      exact ⟨t, listed, named⟩

/-- Whether a waiter is armed on the clause for which the process waits. -/
def awaitsJoin : Deed Nat → Bool
  | .waiting _ [.delay 5, .join [.delay 1, .spawn 1]] => true
  | _ => false

/-- The join fires with its last branch, before the delay, and the delay resumes nobody later. -/
theorem nursery_is_resumed_by_its_join :
    ∃ ledger, ∃ s : Simulation Nat Unit, History nursery nurseryRounds ledger s (.ok ()) ∧
      ((Story.ofList nurseryRounds 2).turns.map Turn.tag).count ⟨.root 0, 1⟩ = 1 ∧
      (Story.ofList nurseryRounds).firing 0 ⟨.root 0, 1⟩ 0
        (.any [.delay 5, .join [.delay 1, .spawn 1]]) = 2 := by
  obtain ⟨ledger, s, history⟩ := history_nurseryRounds
  obtain ⟨turn, taken, tag, awaits⟩ : ∃ turn ∈ (Story.ofList nurseryRounds 0).turns,
      turn.tag = ⟨.root 0, 0⟩ ∧ awaitsJoin turn.deed = true := by decide +kernel
  obtain ⟨body, deed⟩ : ∃ body, turn.deed =
      .waiting body (Clause.alternatives (.any [.delay 5, .join [.delay 1, .spawn 1]])) := by
    unfold awaitsJoin at awaits
    split at awaits
    · next body waiting => exact ⟨body, waiting⟩
    · cases awaits
  have resumed := resumed_exactly_when_the_clause_fires history taken deed 2
  rw [tag] at resumed
  have once : ((Story.ofList nurseryRounds 2).turns.map Turn.tag).count ⟨.root 0, 1⟩ = 1 := by
    decide +kernel
  refine ⟨ledger, s, history, once, ?_⟩
  by_contra silent
  exact Nat.one_ne_zero (once.symm.trans (resumed.trans (if_neg silent)))

end Simulation

end DeltaCycle
