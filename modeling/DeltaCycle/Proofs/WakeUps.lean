import DeltaCycle.Proofs.History

/-!
# Wake-ups

What a history tells about resumes: every resume is a turn of the history, each arming is resumed
at most once, and a waiter is resumed in a round exactly if something that it waits for came about
in that round.
-/

set_option autoImplicit false

namespace DeltaCycle

open Roster

variable {σ ω : Type} {B : Behaviours σ ω}

namespace Explained

variable {story : Story σ} {i : Nat} {r : Roster σ} (h : Explained story i r)

include h

theorem resumed_once {m m' : Nat} {tag : Tag} (resumed : story.Resumed m tag)
    (resumed' : story.Resumed m' tag) : m = m' := by
  obtain ⟨turn, listed, named⟩ := resumed
  obtain ⟨turn', listed', named'⟩ := resumed'
  exact (h.once listed listed' (named.trans named'.symm)).1

/-- Whoever is made is run in the same round. -/
theorem resumed_member_iff (quiet : r.Quiet) (m : Nat) (group : Group) (b : Nat) :
    story.Resumed m ⟨group.member b, 0⟩ ↔ story.Makes m group b := by
  refine ⟨h.first, fun makes => ?_⟩
  rcases h.born makes with resumed | ⟨-, current⟩
  · exact resumed
  · have fired := h.newborn current
    rw [quiet _ current] at fired
    cases fired

/-- A waiter that has run is resumed exactly when something that it waits for comes about. -/
theorem resumed_next_iff (quiet : r.Quiet) (ends : ∀ m, i < m → story m = {}) (m : Nat) (tag : Tag) :
    story.Resumed m tag.next ↔
      ∃ j ≤ m, ∃ alternatives, story.Waits j tag.next alternatives ∧
        (∀ m', j ≤ m' → m' < m → ¬story.Resumed m' tag.next) ∧
          ∃ p a, alternatives[p]? = some a ∧ story.ComesAbout j m ⟨tag.next, p⟩ a := by
  simp only [Story.comesAbout_iff]
  constructor
  · intro resumed
    rcases h.explained resumed with first | ⟨j, le, alternatives, waits, p, a, listed, reason⟩
    · exact absurd first (Nat.succ_ne_zero tag.count)
    · refine ⟨j, le, alternatives, waits, fun m' _ earlier resumed' => ?_, p, a, listed, reason⟩
      exact absurd (h.resumed_once resumed' resumed) (Nat.ne_of_lt earlier)
  · rintro ⟨j, le, alternatives, waits, unused, p, a, listed, reason⟩
    have within : m ≤ i := by
      by_contra beyond
      have blank := ends m (Nat.lt_of_not_le beyond)
      rcases reason with ⟨-, ⟨t, -, change, changes, -⟩ | ⟨time, -, drained⟩⟩ |
        ⟨⟨b, -, t, turns, -⟩, -⟩
      · rw [blank] at changes
        cases changes
      · rw [blank] at drained
        cases drained
      · rw [blank] at turns
        cases turns
    obtain ⟨m', le', resumed⟩ := h.settled_quiet quiet within waits listed le reason
    rcases h.explained resumed with first | ⟨j', before, alternatives', waits', -⟩
    · exact absurd first (Nat.succ_ne_zero tag.count)
    · obtain ⟨turn, here, next, -⟩ := waits'
      obtain ⟨rfl, -⟩ := h.waits_once waits here next
      rcases Nat.lt_or_eq_of_le le' with earlier | rfl
      · exact absurd resumed (unused m' before earlier)
      · exact resumed

end Explained

namespace Simulation

/-- A history is explained by the story that it tells. -/
theorem History.explained {rounds : List (Round σ)} {ledger : List Tag} {s : Simulation σ ω}
    {failure : Except SimError Unit} (history : History B rounds ledger s failure) :
    ∃ r : Roster σ, Explained (Story.ofList rounds) (rounds.length - 1) r ∧ r.Quiet ∧
      (∀ m, rounds.length - 1 < m → Story.ofList rounds m = {}) ∧
        Follows ledger (rounds.flatMap Round.turns).length s r := by
  obtain ⟨r₀, r, begins, replays, follows, -⟩ := history.replays
  rcases replays.explained begins with ⟨nil, -⟩ | ⟨explained, quiet, -⟩
  · cases history <;> simp at nil
  · refine ⟨r, explained, quiet, fun m beyond => ?_, follows⟩
    rw [Story.ofList, List.getD_eq_getElem?_getD, List.getElem?_eq_none (by omega)]
    rfl

/-- No wake-up is lost, doubled or invented. Every resume is a turn of the history, and each arming
is resumed at most once. The first run of a waiter that a clause made is in the round in which it
was made. In any other case, a waiter is resumed in a round exactly if it was armed before, was not
resumed since, and an alternative that it waits for comes about in the round. -/
theorem no_wake_up_is_lost_doubled_or_invented {rounds : List (Round σ)} {ledger : List Tag}
    {s : Simulation σ ω} {failure : Except SimError Unit}
    (history : History B rounds ledger s failure) :
    s.stats.resumes = (rounds.flatMap Round.turns).length ∧
    (∀ i, ((Story.ofList rounds i).turns.map Turn.tag).Nodup) ∧
    (∀ i i' tag, (Story.ofList rounds).Resumed i tag → (Story.ofList rounds).Resumed i' tag →
      i = i') ∧
    (∀ i (group : Group) b, (Story.ofList rounds).Resumed i ⟨group.member b, 0⟩ ↔
      (Story.ofList rounds).Makes i group b) ∧
    ∀ i (tag : Tag), (Story.ofList rounds).Resumed i tag.next ↔
      ∃ j ≤ i, ∃ alternatives, (Story.ofList rounds).Waits j tag.next alternatives ∧
        (∀ m, j ≤ m → m < i → ¬(Story.ofList rounds).Resumed m tag.next) ∧
          ∃ p a, alternatives[p]? = some a ∧
            (Story.ofList rounds).ComesAbout j i ⟨tag.next, p⟩ a := by
  obtain ⟨r, explained, quiet, ends, follows⟩ := history.explained
  exact ⟨follows.counted, explained.nodup, fun i i' tag => explained.resumed_once,
    explained.resumed_member_iff quiet, explained.resumed_next_iff quiet ends⟩

/-- A process that waits five ticks, or both one tick and for its child, which waits two ticks. -/
def nursery : Behaviours Nat Unit where
  name _ := "nursery"
  resume
    | 0 => .done .done
    | 1 => .done (.wait 0 (.delay 2))
    | _ => .done (.wait 0 (.any [.delay 5, .join [.delay 1, .spawn 1]]))
  react state := .done state

/-- A simulation of the process. -/
def nurseryStart : Simulation Nat Unit :=
  ({ kernel := {}, world := () } : Simulation Nat Unit).addWaiter "nursery" (.process 2) none

/-- The rounds of a run of the simulation. -/
def nurseryRounds : List (Round Nat) :=
  roundsOf nursery 9 nurseryStart.rootTags (none, []) nurseryStart none

theorem history_nurseryRounds :
    ∃ ledger, ∃ s : Simulation Nat Unit, History nursery nurseryRounds ledger s (.ok ()) := by
  have built : build nursery {} [.process 2] () = .ok nurseryStart := rfl
  have played : nurseryRounds ≠ [] := List.ne_nil_of_length_pos (by decide +kernel)
  obtain ⟨ledger, s, failure, history⟩ :=
    history_of_loop built Kernel.idle_empty (.refl _) 9 none played
  obtain ⟨-, -, -, -, -, clean⟩ := history.replays
  obtain rfl : failure = .ok () := clean.mpr (show ∀ round ∈ nurseryRounds, _ by decide +kernel)
  exact ⟨ledger, s, history⟩

/-- The child wakes its parent, whose longer delay comes due later and resumes nobody. -/
theorem resumes_of_nursery :
    ∃ ledger, ∃ s : Simulation Nat Unit, History nursery nurseryRounds ledger s (.ok ()) ∧
      s.stats.resumes = 6 ∧ ∀ i, (Story.ofList nurseryRounds).Resumed i ⟨.root 0, 1⟩ → i = 2 := by
  obtain ⟨ledger, s, history⟩ := history_nurseryRounds
  obtain ⟨counted, -, once, -⟩ := no_wake_up_is_lost_doubled_or_invented history
  refine ⟨ledger, s, history, ?_, fun i resumed => ?_⟩
  · rw [counted]
    decide +kernel
  · refine once i 2 _ resumed ?_
    rw [Story.Resumed]
    decide +kernel

end Simulation

end DeltaCycle
