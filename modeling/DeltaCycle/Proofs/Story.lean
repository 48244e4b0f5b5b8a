import DeltaCycle.Proofs.Rounds

/-!
# Stories

A story is a sequence of rounds. It tells when a waiter was armed on what, when what it waits for
came about, and when it was resumed. The roster keeps, for each arming that is not used up, what
the story so far says about it; so a waiter is resumed in a round exactly if something that it
waits for came about in that round.
-/

set_option autoImplicit false

namespace DeltaCycle

open Roster

variable {σ : Type}

/-- The rounds by their numbers. -/
abbrev Story (σ : Type) := Nat → Round σ

namespace Story

/-- A waiter was resumed under an arming in a round. -/
def Resumed (story : Story σ) (i : Nat) (tag : Tag) : Prop :=
  ∃ turn ∈ (story i).turns, turn.tag = tag

/-- A waiter took a turn in a round and was armed on alternatives. -/
def Waits (story : Story σ) (i : Nat) (tag : Tag) (alternatives : List (Alternative σ)) : Prop :=
  ∃ turn ∈ (story i).turns, turn.tag.next = tag ∧ ∃ body, turn.deed = .waiting body alternatives

/-- A member of a group was made by a turn in a round. -/
def Makes (story : Story σ) (i : Nat) (group : Group) (b : Nat) : Prop :=
  ∃ turn ∈ (story i).turns, turn.tag.next = group.caller ∧
    (Alternative.bodyAt turn.deed.alternatives group.place b).isSome = true

/-- A waiter completed in a round. -/
def Completes (story : Story σ) (i : Nat) (name : Name) : Prop :=
  ∃ turn ∈ (story i).turns, turn.tag.name = name ∧ turn.deed = .completed

/-- The alternative for which the group stands was armed in round `j` and comes about in round
`i`: the signal changes in the way that is waited for, or the entry of the queue is taken, on the
way to the round or in its commit phase; or a waiter of the group completes in the round, with
which none is left. -/
def ComesAbout (story : Story σ) (j i : Nat) (group : Group) : Alternative σ → Prop
  | .trigger t => j < i ∧ ∃ change ∈ (story i).changes, t.firedBy change = true
  | .delay ticks => j < i ∧ (story i).drained = some ((story j).now + ticks)
  | .noop => j < i ∧ (story i).drained = some (story j).now
  | .spawn _ => story.Completes i (group.member 0)
  | .join clauses =>
      (∃ b < clauses.length, story.Completes i (group.member b)) ∧
        ∀ b < clauses.length, ∃ m ≤ i, story.Completes m (group.member b)
  | .refused _ => False

/-- The waiters that an alternative makes complete, the last of them in round `i`. -/
def Settles (story : Story σ) (i : Nat) (group : Group) (alternative : Alternative σ) : Prop :=
  (∃ b < alternative.bodies.length, story.Completes i (group.member b)) ∧
    ∀ b < alternative.bodies.length, ∃ m ≤ i, story.Completes m (group.member b)

/-- A further turn in a round. -/
def extend (story : Story σ) (i : Nat) (turn : Turn σ) : Story σ :=
  Function.update story i { story i with turns := (story i).turns ++ [turn] }

/-- The first rounds of a story that are known. -/
def ofList (rounds : List (Round σ)) : Story σ := fun i => rounds.getD i {}

/-- A round begins. -/
def begin (story : Story σ) (i : Nat) (round : Round σ) : Story σ :=
  Function.update story i { round with turns := [] }

variable (story : Story σ) {i j m : Nat} {turn : Turn σ} {group : Group}
  {alternative : Alternative σ}

/-- The alternative was armed in round `j`, and is fired on the way to round `i` or in its commit
phase. -/
def Fires (story : Story σ) (j i : Nat) (alternative : Alternative σ) : Prop :=
  j < i ∧
    ((∃ t, alternative.trigger? = some t ∧ ∃ change ∈ (story i).changes, t.firedBy change = true) ∨
      ∃ time, alternative.due? (story j).now = some time ∧ (story i).drained = some time)

theorem comesAbout_iff :
    story.ComesAbout j i group alternative ↔
      story.Fires j i alternative ∨ story.Settles i group alternative := by
  unfold ComesAbout Fires Settles
  cases alternative with
  | trigger t => simp [Alternative.trigger?, Alternative.due?, Alternative.bodies]
  | delay ticks => simp [Alternative.trigger?, Alternative.due?, Alternative.bodies]
  | noop => simp [Alternative.trigger?, Alternative.due?, Alternative.bodies]
  | refused e => simp [Alternative.trigger?, Alternative.due?, Alternative.bodies]
  | join clauses => simp [Alternative.trigger?, Alternative.due?, Alternative.bodies]
  | spawn child =>
      simp only [Alternative.trigger?, Alternative.due?, Alternative.bodies, List.length_singleton,
        Nat.lt_one_iff, exists_eq_left, forall_eq, reduceCtorEq, false_and, exists_false, or_self,
        and_false, false_or]
      exact (and_iff_left_of_imp fun completes => ⟨i, Nat.le_refl i, completes⟩).symm

/-! ## A further turn -/

theorem mem_turns_extend {t : Turn σ} :
    t ∈ (story.extend i turn m).turns ↔ t ∈ (story m).turns ∨ (m = i ∧ t = turn) := by
  unfold extend
  by_cases here : m = i
  · subst here
    simp
  · simp [here]

theorem now_extend : (story.extend i turn m).now = (story m).now := by
  unfold extend
  by_cases here : m = i
  · subst here
    simp
  · simp [here]

theorem drained_extend : (story.extend i turn m).drained = (story m).drained := by
  unfold extend
  by_cases here : m = i
  · subst here
    simp
  · simp [here]

theorem changes_extend : (story.extend i turn m).changes = (story m).changes := by
  unfold extend
  by_cases here : m = i
  · subst here
    simp
  · simp [here]

theorem resumed_extend {tag : Tag} :
    Resumed (story.extend i turn) m tag ↔ story.Resumed m tag ∨ (m = i ∧ turn.tag = tag) := by
  simp only [Resumed, mem_turns_extend, or_and_right, exists_or, and_assoc, exists_and_left,
    exists_eq_left]

theorem waits_extend {tag : Tag} {alternatives : List (Alternative σ)} :
    Waits (story.extend i turn) m tag alternatives ↔ story.Waits m tag alternatives ∨
      (m = i ∧ turn.tag.next = tag ∧ ∃ body, turn.deed = .waiting body alternatives) := by
  simp only [Waits, mem_turns_extend, or_and_right, exists_or, and_assoc, exists_and_left,
    exists_eq_left]

theorem makes_extend {b : Nat} :
    Makes (story.extend i turn) m group b ↔ story.Makes m group b ∨
      (m = i ∧ turn.tag.next = group.caller ∧
        (Alternative.bodyAt turn.deed.alternatives group.place b).isSome = true) := by
  simp only [Makes, mem_turns_extend, or_and_right, exists_or, and_assoc, exists_and_left,
    exists_eq_left]

theorem Waits.of_extend {story : Story σ} {tag : Tag} {alternatives : List (Alternative σ)}
    (waits : Waits (story.extend i turn) m tag alternatives) :
    (tag = turn.tag.next ∧ m = i ∧ ∃ body, turn.deed = .waiting body alternatives) ∨
      story.Waits m tag alternatives := by
  rcases (story.waits_extend).mp waits with waits | ⟨rfl, rfl, deed⟩
  · exact .inr waits
  · exact .inl ⟨rfl, rfl, deed⟩

theorem Waits.count_ne_zero {story : Story σ} {tag : Tag} {alternatives : List (Alternative σ)}
    (waits : story.Waits m tag alternatives) : tag.count ≠ 0 := by
  obtain ⟨t, -, rfl, -⟩ := waits
  exact Nat.succ_ne_zero _

theorem completes_extend {name : Name} :
    Completes (story.extend i turn) m name ↔ story.Completes m name ∨
      (m = i ∧ turn.tag.name = name ∧ turn.deed = .completed) := by
  simp only [Completes, mem_turns_extend, or_and_right, exists_or, and_assoc, exists_and_left,
    exists_eq_left]

theorem fires_extend : Fires (story.extend i turn) j m alternative ↔ story.Fires j m alternative := by
  simp only [Fires, now_extend, drained_extend, changes_extend]

theorem Settles.extend {story : Story σ} (settles : story.Settles m group alternative) :
    Settles (story.extend i turn) m group alternative := by
  obtain ⟨⟨b, lt, last⟩, all⟩ := settles
  refine ⟨⟨b, lt, story.completes_extend.mpr (.inl last)⟩, fun b lt => ?_⟩
  obtain ⟨m, le, completes⟩ := all b lt
  exact ⟨m, le, story.completes_extend.mpr (.inl completes)⟩

/-! ## A further round -/

theorem turns_begin {round : Round σ} (unplayed : (story i).turns = []) :
    (story.begin i round m).turns = (story m).turns := by
  unfold begin
  by_cases here : m = i
  · subst here
    rw [Function.update_self]
    exact unplayed.symm
  · rw [Function.update_of_ne here]

theorem resumed_begin {round : Round σ} {tag : Tag} (unplayed : (story i).turns = []) :
    Resumed (story.begin i round) m tag ↔ story.Resumed m tag := by
  rw [Resumed, turns_begin story unplayed, Resumed]

theorem waits_begin {round : Round σ} {tag : Tag} {alternatives : List (Alternative σ)}
    (unplayed : (story i).turns = []) :
    Waits (story.begin i round) m tag alternatives ↔ story.Waits m tag alternatives := by
  rw [Waits, turns_begin story unplayed, Waits]

theorem completes_begin {round : Round σ} {name : Name} (unplayed : (story i).turns = []) :
    Completes (story.begin i round) m name ↔ story.Completes m name := by
  rw [Completes, turns_begin story unplayed, Completes]

theorem makes_begin {round : Round σ} {b : Nat} (unplayed : (story i).turns = []) :
    Makes (story.begin i round) m group b ↔ story.Makes m group b := by
  rw [Makes, turns_begin story unplayed, Makes]

theorem settles_begin {round : Round σ} (unplayed : (story i).turns = []) :
    Settles (story.begin i round) m group alternative ↔ story.Settles m group alternative := by
  simp only [Settles, completes_begin story unplayed]

theorem begin_of_ne {round : Round σ} (elsewhere : m ≠ i) : story.begin i round m = story m :=
  Function.update_of_ne elsewhere ..

theorem fires_begin {round : Round σ} (before : j < i) (earlier : m < i) :
    Fires (story.begin i round) j m alternative ↔ story.Fires j m alternative := by
  rw [Fires, Fires, begin_of_ne story (Nat.ne_of_lt before), begin_of_ne story (Nat.ne_of_lt earlier)]

theorem fires_begin_self {round : Round σ} (before : j < i) :
    Fires (story.begin i round) j i alternative ↔
      (∃ t, alternative.trigger? = some t ∧ ∃ change ∈ round.changes, t.firedBy change = true) ∨
        ∃ time, alternative.due? (story j).now = some time ∧ round.drained = some time := by
  rw [Fires, begin_of_ne story (Nat.ne_of_lt before), and_iff_right before, begin,
    Function.update_self]

/-! ## Whole rounds -/

theorem ofList_concat (rounds : List (Round σ)) (round : Round σ) :
    ofList (rounds ++ [round]) = Function.update (ofList rounds) rounds.length round := by
  funext i
  unfold ofList
  by_cases here : i = rounds.length
  · subst here
    rw [Function.update_self, List.getD_eq_getElem?_getD, List.getElem?_concat_length]
    rfl
  · rw [Function.update_of_ne here]
    simp only [List.getD_eq_getElem?_getD, List.getElem?_append, List.getElem?_singleton]
    split
    · rfl
    · next beyond =>
        rw [if_neg (by omega), List.getElem?_eq_none (by omega)]

theorem turns_ofList_of_le {rounds : List (Round σ)} (beyond : rounds.length ≤ i) :
    (ofList rounds i).turns = [] := by
  rw [ofList, List.getD_eq_getElem?_getD, List.getElem?_eq_none beyond]
  rfl

theorem exists_of_mem_turns_ofList {rounds : List (Round σ)}
    (listed : turn ∈ (ofList rounds i).turns) : ∃ round ∈ rounds, turn ∈ round.turns := by
  rw [ofList, List.getD_eq_getElem?_getD] at listed
  cases found : rounds[i]? with
  | none =>
      rw [found] at listed
      cases listed
  | some round =>
      rw [found] at listed
      exact ⟨round, List.mem_of_getElem? found, listed⟩

/-- Turns are taken one after the other. -/
theorem foldl_extend (turns : List (Turn σ)) :
    turns.foldl (fun story turn => story.extend i turn) story =
      Function.update story i { story i with turns := (story i).turns ++ turns } := by
  induction turns generalizing story with
  | nil => simp
  | cons turn rest ih =>
      rw [List.foldl_cons, ih]
      simp [extend]

theorem foldl_extend_begin (round : Round σ) :
    round.turns.foldl (fun story turn => story.extend i turn) (story.begin i round) =
      Function.update story i round := by
  rw [foldl_extend, begin]
  simp

end Story

end DeltaCycle
