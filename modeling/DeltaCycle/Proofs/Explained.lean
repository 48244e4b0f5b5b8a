import DeltaCycle.Proofs.Story

/-!
# What a story explains

A roster is explained by a story up to a round if the story tells why its waiters are where they
are: each was made by a turn of the story, each current arming was armed in one, it has fired
exactly if something that it waits for came about in the last round, and the members of a group
that are outstanding are those that no turn completed. A turn and an advance keep it so.
-/

set_option autoImplicit false

namespace DeltaCycle

open Roster

variable {σ : Type}

/-- A waiter that stands for a branch of a join waits for the branch once, and completes. -/
structure Helps (story : Story σ) (r : Roster σ) (name : Name) (clause : Clause σ) : Prop where
  seated : ∀ {count body}, r.seat name = .alive count body →
    (count = 0 ∧ body = some (.branch (some clause))) ∨ (count = 1 ∧ body = some (.branch none))
  turned : ∀ {m turn}, turn ∈ (story m).turns → turn.tag.name = name →
    (turn.tag.count = 0 ∧ turn.deed.Follows (.branch (some clause))) ∨
      (turn.tag.count = 1 ∧ turn.deed = .completed)

/-- The story up to round `i` explains the roster. -/
structure Explained (story : Story σ) (i : Nat) (r : Roster σ) : Prop where
  unplayed : ∀ m, i < m → (story m).turns = []
  past : ∀ {m turn}, turn ∈ (story m).turns → r.seat turn.tag.name ≠ .unborn ∧
    ∀ count body, r.seat turn.tag.name = .alive count body → turn.tag.count < count
  once : ∀ {m m' turn turn'}, turn ∈ (story m).turns → turn' ∈ (story m').turns →
    turn.tag = turn'.tag → m = m' ∧ turn = turn'
  nodup : ∀ m, ((story m).turns.map Turn.tag).Nodup
  gone : ∀ {m name}, story.Completes m name → r.seat name = .gone
  made : ∀ {group : Group} {b}, r.seat (group.member b) ≠ .unborn → ∃ m, story.Makes m group b
  newborn : ∀ {name}, Current r.seat ⟨name, 0⟩ → r.fired ⟨name, 0⟩ = true
  born : ∀ {m group b}, story.Makes m group b → story.Resumed m ⟨group.member b, 0⟩ ∨
    (m = i ∧ Current r.seat ⟨group.member b, 0⟩)
  first : ∀ {m} {group : Group} {b}, story.Resumed m ⟨group.member b, 0⟩ → story.Makes m group b
  queued : ∀ {time tag}, (time, tag) ∈ r.wakes → ∃ m, ∃ turn ∈ (story m).turns, turn.tag.next = tag
  helps : ∀ {m turn p b clause}, turn ∈ (story m).turns →
    Alternative.bodyAt turn.deed.alternatives p b = some (.branch (some clause)) →
    Helps story r (Group.member ⟨turn.tag.next, p⟩ b) clause
  current : ∀ {tag}, Current r.seat tag → tag.count = 0 ∨ ∃ j alternatives,
    story.Waits j tag alternatives
  armed : ∀ {j tag alternatives}, story.Waits j tag alternatives →
    (∀ m, ¬story.Resumed m tag) → Current r.seat tag
  watching : ∀ {j tag alternatives}, story.Waits j tag alternatives → Current r.seat tag →
    r.triggers tag = alternatives.filterMap Alternative.trigger?
  awaiting : ∀ {j tag alternatives}, story.Waits j tag alternatives → Current r.seat tag →
    r.fired tag = false → ∀ time, (time, tag) ∈ r.wakes ↔
      ∃ a ∈ alternatives, a.due? (story j).now = some time
  open_ : ∀ {j tag alternatives p a}, story.Waits j tag alternatives → alternatives[p]? = some a →
    a.bodies ≠ [] → (r.outstanding ⟨tag, p⟩).Nodup ∧
      ∀ b, b ∈ r.outstanding ⟨tag, p⟩ ↔
        b < a.bodies.length ∧ ∀ m, ¬story.Completes m (Group.member ⟨tag, p⟩ b)
  fired : ∀ {j tag alternatives}, story.Waits j tag alternatives → Current r.seat tag →
    (r.fired tag = true ↔ ∃ p a, alternatives[p]? = some a ∧
      (story.Fires j i a ∨ story.Settles i ⟨tag, p⟩ a))
  explained : ∀ {m tag}, story.Resumed m tag → tag.count = 0 ∨ ∃ j ≤ m, ∃ alternatives,
    story.Waits j tag alternatives ∧ ∃ p a, alternatives[p]? = some a ∧
      (story.Fires j m a ∨ story.Settles m ⟨tag, p⟩ a)
  settled : ∀ {m j tag alternatives p a}, m < i → story.Waits j tag alternatives →
    alternatives[p]? = some a → j ≤ m → (story.Fires j m a ∨ story.Settles m ⟨tag, p⟩ a) →
    ∃ m' ≤ m, story.Resumed m' tag

namespace Explained

variable {story : Story σ} {i : Nat} {r : Roster σ} (h : Explained story i r)

include h

theorem le_of_mem {m : Nat} {turn : Turn σ} (listed : turn ∈ (story m).turns) : m ≤ i := by
  by_contra beyond
  rw [h.unplayed m (Nat.lt_of_not_le beyond)] at listed
  cases listed

theorem waits_le {j : Nat} {tag : Tag} {alternatives : List (Alternative σ)}
    (waits : story.Waits j tag alternatives) : j ≤ i := by
  obtain ⟨turn, listed, -⟩ := waits
  exact h.le_of_mem listed

/-- A waiter is armed under a tag once. -/
theorem waits_once {j j' : Nat} {tag : Tag} {alternatives : List (Alternative σ)} {turn : Turn σ}
    (waits : story.Waits j tag alternatives) (listed : turn ∈ (story j').turns)
    (next : turn.tag.next = tag) : j = j' ∧ ∃ body, turn.deed = .waiting body alternatives := by
  obtain ⟨turn', listed', next', body, deed⟩ := waits
  obtain ⟨rfl, rfl⟩ := h.once listed' listed (Tag.next_inj (next'.trans next.symm))
  exact ⟨rfl, body, deed⟩

theorem not_mem_of_alive {m : Nat} {turn : Turn σ} (tag : Tag) {body : Option (Body σ)}
    (alive : r.seat tag.name = .alive tag.count body) (listed : turn ∈ (story m).turns) :
    turn.tag ≠ tag := by
  rintro rfl
  exact Nat.lt_irrefl _ ((h.past listed).2 _ _ alive)

/-- Nobody was made by the next arming of a waiter that is alive. -/
theorem unmade {tag : Tag} {body : Option (Body σ)}
    (alive : r.seat tag.name = .alive tag.count body) (p b : Nat) :
    r.seat (Group.member ⟨tag.next, p⟩ b) = .unborn := by
  by_contra born
  obtain ⟨m, t, listed, next, -⟩ := h.made born
  exact h.not_mem_of_alive _ alive listed (Tag.next_inj next)

/-! ## A turn -/

section Turn

variable {turn : Turn σ} {body : Option (Body σ)}
  (alive : r.seat turn.tag.name = .alive turn.tag.count body) (now : Nat)

include alive

theorem seat_cases (name : Name) :
    (name = turn.tag.name ∧
        (r.turn now turn.tag turn.deed).seat name = turn.deed.seat turn.tag.count) ∨
      (∃ p b made, Alternative.bodyAt turn.deed.alternatives p b = some made ∧
        name = Group.member ⟨turn.tag.next, p⟩ b ∧ r.seat name = .unborn ∧
        (r.turn now turn.tag turn.deed).seat name = .alive 0 (some made)) ∨
      (name ≠ turn.tag.name ∧
        (∀ p b, (Alternative.bodyAt turn.deed.alternatives p b).isSome = true →
          name ≠ Group.member ⟨turn.tag.next, p⟩ b) ∧
        (r.turn now turn.tag turn.deed).seat name = r.seat name) := by
  rcases seat_turn_cases r now turn.tag turn.deed name with own | ⟨p, b, made, found, rfl, seat⟩ |
    other
  · exact .inl own
  · exact .inr (.inl ⟨p, b, made, found, rfl, h.unmade alive p b, seat⟩)
  · exact .inr (.inr other)

theorem current_cases {tag : Tag} (current : Current (r.turn now turn.tag turn.deed).seat tag) :
    (tag = turn.tag.next ∧ ∃ body alternatives, turn.deed = .waiting body alternatives) ∨
      (tag.count = 0 ∧ r.seat tag.name = .unborn) ∨
      (tag.name ≠ turn.tag.name ∧ Current r.seat tag) := by
  obtain ⟨body', alive'⟩ := current
  obtain ⟨name, count⟩ := tag
  rcases h.seat_cases alive now name with ⟨rfl, seat⟩ | ⟨p, b, made, -, -, unborn, seat⟩ |
    ⟨other, -, seat⟩
  · dsimp only at alive'
    rw [seat] at alive'
    cases deed : turn.deed with
    | completed =>
        rw [deed] at alive'
        cases alive'
    | failed alternatives =>
        rw [deed] at alive'
        cases alive'
    | waiting next alternatives =>
        rw [deed] at alive'
        cases alive'
        exact .inl ⟨rfl, next, alternatives, rfl⟩
  · dsimp only at alive'
    rw [seat] at alive'
    cases alive'
    exact .inr (.inl ⟨rfl, unborn⟩)
  · dsimp only at alive'
    rw [seat] at alive'
    exact .inr (.inr ⟨other, body', alive'⟩)

/-- Who was there and does not take the turn stays as it is. -/
theorem seat_of_ne {name : Name} (other : name ≠ turn.tag.name) (born : r.seat name ≠ .unborn) :
    (r.turn now turn.tag turn.deed).seat name = r.seat name := by
  rcases h.seat_cases alive now name with ⟨rfl, -⟩ | ⟨p, b, made, -, -, unborn, -⟩ |
    ⟨-, -, seat⟩
  · exact absurd rfl other
  · exact absurd unborn born
  · exact seat

theorem past_turn {m : Nat} {t : Turn σ} (listed : t ∈ (story.extend i turn m).turns) :
    (r.turn now turn.tag turn.deed).seat t.tag.name ≠ .unborn ∧
      ∀ count body, (r.turn now turn.tag turn.deed).seat t.tag.name = .alive count body →
        t.tag.count < count := by
  have own (le : t.tag.count ≤ turn.tag.count) (same : t.tag.name = turn.tag.name) :
      (r.turn now turn.tag turn.deed).seat t.tag.name ≠ .unborn ∧
      ∀ count body, (r.turn now turn.tag turn.deed).seat t.tag.name = .alive count body →
        t.tag.count < count := by
    rw [same, seat_turn_self]
    cases turn.deed with
    | completed => exact ⟨nofun, nofun⟩
    | failed alternatives => exact ⟨nofun, nofun⟩
    | waiting next alternatives =>
        refine ⟨nofun, fun count body alive' => ?_⟩
        cases alive'
        exact Nat.lt_succ_of_le le
  rcases (story.mem_turns_extend).mp listed with listed | ⟨-, rfl⟩
  · obtain ⟨born, bound⟩ := h.past listed
    by_cases same : t.tag.name = turn.tag.name
    · refine own (Nat.le_of_lt (bound turn.tag.count body ?_)) same
      rw [same]
      exact alive
    · rw [h.seat_of_ne alive now same born]
      exact ⟨born, bound⟩
  · exact own (Nat.le_refl _) rfl

theorem once_turn {m m' : Nat} {t t' : Turn σ} (listed : t ∈ (story.extend i turn m).turns)
    (listed' : t' ∈ (story.extend i turn m').turns) (same : t.tag = t'.tag) :
    m = m' ∧ t = t' := by
  rcases (story.mem_turns_extend).mp listed with before | ⟨rfl, rfl⟩
  · rcases (story.mem_turns_extend).mp listed' with before' | ⟨rfl, rfl⟩
    · exact h.once before before' same
    · exact absurd same (h.not_mem_of_alive _ alive before)
  · rcases (story.mem_turns_extend).mp listed' with before' | ⟨rfl, rfl⟩
    · exact absurd same.symm (h.not_mem_of_alive _ alive before')
    · exact ⟨rfl, rfl⟩

theorem nodup_turn (m : Nat) : ((story.extend i turn m).turns.map Turn.tag).Nodup := by
  unfold Story.extend
  by_cases here : m = i
  · subst here
    rw [Function.update_self, List.map_append]
    refine List.Nodup.append (h.nodup m) (List.nodup_singleton _) fun tag listed new => ?_
    obtain ⟨t, before, rfl⟩ := List.mem_map.mp listed
    exact h.not_mem_of_alive _ alive before (List.mem_singleton.mp new)
  · rw [Function.update_of_ne here]
    exact h.nodup m

theorem gone_turn {m : Nat} {name : Name} (completes : Story.Completes (story.extend i turn) m name) :
    (r.turn now turn.tag turn.deed).seat name = .gone := by
  rcases (story.completes_extend).mp completes with completes | ⟨-, rfl, deed⟩
  · have gone := h.gone completes
    have other : name ≠ turn.tag.name := by
      rintro rfl
      cases gone.symm.trans alive
    rw [h.seat_of_ne alive now other (by rw [gone]; exact nofun)]
    exact gone
  · rw [seat_turn_self, deed]
    rfl

theorem made_turn {group : Group} {b : Nat}
    (born : (r.turn now turn.tag turn.deed).seat (group.member b) ≠ .unborn) :
    ∃ m, Story.Makes (story.extend i turn) m group b := by
  have before (born : r.seat (group.member b) ≠ .unborn) :
      ∃ m, Story.Makes (story.extend i turn) m group b := by
    obtain ⟨m, makes⟩ := h.made born
    exact ⟨m, (story.makes_extend).mpr (.inl makes)⟩
  rcases h.seat_cases alive now (group.member b) with ⟨own, -⟩ |
    ⟨p, b', made, found, member, -, -⟩ | ⟨-, -, seat⟩
  · refine before fun unborn => ?_
    rw [own, alive] at unborn
    cases unborn
  · obtain ⟨rfl, rfl⟩ := Group.member_inj member
    refine ⟨i, (story.makes_extend).mpr (.inr ⟨rfl, rfl, ?_⟩)⟩
    rw [found]
    rfl
  · exact before (by rwa [seat] at born)

theorem newborn_turn {name : Name}
    (current : Current (r.turn now turn.tag turn.deed).seat ⟨name, 0⟩) :
    (r.turn now turn.tag turn.deed).fired ⟨name, 0⟩ = true := by
  rcases h.current_cases alive now current with ⟨same, -⟩ | ⟨-, unborn⟩ | ⟨other, before⟩
  · cases congrArg Tag.count same
  · rcases h.seat_cases alive now name with ⟨rfl, -⟩ | ⟨p, b, made, found, rfl, -, -⟩ | ⟨-, -, seat⟩
    · cases alive.symm.trans unborn
    · exact fired_turn_of_isSome r (by rw [found]; rfl)
    · obtain ⟨body', alive'⟩ := current
      cases (alive'.symm.trans seat).trans unborn
  · have apart : (⟨name, 0⟩ : Tag) ≠ turn.tag.next := nofun
    refine (fired_turn r apart ?_).mpr (.inl (h.newborn before))
    rintro p b - same
    obtain ⟨body', alive'⟩ := before
    rw [congrArg Tag.name same] at alive'
    cases (h.unmade alive p b).symm.trans alive'

theorem born_turn {m b : Nat} {group : Group}
    (makes : Story.Makes (story.extend i turn) m group b) :
    Story.Resumed (story.extend i turn) m ⟨group.member b, 0⟩ ∨
      (m = i ∧ Current (r.turn now turn.tag turn.deed).seat ⟨group.member b, 0⟩) := by
  rcases (story.makes_extend).mp makes with before | ⟨rfl, next, made⟩
  · rcases h.born before with resumed | ⟨rfl, body', alive'⟩
    · exact .inl ((story.resumed_extend).mpr (.inl resumed))
    · by_cases same : turn.tag.name = group.member b
      · exact .inl ((story.resumed_extend).mpr (.inr ⟨rfl, eq_of_alive alive alive' same⟩))
      · refine .inr ⟨rfl, body', ?_⟩
        exact (h.seat_of_ne alive now (Ne.symm same) (by rw [alive']; exact nofun)).trans alive'
  · obtain ⟨body', found⟩ := Option.isSome_iff_exists.mp made
    obtain ⟨caller, place⟩ := group
    subst next
    exact .inr ⟨rfl, some body', seat_turn_of_some r found⟩

theorem first_turn {m b : Nat} {group : Group}
    (resumed : Story.Resumed (story.extend i turn) m ⟨group.member b, 0⟩) :
    Story.Makes (story.extend i turn) m group b := by
  rcases (story.resumed_extend).mp resumed with before | ⟨rfl, same⟩
  · exact (story.makes_extend).mpr (.inl (h.first before))
  · rw [same] at alive
    obtain ⟨m', makes⟩ := h.made fun unborn => nomatch alive.symm.trans unborn
    rcases h.born makes with ⟨t, listed, again⟩ | ⟨rfl, -⟩
    · exact absurd again (h.not_mem_of_alive ⟨group.member b, 0⟩ alive listed)
    · exact (story.makes_extend).mpr (.inl makes)

omit h in
/-- A waiter for a branch takes its turn as such. -/
theorem helps_own (follows : ∀ b, body = some b → turn.deed.Follows b) {clause : Clause σ}
    (helps : Helps story r turn.tag.name clause) :
    Helps (story.extend i turn) (r.turn now turn.tag turn.deed) turn.tag.name clause := by
  have own : (turn.tag.count = 0 ∧ turn.deed.Follows (.branch (some clause))) ∨
      (turn.tag.count = 1 ∧ turn.deed = .completed) := by
    rcases helps.seated alive with ⟨count, rfl⟩ | ⟨count, rfl⟩
    · exact .inl ⟨count, follows _ rfl⟩
    · exact .inr ⟨count, follows _ rfl⟩
  refine ⟨fun {count' body'} seat => ?_, fun {m' t'} listed' named => ?_⟩
  · rw [seat_turn_self] at seat
    rcases own with ⟨count, failed | waits⟩ | ⟨-, deed⟩
    · cases deed : turn.deed with
      | completed =>
          rw [deed] at seat
          cases seat
      | failed alternatives =>
          rw [deed] at seat
          cases seat
      | waiting next alternatives =>
          rw [deed] at failed
          cases failed
    · rw [waits] at seat
      cases seat
      exact .inr ⟨congrArg (· + 1) count, rfl⟩
    · rw [deed] at seat
      cases seat
  · rcases (story.mem_turns_extend).mp listed' with listed' | ⟨-, rfl⟩
    · exact helps.turned listed' named
    · exact own

theorem helps_other {name : Name} {clause : Clause σ} (helps : Helps story r name clause)
    (other : name ≠ turn.tag.name) (born : r.seat name ≠ .unborn) :
    Helps (story.extend i turn) (r.turn now turn.tag turn.deed) name clause := by
  refine ⟨fun {count' body'} seat => ?_, fun {m' t'} listed' named => ?_⟩
  · rw [h.seat_of_ne alive now other born] at seat
    exact helps.seated seat
  · rcases (story.mem_turns_extend).mp listed' with listed' | ⟨-, rfl⟩
    · exact helps.turned listed' named
    · exact absurd named.symm other

/-- A waiter that a turn makes for a branch has not taken a turn. -/
theorem helps_made {p b : Nat} {clause : Clause σ}
    (made : Alternative.bodyAt turn.deed.alternatives p b = some (.branch (some clause))) :
    Helps (story.extend i turn) (r.turn now turn.tag turn.deed) (Group.member ⟨turn.tag.next, p⟩ b)
      clause := by
  refine ⟨fun {count' body'} seat => ?_, fun {m' t'} listed' named => ?_⟩
  · rw [seat_turn_of_some r made] at seat
    cases seat
    exact .inl ⟨rfl, rfl⟩
  · rcases (story.mem_turns_extend).mp listed' with listed' | ⟨-, rfl⟩
    · exact absurd (h.unmade alive p b) (named ▸ (h.past listed').1)
    · exact absurd named.symm (Group.member_ne_caller ⟨t'.tag.next, p⟩ b)

theorem helps_turn (follows : ∀ b, body = some b → turn.deed.Follows b) {m p b : Nat} {t : Turn σ}
    {clause : Clause σ} (listed : t ∈ (story.extend i turn m).turns)
    (made : Alternative.bodyAt t.deed.alternatives p b = some (.branch (some clause))) :
    Helps (story.extend i turn) (r.turn now turn.tag turn.deed) (Group.member ⟨t.tag.next, p⟩ b)
      clause := by
  rcases (story.mem_turns_extend).mp listed with listed | ⟨rfl, rfl⟩
  · have helps := h.helps listed made
    by_cases own : Group.member ⟨t.tag.next, p⟩ b = turn.tag.name
    · rw [own] at helps ⊢
      exact helps_own alive now follows helps
    · refine h.helps_other alive now helps own ?_
      have makes : story.Makes m ⟨t.tag.next, p⟩ b := ⟨t, listed, rfl, by rw [made]; rfl⟩
      rcases h.born makes with ⟨t', listed', named⟩ | ⟨-, body', alive'⟩
      · have past := (h.past listed').1
        rwa [named] at past
      · intro unborn
        cases unborn.symm.trans alive'
  · exact h.helps_made alive now made

theorem next_ne_of_waits {j : Nat} {tag : Tag} {alternatives : List (Alternative σ)}
    (waits : story.Waits j tag alternatives) : tag ≠ turn.tag.next := by
  rintro rfl
  obtain ⟨t, listed, next, -⟩ := waits
  exact h.not_mem_of_alive _ alive listed (Tag.next_inj next)

theorem current_of_waits {j : Nat} {tag : Tag} {alternatives : List (Alternative σ)}
    (waits : story.Waits j tag alternatives)
    (current : Current (r.turn now turn.tag turn.deed).seat tag) :
    Current r.seat tag ∧ tag.name ≠ turn.tag.name := by
  rcases h.current_cases alive now current with ⟨rfl, -⟩ | ⟨first, -⟩ | ⟨other, current⟩
  · exact absurd rfl (h.next_ne_of_waits alive waits)
  · exact absurd first waits.count_ne_zero
  · exact ⟨current, other⟩

theorem current_turn {tag : Tag} (current : Current (r.turn now turn.tag turn.deed).seat tag) :
    tag.count = 0 ∨ ∃ j alternatives, Story.Waits (story.extend i turn) j tag alternatives := by
  rcases h.current_cases alive now current with ⟨rfl, body, alternatives, deed⟩ | ⟨first, -⟩ |
    ⟨-, current⟩
  · exact .inr ⟨i, alternatives, (story.waits_extend).mpr (.inr ⟨rfl, rfl, body, deed⟩)⟩
  · exact .inl first
  · refine (h.current current).imp_right fun ⟨j, alternatives, waits⟩ => ?_
    exact ⟨j, alternatives, (story.waits_extend).mpr (.inl waits)⟩

theorem armed_turn {j : Nat} {tag : Tag} {alternatives : List (Alternative σ)}
    (waits : Story.Waits (story.extend i turn) j tag alternatives)
    (unused : ∀ m, ¬Story.Resumed (story.extend i turn) m tag) :
    Current (r.turn now turn.tag turn.deed).seat tag := by
  rcases waits.of_extend with ⟨rfl, -, body, deed⟩ | waits
  · refine ⟨some body, ?_⟩
    rw [show turn.tag.next.name = turn.tag.name from rfl, seat_turn_self, deed]
    rfl
  · obtain ⟨body', alive'⟩ := h.armed waits fun m resumed =>
      unused m ((story.resumed_extend).mpr (.inl resumed))
    have other : tag.name ≠ turn.tag.name := by
      intro same
      refine unused i ((story.resumed_extend).mpr (.inr ⟨rfl, ?_⟩))
      exact eq_of_alive alive alive' same.symm
    exact ⟨body', (h.seat_of_ne alive now other (by rw [alive']; exact nofun)).trans alive'⟩

omit alive in
theorem queued_turn {time : Nat} {tag : Tag}
    (listed : (time, tag) ∈ (r.turn now turn.tag turn.deed).wakes) :
    ∃ m, ∃ t ∈ (story.extend i turn m).turns, t.tag.next = tag := by
  rw [wakes_turn] at listed
  rcases Multiset.mem_add.mp listed with listed | listed
  · obtain ⟨a, -, due⟩ := List.mem_filterMap.mp (Multiset.mem_coe.mp listed)
    obtain ⟨time', -, same⟩ := Option.map_eq_some_iff.mp due
    cases same
    exact ⟨i, turn, (story.mem_turns_extend).mpr (.inr ⟨rfl, rfl⟩), rfl⟩
  · obtain ⟨m, t, before, next⟩ := h.queued listed
    exact ⟨m, t, (story.mem_turns_extend).mpr (.inl before), next⟩

theorem watching_turn {j : Nat} {tag : Tag} {alternatives : List (Alternative σ)}
    (waits : Story.Waits (story.extend i turn) j tag alternatives)
    (current : Current (r.turn now turn.tag turn.deed).seat tag) :
    (r.turn now turn.tag turn.deed).triggers tag =
      alternatives.filterMap Alternative.trigger? := by
  rcases waits.of_extend with ⟨rfl, -, body, deed⟩ | waits
  · rw [triggers_turn_self, deed]
    rfl
  · obtain ⟨current, -⟩ := h.current_of_waits alive now waits current
    rw [triggers_turn r (h.next_ne_of_waits alive waits) ?_]
    · exact h.watching waits current
    · rintro p b - rfl
      exact waits.count_ne_zero rfl

theorem fired_of_waits {j : Nat} {tag : Tag} {alternatives : List (Alternative σ)}
    (waits : story.Waits j tag alternatives) :
    (r.turn now turn.tag turn.deed).fired tag = true ↔ r.fired tag = true ∨
      turn.deed = .completed ∧ ∃ group b, turn.tag.name = Group.member group b ∧
        group.caller = tag ∧ (r.outstanding group).erase b = [] := by
  refine fired_turn r (h.next_ne_of_waits alive waits) ?_
  rintro p b - rfl
  exact waits.count_ne_zero rfl

theorem awaiting_turn {j : Nat} {tag : Tag} {alternatives : List (Alternative σ)}
    (waits : Story.Waits (story.extend i turn) j tag alternatives)
    (current : Current (r.turn (story i).now turn.tag turn.deed).seat tag)
    (idle : (r.turn (story i).now turn.tag turn.deed).fired tag = false) (time : Nat) :
    (time, tag) ∈ (r.turn (story i).now turn.tag turn.deed).wakes ↔
      ∃ a ∈ alternatives, a.due? (story.extend i turn j).now = some time := by
  have issued (listed : (time, tag) ∈
      (turn.deed.alternatives.filterMap fun a => (a.due? (story i).now).map (·, turn.tag.next) :
        List (Nat × Tag))) : tag = turn.tag.next := by
    obtain ⟨a, -, due⟩ := List.mem_filterMap.mp listed
    obtain ⟨time', -, same⟩ := Option.map_eq_some_iff.mp due
    cases same
    rfl
  rw [wakes_turn, Multiset.mem_add, Multiset.mem_coe, story.now_extend]
  rcases waits.of_extend with ⟨rfl, rfl, body, deed⟩ | waits
  · have fresh : (time, turn.tag.next) ∉ r.wakes := by
      intro listed
      obtain ⟨m, t, before, next⟩ := h.queued listed
      exact h.not_mem_of_alive _ alive before (Tag.next_inj next)
    rw [or_iff_left fresh, deed, List.mem_filterMap]
    refine exists_congr fun a => and_congr_right fun _ => ?_
    rw [Option.map_eq_some_iff]
    constructor
    · rintro ⟨time', due, same⟩
      cases same
      exact due
    · exact fun due => ⟨time, due, rfl⟩
  · obtain ⟨current, -⟩ := h.current_of_waits alive _ waits current
    rw [or_iff_right fun listed => h.next_ne_of_waits alive waits (issued listed)]
    refine h.awaiting waits current (Bool.eq_false_iff.mpr fun fired => ?_) time
    rw [(h.fired_of_waits alive _ waits).mpr (.inl fired)] at idle
    cases idle

/-- Nobody that the turn makes has completed. -/
theorem not_completes_of_next (m p b : Nat) :
    ¬Story.Completes (story.extend i turn) m (Group.member ⟨turn.tag.next, p⟩ b) := by
  intro completes
  rcases (story.completes_extend).mp completes with completes | ⟨-, same, -⟩
  · cases (h.gone completes).symm.trans (h.unmade alive p b)
  · exact Group.member_ne_caller ⟨turn.tag.next, p⟩ b same.symm

omit h alive in
theorem completes_of_extend {m b : Nat} {group : Group}
    (elsewhere : turn.deed = .completed → ∀ b, turn.tag.name ≠ group.member b) :
    Story.Completes (story.extend i turn) m (group.member b) ↔
      story.Completes m (group.member b) := by
  rw [story.completes_extend]
  refine or_iff_left ?_
  rintro ⟨-, same, deed⟩
  exact elsewhere deed b same

theorem open_turn {j p : Nat} {tag : Tag} {alternatives : List (Alternative σ)}
    {a : Alternative σ} (waits : Story.Waits (story.extend i turn) j tag alternatives)
    (listed : alternatives[p]? = some a) (makes : a.bodies ≠ []) :
    ((r.turn now turn.tag turn.deed).outstanding ⟨tag, p⟩).Nodup ∧
      ∀ b, b ∈ (r.turn now turn.tag turn.deed).outstanding ⟨tag, p⟩ ↔
        b < a.bodies.length ∧
          ∀ m, ¬Story.Completes (story.extend i turn) m (Group.member ⟨tag, p⟩ b) := by
  rcases waits.of_extend with ⟨rfl, -, body', deed⟩ | before
  · have listed' : turn.deed.alternatives[p]? = some a := by
      rw [deed]
      exact listed
    rw [outstanding_turn_self r listed' makes]
    refine ⟨List.nodup_range, fun b => ?_⟩
    rw [List.mem_range]
    exact (and_iff_left fun m => h.not_completes_of_next alive m p b).symm
  · obtain ⟨nodup, outstanding⟩ := h.open_ before listed makes
    have other := h.next_ne_of_waits alive before
    by_cases leaves : turn.deed = .completed ∧ ∃ b, turn.tag.name = Group.member ⟨tag, p⟩ b
    · obtain ⟨deed, b, member⟩ := leaves
      rw [outstanding_turn_of_completed r deed member]
      refine ⟨nodup.erase b, fun b' => ?_⟩
      rw [nodup.mem_erase_iff, outstanding]
      constructor
      · rintro ⟨apart, lt, unfinished⟩
        refine ⟨lt, fun m completes => ?_⟩
        rcases (story.completes_extend).mp completes with completes | ⟨-, same, -⟩
        · exact unfinished m completes
        · exact apart (Group.member_inj (same.symm.trans member)).2
      · rintro ⟨lt, unfinished⟩
        refine ⟨?_, lt, fun m completes =>
          unfinished m ((story.completes_extend).mpr (.inl completes))⟩
        rintro rfl
        exact unfinished i ((story.completes_extend).mpr (.inr ⟨rfl, member, deed⟩))
    · have elsewhere : turn.deed = .completed → ∀ b, turn.tag.name ≠ Group.member ⟨tag, p⟩ b :=
        fun deed b member => leaves ⟨deed, b, member⟩
      rw [outstanding_turn r other elsewhere]
      simp only [completes_of_extend elsewhere]
      exact ⟨nodup, outstanding⟩

/-- A member of a group was made for one of the alternatives of its caller. -/
theorem listed_of_member {j b : Nat} {group : Group} {alternatives : List (Alternative σ)}
    (waits : story.Waits j group.caller alternatives)
    (member : turn.tag.name = group.member b) :
    ∃ a, alternatives[group.place]? = some a ∧ b < a.bodies.length := by
  have born : r.seat (group.member b) ≠ .unborn := by
    rw [← member, alive]
    exact nofun
  obtain ⟨m, t, listed, next, made⟩ := h.made born
  obtain ⟨-, body', deed⟩ := h.waits_once waits listed next
  rw [deed, Deed.alternatives, Alternative.bodyAt] at made
  cases found : alternatives[group.place]? with
  | none =>
      rw [found] at made
      cases made
  | some a =>
      rw [found, Option.bind_some] at made
      obtain ⟨body'', found'⟩ := Option.isSome_iff_exists.mp made
      exact ⟨a, rfl, (List.getElem?_eq_some_iff.mp found').1⟩

/-- The last member of a group to complete settles what the group stands for. -/
theorem settles_turn {j p : Nat} {tag : Tag} {alternatives : List (Alternative σ)}
    {a : Alternative σ} (waits : story.Waits j tag alternatives)
    (listed : alternatives[p]? = some a) :
    Story.Settles (story.extend i turn) i ⟨tag, p⟩ a ↔
      story.Settles i ⟨tag, p⟩ a ∨ turn.deed = .completed ∧
        ∃ b, turn.tag.name = Group.member ⟨tag, p⟩ b ∧ (r.outstanding ⟨tag, p⟩).erase b = [] := by
  constructor
  · intro settles
    obtain ⟨⟨b₀, lt₀, last⟩, all⟩ := settles
    have makes : a.bodies ≠ [] := List.ne_nil_of_length_pos (Nat.zero_lt_of_lt lt₀)
    by_cases leaves : turn.deed = .completed ∧ ∃ b, turn.tag.name = Group.member ⟨tag, p⟩ b
    · obtain ⟨deed, b, member⟩ := leaves
      obtain ⟨nodup, outstanding⟩ := h.open_ waits listed makes
      refine .inr ⟨deed, b, member, List.eq_nil_iff_forall_not_mem.mpr fun b' remains => ?_⟩
      obtain ⟨apart, remains⟩ := nodup.mem_erase_iff.mp remains
      obtain ⟨lt, unfinished⟩ := (outstanding b').mp remains
      obtain ⟨m, -, completes⟩ := all b' lt
      rcases (story.completes_extend).mp completes with completes | ⟨-, same, -⟩
      · exact unfinished m completes
      · exact apart (Group.member_inj (same.symm.trans member)).2
    · have elsewhere : turn.deed = .completed → ∀ b, turn.tag.name ≠ Group.member ⟨tag, p⟩ b :=
        fun deed b member => leaves ⟨deed, b, member⟩
      refine .inl ⟨⟨b₀, lt₀, (completes_of_extend elsewhere).mp last⟩, fun b lt => ?_⟩
      obtain ⟨m, le, completes⟩ := all b lt
      exact ⟨m, le, (completes_of_extend elsewhere).mp completes⟩
  · rintro (settles | ⟨deed, b, member, empty⟩)
    · exact settles.extend
    · obtain ⟨a', listed', lt⟩ := h.listed_of_member alive waits member
      cases listed.symm.trans listed'
      have makes : a.bodies ≠ [] := List.ne_nil_of_length_pos (Nat.zero_lt_of_lt lt)
      obtain ⟨nodup, outstanding⟩ := h.open_ waits listed makes
      refine ⟨⟨b, lt, (story.completes_extend).mpr (.inr ⟨rfl, member, deed⟩)⟩, fun b' lt' => ?_⟩
      by_cases same : b' = b
      · subst same
        exact ⟨i, Nat.le_refl i, (story.completes_extend).mpr (.inr ⟨rfl, member, deed⟩)⟩
      · have finished : ¬∀ m, ¬story.Completes m (Group.member ⟨tag, p⟩ b') := by
          intro unfinished
          have remains := nodup.mem_erase_iff.mpr ⟨same, (outstanding b').mpr ⟨lt', unfinished⟩⟩
          rw [empty] at remains
          cases remains
        simp only [not_forall, not_not] at finished
        obtain ⟨m, completes⟩ := finished
        obtain ⟨t, before, -⟩ := id completes
        exact ⟨m, h.le_of_mem before, (story.completes_extend).mpr (.inl completes)⟩

theorem fired_turn {j : Nat} {tag : Tag} {alternatives : List (Alternative σ)}
    (waits : Story.Waits (story.extend i turn) j tag alternatives)
    (current : Current (r.turn now turn.tag turn.deed).seat tag) :
    (r.turn now turn.tag turn.deed).fired tag = true ↔ ∃ p a, alternatives[p]? = some a ∧
      (Story.Fires (story.extend i turn) j i a ∨
        Story.Settles (story.extend i turn) i ⟨tag, p⟩ a) := by
  simp only [story.fires_extend]
  rcases waits.of_extend with ⟨rfl, rfl, -⟩ | before
  · rw [fired_turn_self]
    refine iff_of_false Bool.false_ne_true ?_
    rintro ⟨p, a, -, ⟨lt, -⟩ | ⟨⟨b, -, completes⟩, -⟩⟩
    · exact Nat.lt_irrefl _ lt
    · exact h.not_completes_of_next alive _ p b completes
  · obtain ⟨current, -⟩ := h.current_of_waits alive now before current
    rw [h.fired_of_waits alive now before, h.fired before current]
    constructor
    · rintro (⟨p, a, listed, fires | settles⟩ | ⟨deed, group, b, member, rfl, empty⟩)
      · exact ⟨p, a, listed, .inl fires⟩
      · exact ⟨p, a, listed, .inr settles.extend⟩
      · obtain ⟨a, listed, -⟩ := h.listed_of_member alive before member
        exact ⟨group.place, a, listed,
          .inr ((h.settles_turn alive before listed).mpr (.inr ⟨deed, b, member, empty⟩))⟩
    · rintro ⟨p, a, listed, fires | settles⟩
      · exact .inl ⟨p, a, listed, .inl fires⟩
      · rcases (h.settles_turn alive before listed).mp settles with settles | ⟨deed, b, member, empty⟩
        · exact .inl ⟨p, a, listed, .inr settles⟩
        · exact .inr ⟨deed, ⟨tag, p⟩, b, member, rfl, empty⟩

omit h alive in
theorem reason_extend {j m p : Nat} {tag : Tag} {a : Alternative σ}
    (reason : story.Fires j m a ∨ story.Settles m ⟨tag, p⟩ a) :
    Story.Fires (story.extend i turn) j m a ∨ Story.Settles (story.extend i turn) m ⟨tag, p⟩ a :=
  reason.imp (story.fires_extend).mpr Story.Settles.extend

theorem explained_turn (fired : r.fired turn.tag = true) {m : Nat} {tag : Tag}
    (resumed : Story.Resumed (story.extend i turn) m tag) :
    tag.count = 0 ∨ ∃ j ≤ m, ∃ alternatives,
      Story.Waits (story.extend i turn) j tag alternatives ∧ ∃ p a, alternatives[p]? = some a ∧
        (Story.Fires (story.extend i turn) j m a ∨
          Story.Settles (story.extend i turn) m ⟨tag, p⟩ a) := by
  rcases (story.resumed_extend).mp resumed with resumed | ⟨rfl, rfl⟩
  · refine (h.explained resumed).imp_right ?_
    rintro ⟨j, le, alternatives, waits, p, a, listed, reason⟩
    exact ⟨j, le, alternatives, (story.waits_extend).mpr (.inl waits), p, a, listed,
      reason_extend reason⟩
  · refine (h.current ⟨body, alive⟩).imp_right ?_
    rintro ⟨j, alternatives, waits⟩
    obtain ⟨p, a, listed, reason⟩ := (h.fired waits ⟨body, alive⟩).mp fired
    exact ⟨j, h.waits_le waits, alternatives, (story.waits_extend).mpr (.inl waits), p, a, listed,
      reason_extend reason⟩

omit alive in
theorem settled_turn {m j p : Nat} {tag : Tag} {alternatives : List (Alternative σ)}
    {a : Alternative σ} (before : m < i)
    (waits : Story.Waits (story.extend i turn) j tag alternatives)
    (listed : alternatives[p]? = some a) (le : j ≤ m)
    (reason : Story.Fires (story.extend i turn) j m a ∨
      Story.Settles (story.extend i turn) m ⟨tag, p⟩ a) :
    ∃ m' ≤ m, Story.Resumed (story.extend i turn) m' tag := by
  have old {m' : Nat} (le' : m' ≤ m) {name : Name}
      (completes : Story.Completes (story.extend i turn) m' name) : story.Completes m' name := by
    rcases (story.completes_extend).mp completes with completes | ⟨rfl, -, -⟩
    · exact completes
    · omega
  rcases waits.of_extend with ⟨-, rfl, -⟩ | waits
  · omega
  · have reason' : story.Fires j m a ∨ story.Settles m ⟨tag, p⟩ a := by
      refine reason.imp (story.fires_extend).mp ?_
      rintro ⟨⟨b, lt, last⟩, all⟩
      refine ⟨⟨b, lt, old (Nat.le_refl m) last⟩, fun b lt => ?_⟩
      obtain ⟨m', le', completes⟩ := all b lt
      exact ⟨m', le', old le' completes⟩
    obtain ⟨m', le', resumed⟩ := h.settled before waits listed le reason'
    exact ⟨m', le', (story.resumed_extend).mpr (.inl resumed)⟩

end Turn

/-- A turn that a waiter may take is explained. -/
theorem turn {turn : Turn σ} (takes : r.Takes turn) :
    Explained (story.extend i turn) i (r.turn (story i).now turn.tag turn.deed) := by
  obtain ⟨⟨body, alive, follows⟩, fired⟩ := takes
  exact {
    unplayed := fun m later => by
      refine List.eq_nil_iff_forall_not_mem.mpr fun t listed => ?_
      rcases (story.mem_turns_extend).mp listed with listed | ⟨rfl, -⟩
      · rw [h.unplayed m later] at listed
        cases listed
      · exact Nat.lt_irrefl _ later
    past := fun listed => h.past_turn alive _ listed
    once := fun listed listed' same => h.once_turn alive listed listed' same
    nodup := h.nodup_turn alive
    gone := fun completes => h.gone_turn alive _ completes
    made := fun born => h.made_turn alive _ born
    newborn := fun current => h.newborn_turn alive _ current
    born := fun makes => h.born_turn alive _ makes
    first := fun resumed => h.first_turn alive resumed
    queued := fun listed => h.queued_turn _ listed
    helps := fun listed made => h.helps_turn alive _
      (fun b same => by cases same; exact follows) listed made
    current := fun current => h.current_turn alive _ current
    armed := fun waits unused => h.armed_turn alive _ waits unused
    watching := fun waits current => h.watching_turn alive _ waits current
    awaiting := fun waits current idle => h.awaiting_turn alive waits current idle
    open_ := fun waits listed makes => h.open_turn alive _ waits listed makes
    fired := fun waits current => h.fired_turn alive _ waits current
    explained := fun resumed => h.explained_turn alive fired resumed
    settled := fun before waits listed le reason => h.settled_turn before waits listed le reason }

/-! ## An advance -/

/-- What comes about while nobody is waiting for a turn fires exactly those that wait for it. -/
theorem fired_advance {round : Round σ} (quiet : r.Quiet) {j : Nat} {tag : Tag}
    {alternatives : List (Alternative σ)} (waits : story.Waits j tag alternatives)
    (current : Current r.seat tag) :
    (r.advance round.changes round.drained).fired tag = true ↔
      ∃ p a, alternatives[p]? = some a ∧
        (Story.Fires (story.begin (i + 1) round) j (i + 1) a ∨
          Story.Settles (story.begin (i + 1) round) (i + 1) ⟨tag, p⟩ a) := by
  have before : j < i + 1 := Nat.lt_succ_of_le (h.waits_le waits)
  have unsettled (p : Nat) (a : Alternative σ) :
      ¬Story.Settles (story.begin (i + 1) round) (i + 1) ⟨tag, p⟩ a := by
    rw [story.settles_begin (h.unplayed _ (Nat.lt_succ_self i))]
    rintro ⟨⟨b, -, t, listed, -⟩, -⟩
    exact Nat.not_succ_le_self i (h.le_of_mem listed)
  have idle := quiet tag current
  simp only [story.fires_begin_self before, unsettled, or_false]
  simp only [advance, idle, isCurrent_iff.mpr current, Bool.false_or, Bool.true_and, Bool.or_eq_true,
    List.any_eq_true, Option.any_eq_true, decide_eq_true_eq, h.watching waits current,
    List.mem_filterMap, h.awaiting waits current idle]
  constructor
  · rintro (⟨t, ⟨a, listed, trigger⟩, change, changes, fired⟩ | ⟨time, drained, a, listed, due⟩)
    · obtain ⟨p, listed⟩ := List.mem_iff_getElem?.mp listed
      exact ⟨p, a, listed, .inl ⟨t, trigger, change, changes, fired⟩⟩
    · obtain ⟨p, listed⟩ := List.mem_iff_getElem?.mp listed
      exact ⟨p, a, listed, .inr ⟨time, due, drained⟩⟩
  · rintro ⟨p, a, listed, ⟨t, trigger, change, changes, fired⟩ | ⟨time, due, drained⟩⟩
    · exact .inl ⟨t, ⟨a, List.mem_of_getElem? listed, trigger⟩, change, changes, fired⟩
    · exact .inr ⟨time, drained, a, List.mem_of_getElem? listed, due⟩

/-- At the end of a round, whoever waits for something that came about in it was resumed. -/
theorem settled_quiet (quiet : r.Quiet) {m j p : Nat} {tag : Tag}
    {alternatives : List (Alternative σ)} {a : Alternative σ} (within : m ≤ i)
    (waits : story.Waits j tag alternatives) (listed : alternatives[p]? = some a) (le : j ≤ m)
    (reason : story.Fires j m a ∨ story.Settles m ⟨tag, p⟩ a) :
    ∃ m' ≤ m, story.Resumed m' tag := by
  rcases Nat.lt_or_eq_of_le within with earlier | rfl
  · exact h.settled earlier waits listed le reason
  · by_contra unused
    have current := h.armed waits fun m' resumed =>
      unused ⟨m', h.le_of_mem resumed.choose_spec.1, resumed⟩
    have fired := (h.fired waits current).mpr ⟨p, a, listed, reason⟩
    rw [quiet tag current] at fired
    cases fired

/-- Where nobody is waiting for a turn, a further round may begin. -/
theorem begin (quiet : r.Quiet) (round : Round σ) :
    Explained (story.begin (i + 1) round) (i + 1) (r.advance round.changes round.drained) := by
  have unplayed : (story (i + 1)).turns = [] := h.unplayed _ (Nat.lt_succ_self i)
  have turns (m : Nat) : (story.begin (i + 1) round m).turns = (story m).turns :=
    story.turns_begin unplayed
  exact {
    unplayed := fun m later => by
      rw [turns]
      exact h.unplayed m (Nat.lt_of_succ_lt later)
    past := fun listed => by
      rw [turns] at listed
      exact h.past listed
    once := fun listed listed' same => by
      rw [turns] at listed listed'
      exact h.once listed listed' same
    nodup := fun m => by
      rw [turns]
      exact h.nodup m
    gone := fun completes => h.gone ((story.completes_begin unplayed).mp completes)
    made := fun born => (h.made born).imp fun _ => (story.makes_begin unplayed).mpr
    newborn := fun {name} current => by
      have fired := h.newborn current
      rw [quiet ⟨name, 0⟩ current] at fired
      cases fired
    born := fun {m group b} makes => by
      rcases h.born ((story.makes_begin unplayed).mp makes) with resumed | ⟨-, current⟩
      · exact .inl ((story.resumed_begin unplayed).mpr resumed)
      · have fired := h.newborn current
        rw [quiet _ current] at fired
        cases fired
    first := fun resumed => (story.makes_begin unplayed).mpr
      (h.first ((story.resumed_begin unplayed).mp resumed))
    queued := fun listed => by
      obtain ⟨m, t, listed, rest⟩ := h.queued (Multiset.mem_of_mem_filter listed)
      rw [← turns] at listed
      exact ⟨m, t, listed, rest⟩
    helps := fun listed made => by
      rw [turns] at listed
      obtain ⟨seated, turned⟩ := h.helps listed made
      refine ⟨seated, fun listed' => ?_⟩
      rw [turns] at listed'
      exact turned listed'
    current := fun current => by
      refine (h.current current).imp_right ?_
      rintro ⟨j, alternatives, waits⟩
      exact ⟨j, alternatives, (story.waits_begin unplayed).mpr waits⟩
    armed := fun waits unused => h.armed ((story.waits_begin unplayed).mp waits) fun m resumed =>
      unused m ((story.resumed_begin unplayed).mpr resumed)
    watching := fun waits current => h.watching ((story.waits_begin unplayed).mp waits) current
    awaiting := fun {j tag alternatives} waits current idle time => by
      have waits := (story.waits_begin unplayed).mp waits
      have before : j < i + 1 := Nat.lt_succ_of_le (h.waits_le waits)
      rw [story.begin_of_ne (Nat.ne_of_lt before)]
      refine Iff.trans ?_ (h.awaiting waits current (quiet tag current) time)
      refine Multiset.mem_filter.trans (and_iff_left_of_imp fun listed drained => ?_)
      obtain ⟨-, undue⟩ := Bool.or_eq_false_iff.mp idle
      rw [drained, Option.any_some, decide_eq_false_iff_not] at undue
      exact undue listed
    open_ := fun waits listed makes => by
      simp only [story.completes_begin unplayed]
      exact h.open_ ((story.waits_begin unplayed).mp waits) listed makes
    fired := fun waits current =>
      h.fired_advance quiet ((story.waits_begin unplayed).mp waits) current
    explained := fun {m tag} resumed => by
      have resumed := (story.resumed_begin unplayed).mp resumed
      refine (h.explained resumed).imp_right ?_
      rintro ⟨j, le, alternatives, waits, p, a, listed, reason⟩
      have within : m < i + 1 := Nat.lt_succ_of_le (h.le_of_mem resumed.choose_spec.1)
      exact ⟨j, le, alternatives, (story.waits_begin unplayed).mpr waits, p, a, listed,
        reason.imp (story.fires_begin (Nat.lt_of_le_of_lt le within) within).mpr
          (story.settles_begin unplayed).mpr⟩
    settled := fun {m j tag alternatives p a} earlier waits listed le reason => by
      have waits := (story.waits_begin unplayed).mp waits
      have reason := reason.imp
        (story.fires_begin (Nat.lt_of_le_of_lt le earlier) earlier).mp
        (story.settles_begin unplayed).mp
      obtain ⟨m', le', resumed⟩ :=
        h.settled_quiet quiet (Nat.le_of_lt_succ earlier) waits listed le reason
      exact ⟨m', le', (story.resumed_begin unplayed).mpr resumed⟩ }

end Explained

/-! ## Whole stories -/

namespace Explained

variable {story : Story σ} {i : Nat} {r r' : Roster σ}

theorem start {r : Roster σ} (begins : r.Begins) (round : Round σ) :
    Explained (Story.begin (Story.ofList []) 0 round) 0
      (r.advance round.changes round.drained) := by
  have turns (m : Nat) : (Story.begin (Story.ofList []) 0 round m).turns = [] :=
    (Story.turns_begin _ (Story.turns_ofList_of_le (Nat.zero_le _))).trans
      (Story.turns_ofList_of_le (Nat.zero_le _))
  have unplayed {m : Nat} {t : Turn σ} : t ∉ (Story.begin (Story.ofList []) 0 round m).turns := by
    rw [turns]
    exact List.not_mem_nil
  exact {
    unplayed := fun m _ => turns m
    past := fun listed => absurd listed unplayed
    once := fun listed => absurd listed unplayed
    nodup := fun m => by
      rw [turns]
      exact List.nodup_nil
    gone := fun completes => absurd completes.choose_spec.1 unplayed
    made := fun {group b} born => absurd (begins.roots group b) born
    newborn := fun current => by
      have fired := begins.newborn current
      simp only [advance, fired, Bool.true_or]
    born := fun makes => absurd makes.choose_spec.1 unplayed
    first := fun resumed => absurd resumed.choose_spec.1 unplayed
    queued := fun listed => by
      have awaited := Multiset.mem_of_mem_filter listed
      rw [begins.wakes] at awaited
      exact absurd awaited (Multiset.notMem_zero _)
    helps := fun listed => absurd listed unplayed
    current := fun current => .inl (begins.first current.choose_spec)
    armed := fun waits => absurd waits.choose_spec.1 unplayed
    watching := fun waits => absurd waits.choose_spec.1 unplayed
    awaiting := fun waits => absurd waits.choose_spec.1 unplayed
    open_ := fun waits => absurd waits.choose_spec.1 unplayed
    fired := fun waits => absurd waits.choose_spec.1 unplayed
    explained := fun resumed => absurd resumed.choose_spec.1 unplayed
    settled := fun _ waits => absurd waits.choose_spec.1 unplayed }

theorem plays {turns : List (Turn σ)} (h : Explained story i r)
    (plays : Plays (story i).now r turns r') :
    Explained (turns.foldl (fun story turn => story.extend i turn) story) i r' := by
  generalize clock : (story i).now = now at plays
  induction plays generalizing story with
  | nil => exact h
  | cons takes _ ih =>
      subst clock
      exact ih (h.turn takes) (story.now_extend)

end Explained

/-- A story explains the roster that replays it. -/
theorem Roster.Replays.explained {r₀ r : Roster σ} {rounds : List (Round σ)}
    (begins : r₀.Begins) (replays : r₀.Replays rounds r) :
    (rounds = [] ∧ r = r₀) ∨
      Explained (Story.ofList rounds) (rounds.length - 1) r ∧ r.Quiet ∧ rounds ≠ [] := by
  induction replays with
  | nil => exact .inl ⟨rfl, rfl⟩
  | @concat rounds round r r' replays plays quiet ih =>
      have begun : Explained (Story.begin (Story.ofList rounds) rounds.length round) rounds.length
          (r.advance round.changes round.drained) := by
        rcases ih with ⟨rfl, rfl⟩ | ⟨explained, idle, nonempty⟩
        · exact .start begins round
        · have next := explained.begin idle round
          rwa [Nat.sub_add_cancel (List.length_pos_of_ne_nil nonempty)] at next
      have clock : (Story.begin (Story.ofList rounds) rounds.length round rounds.length).now =
          round.now := by
        rw [Story.begin, Function.update_self]
      rw [← clock] at plays
      have played := begun.plays plays
      rw [Story.foldl_extend_begin, ← Story.ofList_concat] at played
      refine .inr ⟨?_, quiet, by simp⟩
      rw [List.length_append, List.length_singleton, Nat.add_sub_cancel]
      exact played

end DeltaCycle
