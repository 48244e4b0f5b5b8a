import DeltaCycle.Proofs.Roster
import DeltaCycle.Proofs.Slots

/-!
# Seats

The waiter table and the roster agree on who is alive. Marks connect the two: they name the
armings that were issued and the groups behind the open joins. Every operation of the table
keeps the agreement with the operation of the roster that it stands for.
-/

set_option autoImplicit false

namespace DeltaCycle

variable {σ : Type}

/-- The names of armings, and the groups of join indices. -/
structure Marks where
  tag : Arming → Option Tag := fun _ => none
  group : Nat → Option Group := fun _ => none

/-- A further arming gets a name. -/
def Marks.issue (marks : Marks) (a : Arming) (tag : Tag) : Marks :=
  { marks with tag := Function.update marks.tag a (some tag) }

@[simp] theorem Marks.tag_issue_self (marks : Marks) (a : Arming) (tag : Tag) :
    (marks.issue a tag).tag a = some tag := Function.update_self ..

theorem Marks.tag_issue_of_ne (marks : Marks) {a a' : Arming} (tag : Tag) (other : a' ≠ a) :
    (marks.issue a tag).tag a' = marks.tag a' := Function.update_of_ne other ..

/-- A join index gets a group. -/
def Marks.assign (marks : Marks) (index : Nat) (group : Group) : Marks :=
  { marks with group := Function.update marks.group index (some group) }

@[simp] theorem Marks.group_assign_self (marks : Marks) (index : Nat) (group : Group) :
    (marks.assign index group).group index = some group := Function.update_self ..

theorem Marks.group_assign_of_ne (marks : Marks) {index index' : Nat} (group : Group)
    (other : index' ≠ index) : (marks.assign index group).group index' = marks.group index' :=
  Function.update_of_ne other ..

namespace Roster

/-- The arming was issued. -/
def Known (seat : Name → Seat σ) (tag : Tag) : Prop :=
  seat tag.name ≠ .unborn ∧ ∀ count body, seat tag.name = .alive count body → tag.count ≤ count

/-- The arming is the last one of a waiter that is alive. -/
def Current (seat : Name → Seat σ) (tag : Tag) : Prop :=
  ∃ body, seat tag.name = .alive tag.count body

/-- Nobody of the group was made. -/
def Unmade (seat : Name → Seat σ) (group : Group) : Prop :=
  ∀ index, seat (group.member index) = .unborn

theorem isCurrent_iff {seat : Name → Seat σ} {tag : Tag} :
    isCurrent seat tag = true ↔ Current seat tag := by
  unfold isCurrent Current
  cases seat tag.name with
  | unborn => simp
  | alive count body => simp
  | gone => simp

theorem Current.known {seat : Name → Seat σ} {tag : Tag} (current : Current seat tag) :
    Known seat tag := by
  obtain ⟨body, alive⟩ := current
  refine ⟨fun unborn => ?_, fun count body' alive' => ?_⟩
  · cases alive.symm.trans unborn
  · cases alive.symm.trans alive'
    exact Nat.le_refl _

/-- A waiter has one last arming. -/
theorem eq_of_alive {seat : Name → Seat σ} {tag tag' : Tag} {body body' : Option (Body σ)}
    (alive : seat tag.name = .alive tag.count body)
    (alive' : seat tag'.name = .alive tag'.count body') (same : tag.name = tag'.name) :
    tag = tag' := by
  obtain ⟨name, count⟩ := tag
  obtain ⟨name', count'⟩ := tag'
  cases same
  cases (Seat.alive.inj (alive.symm.trans alive')).1
  rfl

theorem current_of_update {seat : Name → Seat σ} (new : Tag) {tag : Tag} {body : Option (Body σ)}
    (current : Current (Function.update seat new.name (.alive new.count body)) tag)
    (other : tag ≠ new) : Current seat tag := by
  obtain ⟨body', alive⟩ := current
  by_cases same : tag.name = new.name
  · rw [same, Function.update_self] at alive
    obtain ⟨name, count⟩ := tag
    obtain ⟨name', count'⟩ := new
    cases same
    cases alive
    exact absurd rfl other
  · rw [Function.update_of_ne same] at alive
    exact ⟨body', alive⟩

/-- Nobody becomes unborn, and nobody's armings become fewer. -/
def Grows (seat seat' : Name → Seat σ) : Prop :=
  ∀ name, seat name ≠ .unborn → seat' name ≠ .unborn ∧
    ∀ count' body', seat' name = .alive count' body' →
      ∃ count body, seat name = .alive count body ∧ count ≤ count'

theorem Known.mono {seat seat' : Name → Seat σ} {tag : Tag} (known : Known seat tag)
    (grows : Grows seat seat') : Known seat' tag := by
  obtain ⟨born, bound⟩ := known
  obtain ⟨born', counts⟩ := grows tag.name born
  refine ⟨born', fun count' body' alive' => ?_⟩
  obtain ⟨count, body, alive, le⟩ := counts count' body' alive'
  exact Nat.le_trans (bound count body alive) le

theorem grows_claim {seat : Name → Seat σ} {name : Name} {count count' : Nat}
    {body : Option (Body σ)} (body' : Option (Body σ)) (alive : seat name = .alive count body) (le : count ≤ count') :
    Grows seat (Function.update seat name (.alive count' body')) := by
  intro other born
  by_cases same : other = name
  · subst same
    rw [Function.update_self]
    refine ⟨nofun, fun count'' body'' alive'' => ?_⟩
    cases alive''
    exact ⟨count, body, alive, le⟩
  · rw [Function.update_of_ne same]
    exact ⟨born, fun count' body' alive' => ⟨count', body', alive', Nat.le_refl _⟩⟩

theorem grows_bear {seat : Name → Seat σ} {name : Name} (unborn : seat name = .unborn)
    (next : Seat σ) : Grows seat (Function.update seat name next) := by
  intro other born
  by_cases same : other = name
  · subst same
    exact absurd unborn born
  · rw [Function.update_of_ne same]
    exact ⟨born, fun count' body' alive' => ⟨count', body', alive', Nat.le_refl _⟩⟩

theorem grows_drop (seat : Name → Seat σ) (name : Name) :
    Grows seat (Function.update seat name .gone) := by
  intro other born
  by_cases same : other = name
  · subst same
    rw [Function.update_self]
    exact ⟨nofun, nofun⟩
  · rw [Function.update_of_ne same]
    exact ⟨born, fun count' body' alive' => ⟨count', body', alive', Nat.le_refl _⟩⟩

end Roster

open Roster

/-- What the table says about whom a waiter owes its completion. -/
inductive Owes (joins : Nat → Option JoinGroup) (marks : Marks) (outstanding : Group → List Nat) :
    Name → Option Continuation → Prop where
  | nobody {index : Nat} : Owes joins marks outstanding (.root index) none
  | caller {group : Group} {index : Nat} {caller : Arming}
      (tagged : marks.tag caller = some group.caller)
      (only : outstanding group = [index]) :
      Owes joins marks outstanding (group.member index) (some (.resume caller))
  | join {group : Group} {index key : Nat} {open_ : JoinGroup}
      (assigned : marks.group key = some group) (found : joins key = some open_)
      (tagged : marks.tag open_.caller = some group.caller)
      (counted : open_.remaining = (outstanding group).length)
      (listed : index ∈ outstanding group) :
      Owes joins marks outstanding (group.member index) (some (.join key))

/-- The table and the seats of the roster agree. The ledger lists the armings by their tokens. -/
structure Seats (ledger : List Tag) (t : WaiterTable (Body σ)) (marks : Marks)
    (seat : Name → Seat σ) (outstanding : Group → List Nat) : Prop where
  wellFormed : t.WellFormed
  length : ledger.length = t.lastToken
  entered : ∀ {a tag}, marks.tag a = some tag →
    0 < a.token ∧ ledger[a.token - 1]? = some tag ∧ Known seat tag
  injective : ∀ {a a' tag}, marks.tag a = some tag → marks.tag a' = some tag → a = a'
  lineage : ∀ (group : Group) index, seat (group.member index) ≠ .unborn →
    Known seat group.caller
  groups : ∀ {key group}, marks.group key = some group → Known seat group.caller
  separate : ∀ {key key' group}, marks.group key = some group →
    marks.group key' = some group → key = key'
  held : ∀ {slot waiter}, t.waiter? slot = some waiter →
    ∃ tag, marks.tag ⟨slot, waiter.token⟩ = some tag ∧
      seat tag.name = .alive tag.count waiter.body ∧
      Owes t.join? marks outstanding tag.name waiter.parent
  seated : ∀ {name count body}, seat name = .alive count body →
    ∃ slot waiter, t.waiter? slot = some waiter ∧
      marks.tag ⟨slot, waiter.token⟩ = some ⟨name, count⟩

theorem Group.member_inj {group group' : Group} {index index' : Nat}
    (same : group.member index = group'.member index') : group = group' ∧ index = index' := by
  obtain ⟨⟨name, count⟩, place⟩ := group
  obtain ⟨⟨name', count'⟩, place'⟩ := group'
  simp only [member, Name.member.injEq] at same
  obtain ⟨rfl, rfl, rfl, rfl⟩ := same
  exact ⟨rfl, rfl⟩

namespace Owes

variable {joins joins' : Nat → Option JoinGroup} {marks marks' : Marks}
  {outstanding outstanding' : Group → List Nat} {name : Name} {parent : Option Continuation}

/-- What is owed depends on the groups of the waiter alone. -/
theorem frame (owes : Owes joins marks outstanding name parent)
    (tags : ∀ a tag, marks.tag a = some tag → marks'.tag a = some tag)
    (counts : ∀ group index, name = group.member index → outstanding' group = outstanding group)
    (keys : ∀ key group index, name = group.member index → marks.group key = some group →
      joins key ≠ none → marks'.group key = some group ∧ joins' key = joins key) :
    Owes joins' marks' outstanding' name parent := by
  cases owes with
  | nobody => exact .nobody
  | caller tagged only => exact .caller (tags _ _ tagged) ((counts _ _ rfl).trans only)
  | join assigned found tagged counted listed =>
      obtain ⟨assigned', same⟩ := keys _ _ _ rfl assigned (by rw [found]; exact nofun)
      have kept := counts _ _ rfl
      refine .join assigned' (same.trans found) (tags _ _ tagged) ?_ ?_
      · rw [kept]
        exact counted
      · rw [kept]
        exact listed

/-- A waiter of a group that owes its completion is outstanding. -/
theorem outstanding_of_member (owes : Owes joins marks outstanding name parent) {group : Group}
    {index : Nat} (member : name = group.member index) : index ∈ outstanding group := by
  cases owes with
  | nobody => cases member
  | caller tagged only =>
      obtain ⟨rfl, rfl⟩ := Group.member_inj member
      rw [only]
      exact List.mem_singleton_self _
  | join assigned found tagged counted listed =>
      obtain ⟨rfl, rfl⟩ := Group.member_inj member
      exact listed

/-- Where another waiter of the group is outstanding, the group is that of a join. -/
theorem join_of_member (owes : Owes joins marks outstanding name parent) {group : Group}
    {index other : Nat} (member : name = group.member index) (listed : other ∈ outstanding group)
    (apart : other ≠ index) :
    ∃ key open_, parent = some (.join key) ∧ marks.group key = some group ∧
      joins key = some open_ ∧ marks.tag open_.caller = some group.caller := by
  cases owes with
  | nobody => cases member
  | caller tagged only =>
      obtain ⟨rfl, rfl⟩ := Group.member_inj member
      rw [only, List.mem_singleton] at listed
      exact absurd listed apart
  | join assigned found tagged counted listed =>
      obtain ⟨rfl, rfl⟩ := Group.member_inj member
      exact ⟨_, _, rfl, assigned, found, tagged⟩

end Owes

namespace Seats

variable {ledger : List Tag} {t : WaiterTable (Body σ)} {marks : Marks}
  {seat : Name → Seat σ} {outstanding : Group → List Nat}
  (h : Seats ledger t marks seat outstanding)

include h

/-! ## Live armings -/

theorem token_le {a : Arming} {tag : Tag} (tagged : marks.tag a = some tag) :
    a.token ≤ t.lastToken := by
  obtain ⟨positive, entered, -⟩ := h.entered tagged
  obtain ⟨bound, -⟩ := List.getElem?_eq_some_iff.mp entered
  rw [h.length] at bound
  omega

theorem tag_of_fresh {slot : Nat} : marks.tag ⟨slot, t.lastToken + 1⟩ = none := by
  cases tagged : marks.tag ⟨slot, t.lastToken + 1⟩ with
  | none => rfl
  | some tag => exact absurd (h.token_le tagged) (Nat.not_succ_le_self _)

/-- Armings that have a name keep it when a fresh one gets another. -/
theorem tag_issue {slot : Nat} {next : Tag} (a : Arming) (tag : Tag)
    (tagged : marks.tag a = some tag) :
    (marks.issue ⟨slot, t.lastToken + 1⟩ next).tag a = some tag := by
  have other : a ≠ ⟨slot, t.lastToken + 1⟩ := by
    rintro rfl
    exact absurd (h.tag_of_fresh.symm.trans tagged) nofun
  exact (marks.tag_issue_of_ne next other).trans tagged

theorem entered_issue {slot : Nat} {next : Tag} {seat' : Name → Seat σ} (grows : Grows seat seat')
    (known : Known seat' next) {a : Arming} {tag : Tag}
    (tagged : (marks.issue ⟨slot, t.lastToken + 1⟩ next).tag a = some tag) :
    0 < a.token ∧ (ledger ++ [next])[a.token - 1]? = some tag ∧ Known seat' tag := by
  by_cases fresh : a = ⟨slot, t.lastToken + 1⟩
  · subst fresh
    rw [Marks.tag_issue_self] at tagged
    cases tagged
    refine ⟨Nat.succ_pos _, ?_, known⟩
    rw [Nat.add_sub_cancel, ← h.length]
    exact List.getElem?_concat_length
  · rw [Marks.tag_issue_of_ne _ _ fresh] at tagged
    obtain ⟨positive, entered, known'⟩ := h.entered tagged
    obtain ⟨bound, -⟩ := List.getElem?_eq_some_iff.mp entered
    exact ⟨positive, (List.getElem?_append_left bound).trans entered, known'.mono grows⟩

theorem injective_issue {slot : Nat} {next : Tag} (unknown : ∀ a, marks.tag a ≠ some next)
    {a a' : Arming} {tag : Tag}
    (tagged : (marks.issue ⟨slot, t.lastToken + 1⟩ next).tag a = some tag)
    (tagged' : (marks.issue ⟨slot, t.lastToken + 1⟩ next).tag a' = some tag) : a = a' := by
  by_cases fresh : a = ⟨slot, t.lastToken + 1⟩
  · subst fresh
    rw [Marks.tag_issue_self] at tagged
    cases tagged
    by_cases fresh' : a' = ⟨slot, t.lastToken + 1⟩
    · exact fresh'.symm
    · rw [Marks.tag_issue_of_ne _ _ fresh'] at tagged'
      exact absurd tagged' (unknown a')
  · rw [Marks.tag_issue_of_ne _ _ fresh] at tagged
    by_cases fresh' : a' = ⟨slot, t.lastToken + 1⟩
    · subst fresh'
      rw [Marks.tag_issue_self] at tagged'
      cases tagged'
      exact absurd tagged (unknown a)
    · rw [Marks.tag_issue_of_ne _ _ fresh'] at tagged'
      exact h.injective tagged tagged'

theorem alive_of_found {slot : Nat} {waiter : Waiter (Body σ)} {tag : Tag}
    (found : t.waiter? slot = some waiter) (tagged : marks.tag ⟨slot, waiter.token⟩ = some tag) :
    seat tag.name = .alive tag.count waiter.body ∧
      Owes t.join? marks outstanding tag.name waiter.parent := by
  obtain ⟨tag', tagged', alive, owes⟩ := h.held found
  cases tagged.symm.trans tagged'
  exact ⟨alive, owes⟩

theorem found_of_alive {a : Arming} {tag : Tag} {body : Option (Body σ)}
    (tagged : marks.tag a = some tag) (alive : seat tag.name = .alive tag.count body) :
    ∃ waiter, t.waiter? a.slot = some waiter ∧ waiter.token = a.token ∧ waiter.body = body := by
  obtain ⟨slot, waiter, found, tagged'⟩ := h.seated alive
  obtain rfl := h.injective tagged' tagged
  refine ⟨waiter, found, rfl, ?_⟩
  obtain ⟨alive', -⟩ := h.alive_of_found found tagged
  rw [alive] at alive'
  cases alive'
  rfl

/-- The live armings are the current ones. -/
theorem live_iff {a : Arming} {tag : Tag} (tagged : marks.tag a = some tag) :
    t.isLive a = true ↔ Current seat tag := by
  rw [WaiterTable.isLive_iff]
  constructor
  · rintro ⟨waiter, found, current⟩
    have tagged' : marks.tag ⟨a.slot, waiter.token⟩ = some tag := by
      rw [current]
      exact tagged
    exact ⟨waiter.body, (h.alive_of_found found tagged').1⟩
  · rintro ⟨body, alive⟩
    obtain ⟨waiter, found, current, -⟩ := h.found_of_alive tagged alive
    exact ⟨waiter, found, current⟩

/-! ## Other waiters -/

/-- Waiters in different slots have different names. -/
theorem name_ne {slot slot' token token' : Nat} {tag tag' : Tag} {body body' : Option (Body σ)}
    (alive : seat tag.name = .alive tag.count body) (tagged : marks.tag ⟨slot, token⟩ = some tag)
    (alive' : seat tag'.name = .alive tag'.count body')
    (tagged' : marks.tag ⟨slot', token'⟩ = some tag') (apart : slot' ≠ slot) :
    tag'.name ≠ tag.name := by
  intro same
  obtain rfl := eq_of_alive alive' alive same
  exact apart (congrArg Arming.slot (h.injective tagged' tagged))

/-- The armings by which waiters were made stay known when the seat of a waiter that is alive
changes. -/
theorem lineage_update {tag : Tag} {body : Option (Body σ)} {place : Seat σ}
    (alive : seat tag.name = .alive tag.count body)
    (grows : Grows seat (Function.update seat tag.name place)) (group : Group) (index : Nat)
    (born : Function.update seat tag.name place (group.member index) ≠ .unborn) :
    Known (Function.update seat tag.name place) group.caller := by
  refine (h.lineage group index fun unborn => born ?_).mono grows
  by_cases same : group.member index = tag.name
  · rw [same, alive] at unborn
    cases unborn
  · rw [Function.update_of_ne same]
    exact unborn

omit h in
/-- Waiters of different names are in different slots. -/
theorem slot_ne {slot slot' count : Nat} {waiter waiter' : Waiter (Body σ)} {tag : Tag} {name : Name}
    (found : t.waiter? slot = some waiter) (tagged : marks.tag ⟨slot, waiter.token⟩ = some tag)
    (found' : t.waiter? slot' = some waiter')
    (tagged' : marks.tag ⟨slot', waiter'.token⟩ = some ⟨name, count⟩) (apart : name ≠ tag.name) :
    slot' ≠ slot := by
  rintro rfl
  cases found.symm.trans found'
  cases tagged.symm.trans tagged'
  exact apart rfl

/-! ## Resuming -/

theorem claim {slot : Nat} {waiter : Waiter (Body σ)} {tag : Tag}
    (found : t.waiter? slot = some waiter) (tagged : marks.tag ⟨slot, waiter.token⟩ = some tag) :
    Seats (ledger ++ [tag.next])
      ({ t with lastToken := t.lastToken + 1 }.modify slot fun w =>
        { w with body := none, token := t.lastToken + 1, subscriptions := [] })
      (marks.issue ⟨slot, t.lastToken + 1⟩ tag.next)
      (Function.update seat tag.name (.alive (tag.count + 1) none)) outstanding := by
  obtain ⟨alive, owed⟩ := h.alive_of_found found tagged
  have grows := grows_claim none alive (Nat.le_succ tag.count)
  have table (x : Nat) := WaiterTable.waiter?_modify { t with lastToken := t.lastToken + 1 } slot
    (fun w => { w with body := none, token := t.lastToken + 1, subscriptions := [] }) x
  have unknown : ∀ a, marks.tag a ≠ some tag.next := by
    intro a tagged'
    have bound := (h.entered tagged').2.2.2 _ _ alive
    exact absurd bound (Nat.not_succ_le_self _)
  have known : Known (Function.update seat tag.name (.alive (tag.count + 1) none)) tag.next :=
    Current.known ⟨none, Function.update_self ..⟩
  refine ⟨(h.wellFormed.setToken _).modify slot _, ?_, h.entered_issue grows known,
    h.injective_issue unknown, ?_, fun assigned => (h.groups assigned).mono grows, h.separate,
    ?_, ?_⟩
  · rw [List.length_append, h.length]
    rfl
  · exact h.lineage_update alive grows
  · intro x waiter' found'
    rw [table] at found'
    by_cases here : slot = x
    · subst here
      rw [if_pos rfl, show ({ t with lastToken := t.lastToken + 1 } : WaiterTable (Body σ)).waiter?
        slot = _ from found] at found'
      cases found'
      refine ⟨tag.next, Marks.tag_issue_self .., Function.update_self .., ?_⟩
      exact owed.frame h.tag_issue (fun _ _ _ => rfl) fun _ _ _ _ assigned _ => ⟨assigned, rfl⟩
    · rw [if_neg here] at found'
      obtain ⟨tag', tagged', alive', owed'⟩ := h.held found'
      refine ⟨tag', h.tag_issue _ _ tagged', ?_, ?_⟩
      · rw [Function.update_of_ne (h.name_ne alive tagged alive' tagged' (Ne.symm here))]
        exact alive'
      · exact owed'.frame h.tag_issue (fun _ _ _ => rfl) fun _ _ _ _ assigned _ => ⟨assigned, rfl⟩
  · intro name count body alive'
    by_cases same : name = tag.name
    · subst same
      rw [Function.update_self] at alive'
      cases alive'
      refine ⟨slot, { waiter with body := none, token := t.lastToken + 1, subscriptions := [] }, ?_,
        Marks.tag_issue_self ..⟩
      rw [table, if_pos rfl, show ({ t with lastToken := t.lastToken + 1 } :
        WaiterTable (Body σ)).waiter? slot = _ from found]
      rfl
    · rw [Function.update_of_ne same] at alive'
      obtain ⟨x, waiter', found', tagged'⟩ := h.seated alive'
      refine ⟨x, waiter', ?_, h.tag_issue _ _ tagged'⟩
      rw [table, if_neg (slot_ne found tagged found' tagged' same).symm]
      exact found'

/-- A change to a waiter that keeps its token and whom it owes changes its body at most. -/
theorem modify {slot : Nat} {waiter : Waiter (Body σ)} {tag : Tag}
    (found : t.waiter? slot = some waiter) (tagged : marks.tag ⟨slot, waiter.token⟩ = some tag)
    (f : Waiter (Body σ) → Waiter (Body σ)) (token : (f waiter).token = waiter.token)
    (parent : (f waiter).parent = waiter.parent) :
    Seats ledger (t.modify slot f) marks
      (Function.update seat tag.name (.alive tag.count (f waiter).body)) outstanding := by
  obtain ⟨alive, owed⟩ := h.alive_of_found found tagged
  have grows := grows_claim (f waiter).body alive (Nat.le_refl tag.count)
  have table (x : Nat) := WaiterTable.waiter?_modify t slot f x
  refine ⟨h.wellFormed.modify slot f, h.length, fun tagged' => ?_, h.injective, ?_,
    fun assigned => (h.groups assigned).mono grows, h.separate, ?_, ?_⟩
  · obtain ⟨positive, entered, known⟩ := h.entered tagged'
    exact ⟨positive, entered, known.mono grows⟩
  · exact h.lineage_update alive grows
  · intro x waiter' found'
    rw [table] at found'
    by_cases here : slot = x
    · subst here
      rw [if_pos rfl, found] at found'
      cases found'
      refine ⟨tag, ?_, Function.update_self .., ?_⟩
      · rw [token]
        exact tagged
      · rw [parent]
        exact owed
    · rw [if_neg here] at found'
      obtain ⟨tag', tagged', alive', owed'⟩ := h.held found'
      refine ⟨tag', tagged', ?_, owed'⟩
      rw [Function.update_of_ne (h.name_ne alive tagged alive' tagged' (Ne.symm here))]
      exact alive'
  · intro name count body alive'
    by_cases same : name = tag.name
    · subst same
      rw [Function.update_self] at alive'
      cases alive'
      refine ⟨slot, f waiter, ?_, ?_⟩
      · rw [table, if_pos rfl, found]
        rfl
      · rw [token]
        exact tagged
    · rw [Function.update_of_ne same] at alive'
      obtain ⟨x, waiter', found', tagged'⟩ := h.seated alive'
      refine ⟨x, waiter', ?_, tagged'⟩
      rw [table, if_neg (slot_ne found tagged found' tagged' same).symm]
      exact found'

/-! ## Making waiters -/

theorem bear {name : Name} {parent : Option Continuation} (title : String) (body : Body σ)
    (unborn : seat name = .unborn)
    (lineage : ∀ group index, name = Group.member group index → Known seat group.caller)
    (owes : Owes t.join? marks outstanding name parent) :
    Seats (ledger ++ [⟨name, 0⟩]) (t.insert title body parent).2 (marks.issue t.upcoming ⟨name, 0⟩)
      (Function.update seat name (.alive 0 (some body))) outstanding := by
  have grows := grows_bear unborn (.alive 0 (some body))
  have table (x : Nat) := h.wellFormed.waiter?_insert title body parent x
  have joins := funext fun key => WaiterTable.join?_insert t title body parent key
  have unknown : ∀ a, marks.tag a ≠ some ⟨name, 0⟩ :=
    fun a tagged => (h.entered tagged).2.2.1 unborn
  have known : Known (Function.update seat name (.alive 0 (some body))) ⟨name, 0⟩ :=
    Current.known ⟨some body, Function.update_self ..⟩
  refine ⟨h.wellFormed.insert title body parent, ?_, h.entered_issue grows known,
    h.injective_issue unknown, ?_, fun assigned => (h.groups assigned).mono grows, h.separate,
    ?_, ?_⟩
  · rw [List.length_append, h.length, WaiterTable.lastToken_insert]
    rfl
  · intro group index born
    by_cases same : group.member index = name
    · exact (lineage group index same.symm).mono grows
    · rw [Function.update_of_ne same] at born
      exact (h.lineage group index born).mono grows
  · intro x waiter' found'
    rw [table] at found'
    by_cases here : x = t.upcoming.slot
    · subst here
      rw [if_pos rfl] at found'
      cases found'
      refine ⟨⟨name, 0⟩, Marks.tag_issue_self .., Function.update_self .., ?_⟩
      rw [joins]
      exact owes.frame h.tag_issue (fun _ _ _ => rfl) fun _ _ _ _ assigned _ => ⟨assigned, rfl⟩
    · rw [if_neg here] at found'
      obtain ⟨tag', tagged', alive', owed'⟩ := h.held found'
      refine ⟨tag', h.tag_issue _ _ tagged', ?_, ?_⟩
      · have other : tag'.name ≠ name := by
          rintro rfl
          cases alive'.symm.trans unborn
        rw [Function.update_of_ne other]
        exact alive'
      · rw [joins]
        exact owed'.frame h.tag_issue (fun _ _ _ => rfl) fun _ _ _ _ assigned _ => ⟨assigned, rfl⟩
  · intro name' count body' alive'
    by_cases same : name' = name
    · subst same
      rw [Function.update_self] at alive'
      cases alive'
      exact ⟨t.upcoming.slot, _, (table _).trans (if_pos rfl), Marks.tag_issue_self ..⟩
    · rw [Function.update_of_ne same] at alive'
      obtain ⟨x, waiter', found', tagged'⟩ := h.seated alive'
      refine ⟨x, waiter', ?_, h.tag_issue _ _ tagged'⟩
      have elsewhere : x ≠ t.upcoming.slot := by
        rintro rfl
        cases h.wellFormed.waiter?_upcoming.symm.trans found'
      rw [table, if_neg elsewhere]
      exact found'

/-- The outstanding waiters of a group to which nobody alive belongs are free to change. -/
theorem updateOutstanding {group : Group} (indices : List Nat)
    (elsewhere : ∀ {name count body parent}, seat name = .alive count body →
      Owes t.join? marks outstanding name parent → ∀ index, name ≠ group.member index) :
    Seats ledger t marks seat (Function.update outstanding group indices) := by
  refine ⟨h.wellFormed, h.length, h.entered, h.injective, h.lineage, h.groups, h.separate, ?_,
    h.seated⟩
  intro slot waiter found
  obtain ⟨tag, tagged, alive, owed⟩ := h.held found
  refine ⟨tag, tagged, alive, owed.frame (fun _ _ same => same) ?_
    fun _ _ _ _ assigned _ => ⟨assigned, rfl⟩⟩
  intro group' index member
  have other : group' ≠ group := by
    rintro rfl
    exact elsewhere alive owed index member
  exact Function.update_of_ne other ..

theorem setOutstanding {group : Group} (unmade : Unmade seat group) (indices : List Nat) :
    Seats ledger t marks seat (Function.update outstanding group indices) := by
  refine h.updateOutstanding indices fun alive _ index member => ?_
  rw [member, unmade index] at alive
  cases alive

theorem openJoin {group : Group} (known : Known seat group.caller)
    (unopened : ∀ key, marks.group key ≠ some group) (count : Nat) (caller : Arming) :
    Seats ledger (t.openJoin count caller).2 (marks.assign t.upcomingJoin group) seat
      outstanding := by
  obtain ⟨lastToken, waiters⟩ := t.openJoin_kept count caller
  have joins := h.wellFormed.join?_openJoin count caller
  refine ⟨h.wellFormed.openJoin count caller, h.length.trans lastToken.symm, h.entered,
    h.injective, h.lineage, ?_, ?_, ?_, ?_⟩
  · intro key group' assigned
    by_cases here : key = t.upcomingJoin
    · subst here
      rw [Marks.group_assign_self] at assigned
      cases assigned
      exact known
    · rw [Marks.group_assign_of_ne _ _ here] at assigned
      exact h.groups assigned
  · intro key key' group' assigned assigned'
    by_cases here : key = t.upcomingJoin
    · subst here
      rw [Marks.group_assign_self] at assigned
      cases assigned
      by_cases here' : key' = t.upcomingJoin
      · exact here'.symm
      · rw [Marks.group_assign_of_ne _ _ here'] at assigned'
        exact absurd assigned' (unopened key')
    · rw [Marks.group_assign_of_ne _ _ here] at assigned
      by_cases here' : key' = t.upcomingJoin
      · subst here'
        rw [Marks.group_assign_self] at assigned'
        cases assigned'
        exact absurd assigned (unopened key)
      · rw [Marks.group_assign_of_ne _ _ here'] at assigned'
        exact h.separate assigned assigned'
  · intro slot waiter found
    rw [waiters] at found
    obtain ⟨tag, tagged, alive, owed⟩ := h.held found
    refine ⟨tag, tagged, alive, owed.frame (fun _ _ same => same) (fun _ _ _ => rfl) ?_⟩
    intro key group' index _ assigned present
    have elsewhere : key ≠ t.upcomingJoin := by
      rintro rfl
      exact present h.wellFormed.join?_upcomingJoin
    rw [Marks.group_assign_of_ne _ _ elsewhere, joins, if_neg elsewhere]
    exact ⟨assigned, rfl⟩
  · intro name count' body alive
    obtain ⟨slot, waiter, found, tagged⟩ := h.seated alive
    exact ⟨slot, waiter, (waiters slot).trans found, tagged⟩

/-! ## Leaving -/

theorem drop {slot : Nat} {waiter : Waiter (Body σ)} {tag : Tag}
    (found : t.waiter? slot = some waiter) (tagged : marks.tag ⟨slot, waiter.token⟩ = some tag) :
    Seats ledger (t.remove slot).2 marks (Function.update seat tag.name .gone) outstanding := by
  obtain ⟨alive, -⟩ := h.alive_of_found found tagged
  have grows := grows_drop seat tag.name
  have table (x : Nat) := WaiterTable.waiter?_remove t slot x
  have joins := funext fun key => WaiterTable.join?_remove t slot key
  refine ⟨h.wellFormed.remove slot, h.length.trans (WaiterTable.lastToken_remove t slot).symm,
    fun tagged' => ?_, h.injective, ?_, fun assigned => (h.groups assigned).mono grows, h.separate,
    ?_, ?_⟩
  · obtain ⟨positive, entered, known⟩ := h.entered tagged'
    exact ⟨positive, entered, known.mono grows⟩
  · exact h.lineage_update alive grows
  · intro x waiter' found'
    rw [table] at found'
    by_cases here : x = slot
    · rw [if_pos here] at found'
      cases found'
    · rw [if_neg here] at found'
      obtain ⟨tag', tagged', alive', owed'⟩ := h.held found'
      refine ⟨tag', tagged', ?_, ?_⟩
      · rw [Function.update_of_ne (h.name_ne alive tagged alive' tagged' here)]
        exact alive'
      · rw [joins]
        exact owed'
  · intro name count body alive'
    by_cases same : name = tag.name
    · subst same
      rw [Function.update_self] at alive'
      cases alive'
    · rw [Function.update_of_ne same] at alive'
      obtain ⟨x, waiter', found', tagged'⟩ := h.seated alive'
      refine ⟨x, waiter', ?_, tagged'⟩
      rw [table, if_neg (slot_ne found tagged found' tagged' same)]
      exact found'

/-- The only waiter of a group has left. -/
theorem settle_caller {group : Group} {index : Nat} (only : outstanding group = [index])
    (left : ∀ count body, seat (group.member index) ≠ .alive count body) :
    Seats ledger t marks seat (Function.update outstanding group []) := by
  refine h.updateOutstanding [] fun alive owed index' member => ?_
  have listed := owed.outstanding_of_member member
  rw [only, List.mem_singleton] at listed
  rw [member, listed] at alive
  exact left _ _ alive

/-- A branch of a join has left; the last one gives out the caller. -/
theorem settle_join {group : Group} {key index : Nat} {open_ : JoinGroup}
    (assigned : marks.group key = some group) (found : t.join? key = some open_)
    (counted : open_.remaining = (outstanding group).length) (listed : index ∈ outstanding group)
    (left : ∀ count body, seat (group.member index) ≠ .alive count body) :
    Seats ledger (t.completeBranch key).2 marks seat
        (Function.update outstanding group ((outstanding group).erase index)) ∧
      (t.completeBranch key).1 =
        if (outstanding group).erase index = [] then some open_.caller else none := by
  obtain ⟨lastToken, waiters⟩ := t.completeBranch_kept key
  have length := List.length_erase_of_mem listed
  have positive := List.length_pos_of_mem listed
  have settled (joins : ∀ x, x ≠ key → (t.completeBranch key).2.join? x = t.join? x)
      (next : (outstanding group).erase index ≠ [] → (t.completeBranch key).2.join? key =
        some { open_ with remaining := open_.remaining - 1 }) :
      Seats ledger (t.completeBranch key).2 marks seat
        (Function.update outstanding group ((outstanding group).erase index)) := by
    refine ⟨h.wellFormed.completeBranch key, h.length.trans lastToken.symm, h.entered, h.injective,
      h.lineage, h.groups, h.separate, ?_, ?_⟩
    · intro slot waiter found'
      rw [waiters] at found'
      obtain ⟨tag, tagged, alive, owed⟩ := h.held found'
      refine ⟨tag, tagged, alive, ?_⟩
      by_cases member : ∃ index', tag.name = group.member index'
      · -- a sibling, which shares the group that is counted down
        obtain ⟨index', member⟩ := member
        have apart : index' ≠ index := by
          rintro rfl
          rw [member] at alive
          exact left _ _ alive
        have still : index' ∈ (outstanding group).erase index :=
          (List.mem_erase_of_ne apart).mpr (owed.outstanding_of_member member)
        obtain ⟨key', open', parent, assigned', found'', tagged'⟩ :=
          owed.join_of_member member listed apart.symm
        obtain rfl := h.separate assigned assigned'
        cases found.symm.trans found''
        rw [member, parent]
        refine .join assigned (next (List.ne_nil_of_mem still)) tagged' ?_ ?_
        · rw [Function.update_self, length, counted]
        · rw [Function.update_self]
          exact still
      · refine owed.frame (fun _ _ same => same) ?_ ?_
        · intro group' index' member'
          have other : group' ≠ group := by
            rintro rfl
            exact member ⟨index', member'⟩
          exact Function.update_of_ne other ..
        · intro key' group' index' member' assigned' _
          refine ⟨assigned', joins key' ?_⟩
          rintro rfl
          cases assigned.symm.trans assigned'
          exact member ⟨index', member'⟩
    · intro name count body alive
      obtain ⟨slot, waiter, found', tagged⟩ := h.seated alive
      exact ⟨slot, waiter, (waiters slot).trans found', tagged⟩
  by_cases last : (outstanding group).erase index = []
  · have le : open_.remaining ≤ 1 := by
      rw [last, List.length_nil] at length
      omega
    obtain ⟨given, table⟩ := WaiterTable.completeBranch_of_le found le
    rw [if_pos last]
    exact ⟨settled (fun x other => (table x).trans (if_neg other)) fun more => absurd last more,
      given⟩
  · have lt : 1 < open_.remaining := by
      have more := List.length_pos_iff.mpr last
      omega
    obtain ⟨given, table⟩ := WaiterTable.completeBranch_of_lt found lt
    rw [if_neg last]
    exact ⟨settled (fun x other => (table x).trans (if_neg other))
      fun _ => (table key).trans (if_pos rfl), given⟩

end Seats

end DeltaCycle
