import Mathlib
import DeltaCycle.Proofs.Alternatives

/-!
# The roster

The books of a simulation tell waiters by slots and tokens, which depend on the order in which
waiters come and go. The roster tells them by names, which do not: a waiter is one of those
that the simulation was built with, or it was made by a certain arming of a certain waiter. It
records, for each waiter, how often it was armed and what it will run, and for each arming
what it waits for and whether that has come about.
-/

set_option autoImplicit false

namespace DeltaCycle

/-- The name of a waiter. -/
inductive Name where
  /-- One of those with which the simulation was built. -/
  | root (index : Nat)
  /-- The waiter number `index` that the arming number `count` of the caller made for the
  alternative at the given place. -/
  | member (caller : Name) (count place index : Nat)
deriving Repr, DecidableEq, Inhabited

/-- An arming by the name of its waiter; the first one of each waiter has number zero. -/
structure Tag where
  name : Name
  count : Nat
deriving Repr, DecidableEq, Inhabited

/-- The next arming of the same waiter. -/
def Tag.next (tag : Tag) : Tag := ⟨tag.name, tag.count + 1⟩

/-- The waiters that an arming made for one alternative. -/
structure Group where
  caller : Tag
  place : Nat
deriving Repr, DecidableEq, Inhabited

/-- A waiter of a group. -/
def Group.member (group : Group) (index : Nat) : Name :=
  .member group.caller.name group.caller.count group.place index

/-- Where a waiter stands. -/
inductive Seat (σ : Type) where
  | unborn
  /-- It was armed so many times after its first arming; the body is absent while it runs. -/
  | alive (count : Nat) (body : Option (Body σ))
  | gone

/-- What a waiter did when it was resumed, and on what it was armed. -/
inductive Deed (σ : Type) where
  | completed
  | waiting (body : Body σ) (alternatives : List (Alternative σ))
  /-- It failed, possibly after it had been armed on some alternatives. -/
  | failed (alternatives : List (Alternative σ))

/-- Whether a change is what a trigger waits for. -/
def Trigger.firedBy (change : Change) : Trigger → Bool
  | event signal => signal == change.signal
  | edge ⟨signal, .rising⟩ => signal == change.signal && !change.old.truthy && change.new.truthy
  | edge ⟨signal, .falling⟩ => signal == change.signal && change.old.truthy && !change.new.truthy

/-- The body of a waiter that stands for a branch of a join. -/
def Clause.branchBody {σ : Type} : Clause σ → Body σ
  | spawn child => .process child
  | clause => .branch (some clause)

namespace Alternative

variable {σ : Type}

/-- The trigger, if the alternative is one. -/
def trigger? : Alternative σ → Option Trigger
  | trigger t => some t
  | _ => none

/-- The tick at which the alternative comes due, if it is armed now. -/
def due? (now : Nat) : Alternative σ → Option Nat
  | delay ticks => some (now + ticks)
  | noop => some now
  | _ => none

/-- The bodies of the waiters that the alternative makes. -/
def bodies : Alternative σ → List (Body σ)
  | spawn child => [.process child]
  | join clauses => clauses.map Clause.branchBody
  | _ => []

/-- Whether a waiter can be armed on the alternative. -/
def isAccepted (kernel : Kernel) : Alternative σ → Bool
  | trigger t => (kernel.signal? t.signal).isSome
  | delay ticks => kernel.now + ticks ≤ lastTick
  | refused _ => false
  | _ => true

/-- The first armings of the waiters that the alternative at a place makes. -/
def issues (me : Tag) (place : Nat) (alternative : Alternative σ) : List Tag :=
  (List.range alternative.bodies.length).map fun index => ⟨Group.member ⟨me, place⟩ index, 0⟩

/-- The first armings of the waiters that the alternatives from a place on make. -/
def issuesOfAll (me : Tag) (place : Nat) : List (Alternative σ) → List Tag
  | [] => []
  | alternative :: rest => alternative.issues me place ++ issuesOfAll me (place + 1) rest

end Alternative

/-- The deed that comes of an act. -/
def Act.deed {σ : Type} (kernel : Kernel) : Act σ → Deed σ
  | completes => .completed
  | fails _ => .failed []
  | waits body alternatives =>
      if alternatives.all (·.isAccepted kernel) then .waiting body alternatives
      else .failed (alternatives.takeWhile (·.isAccepted kernel))

/-- Whether the waiter failed. -/
def Deed.isFailure {σ : Type} : Deed σ → Bool
  | failed _ => true
  | _ => false

/-- The alternatives on which a waiter was armed. -/
def Deed.alternatives {σ : Type} : Deed σ → List (Alternative σ)
  | completed => []
  | waiting _ alternatives => alternatives
  | failed alternatives => alternatives

/-- The roster of a simulation. -/
structure Roster (σ : Type) where
  seat : Name → Seat σ := fun _ => .unborn
  /-- The armings for which an alternative has come about. -/
  fired : Tag → Bool := fun _ => false
  triggers : Tag → List Trigger := fun _ => []
  /-- The waiters of a group that have not completed. -/
  outstanding : Group → List Nat := fun _ => []
  /-- Who is due at which tick. -/
  wakes : Multiset (Nat × Tag) := 0

namespace Roster

variable {σ : Type}

/-! ## Firing -/

/-- Whether an arming is the last one of a waiter that is alive. -/
def isCurrent (seat : Name → Seat σ) (tag : Tag) : Bool :=
  match seat tag.name with
  | .alive count _ => count == tag.count
  | _ => false

/-- An alternative of an arming has come about. -/
def notify (r : Roster σ) (tag : Tag) : Roster σ :=
  { r with fired := Function.update r.fired tag true }

/-- A change fires all armings that wait for it. -/
def fire (r : Roster σ) (change : Change) : Roster σ :=
  { r with
    fired := fun tag =>
      r.fired tag || (isCurrent r.seat tag && (r.triggers tag).any (·.firedBy change)) }

/-- An entry of the queue is taken. -/
def wake (r : Roster σ) (time : Nat) (tag : Tag) : Roster σ :=
  { r.notify tag with wakes := r.wakes.erase (time, tag) }

/-! ## Turns -/

/-- A waiter begins to run. -/
def claim (r : Roster σ) (tag : Tag) : Roster σ :=
  { r with
    seat := Function.update r.seat tag.name (.alive (tag.count + 1) none)
    fired := Function.update r.fired tag.next false
    triggers := Function.update r.triggers tag.next [] }

/-- A waiter gets a body for its next run. -/
def restore (r : Roster σ) (tag : Tag) (body : Body σ) : Roster σ :=
  { r with seat := Function.update r.seat tag.name (.alive tag.count (some body)) }

/-- A waiter is made, ready for its first run. -/
def bear (r : Roster σ) (name : Name) (body : Body σ) : Roster σ :=
  { r with
    seat := Function.update r.seat name (.alive 0 (some body))
    fired := Function.update r.fired ⟨name, 0⟩ true
    triggers := Function.update r.triggers ⟨name, 0⟩ [] }

/-- Waiters of a group are made, with numbers from `index` on. -/
def bearAll (r : Roster σ) (group : Group) (index : Nat) : List (Body σ) → Roster σ
  | [] => r
  | body :: rest => (r.bear (group.member index) body).bearAll group (index + 1) rest

/-- A group is opened, and its waiters are made. -/
def openGroup (r : Roster σ) (group : Group) (bodies : List (Body σ)) : Roster σ :=
  { r with
    outstanding := Function.update r.outstanding group (List.range bodies.length) }.bearAll
      group 0 bodies

/-- A waiter is armed on the alternative at a place. -/
def armOn (r : Roster σ) (now : Nat) (me : Tag) (place : Nat) : Alternative σ → Roster σ
  | .trigger t => { r with triggers := Function.update r.triggers me (r.triggers me ++ [t]) }
  | .delay ticks => { r with wakes := (now + ticks, me) ::ₘ r.wakes }
  | .noop => { r with wakes := (now, me) ::ₘ r.wakes }
  | .spawn child => r.openGroup ⟨me, place⟩ [.process child]
  | .join clauses => r.openGroup ⟨me, place⟩ (clauses.map Clause.branchBody)
  | .refused _ => r

/-- A waiter is armed on alternatives from a place on. -/
def armOnAll (r : Roster σ) (now : Nat) (me : Tag) (place : Nat) :
    List (Alternative σ) → Roster σ
  | [] => r
  | alternative :: rest => (r.armOn now me place alternative).armOnAll now me (place + 1) rest

/-- A waiter leaves. -/
def drop (r : Roster σ) (name : Name) : Roster σ :=
  { r with seat := Function.update r.seat name .gone }

/-- One of a group completes; the last one fires the arming that made the group. -/
def settleGroup (r : Roster σ) (group : Group) (index : Nat) : Roster σ :=
  let rest := (r.outstanding group).erase index
  let r := { r with outstanding := Function.update r.outstanding group rest }
  if rest = [] then r.notify group.caller else r

/-- A waiter completes. -/
def complete (r : Roster σ) : Name → Roster σ
  | .root index => r.drop (.root index)
  | .member caller count place index =>
      (r.drop (.member caller count place index)).settleGroup ⟨⟨caller, count⟩, place⟩ index

/-- What comes of the deed of a waiter that runs under an arming. -/
def settle (r : Roster σ) (now : Nat) (me : Tag) : Deed σ → Roster σ
  | .completed => r.complete me.name
  | .waiting body alternatives => (r.restore me body).armOnAll now me 0 alternatives
  | .failed alternatives => (r.armOnAll now me 0 alternatives).drop me.name

/-- A waiter is resumed under an arming and does something. -/
def turn (r : Roster σ) (now : Nat) (tag : Tag) (deed : Deed σ) : Roster σ :=
  (r.claim tag).settle now tag.next deed

end Roster

end DeltaCycle
