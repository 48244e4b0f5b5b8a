import DeltaCycle.Signal

/-!
# The waiter table

Waiters live in slots that are reused. A waiter sits in several wait lists at once
when it waits for the first of several things; each entry carries the token of the
arming, and resuming the waiter gives it a fresh token, which makes all other entries
of that arming stale. Tokens are never reused.

A waiter may owe its completion to another one: either to the waiter that spawned it,
or to a join group, which counts the branches that have not completed.
-/

set_option autoImplicit false

namespace DeltaCycle

/-- Who is notified when a waiter completes. -/
inductive Continuation where
  /-- The arming that spawned the waiter becomes ready. -/
  | resume (caller : Arming)
  /-- A join group counts down. -/
  | join (group : Nat)
deriving Repr, DecidableEq, Inhabited

/-- A waiter: a body that is absent while it runs, the token of its current arming,
and the signals in whose wait lists that arming sits, the last one first. -/
structure Waiter (β : Type) where
  name : String
  body : Option β
  token : Nat
  parent : Option Continuation
  subscriptions : List SignalId := []
deriving Repr, DecidableEq

/-- A join: the branches that have not completed, and the arming that waits for them. -/
structure JoinGroup where
  remaining : Nat
  caller : Arming
deriving Repr, DecidableEq, Inhabited

/-- Waiters and join groups in reusable slots. -/
structure WaiterTable (β : Type) where
  slots : Array (Option (Waiter β)) := #[]
  /-- Empty slots, the one to be reused first at the head. -/
  free : List Nat := []
  joins : Array (Option JoinGroup) := #[]
  freeJoins : List Nat := []
  /-- The last token given out. -/
  lastToken : Nat := 0
  /-- The number of waiters. -/
  live : Nat := 0
deriving Repr, DecidableEq

instance (β : Type) : Inhabited (WaiterTable β) := ⟨{}⟩

namespace WaiterTable

variable {β : Type}

/-- Adds a waiter and arms it for the first time. -/
def insert (t : WaiterTable β) (name : String) (body : β) (parent : Option Continuation) :
    Arming × WaiterTable β :=
  let token := t.lastToken + 1
  let waiter : Waiter β := { name, body := some body, token, parent }
  match t.free with
  | slot :: free =>
      (⟨slot, token⟩,
        { t with slots := t.slots.setIfInBounds slot (some waiter), free, lastToken := token,
                 live := t.live + 1 })
  | [] =>
      (⟨t.slots.size, token⟩,
        { t with slots := t.slots.push (some waiter), lastToken := token, live := t.live + 1 })

/-- The waiter in a slot. -/
def waiter? (t : WaiterTable β) (slot : Nat) : Option (Waiter β) := (t.slots[slot]?).join

/-- Changes the waiter in a slot. -/
def modify (t : WaiterTable β) (slot : Nat) (f : Waiter β → Waiter β) : WaiterTable β :=
  { t with slots := t.slots.modify slot (Option.map f) }

/-- Whether an arming is the current one of its waiter. -/
def isLive (t : WaiterTable β) (a : Arming) : Bool :=
  match t.waiter? a.slot with
  | some waiter => waiter.token == a.token
  | none => false

/-- Claims an arming that fired: the waiter gets a fresh arming and gives out its body
and the signals whose wait lists may hold stale entries. A stale arming claims nothing,
and neither does one whose waiter runs. -/
def consume (t : WaiterTable β) (a : Arming) :
    Option (Arming × β × List SignalId) × WaiterTable β :=
  if t.isLive a then
    let token := t.lastToken + 1
    let t := { t with lastToken := token }
    match t.waiter? a.slot with
    | some { body := some body, subscriptions, .. } =>
        (some (⟨a.slot, token⟩, body, subscriptions),
          t.modify a.slot fun w => { w with body := none, token, subscriptions := [] })
    | _ => (none, t)
  else
    (none, t)

/-- Puts the body back after a run. -/
def restore (t : WaiterTable β) (slot : Nat) (body : β) : WaiterTable β :=
  t.modify slot fun w => { w with body := some body }

/-- Records that the current arming of a waiter sits in the wait lists of a signal. -/
def noteSubscription (t : WaiterTable β) (slot : Nat) (signal : SignalId) : WaiterTable β :=
  t.modify slot fun w => { w with subscriptions := signal :: w.subscriptions }

/-- Removes a waiter and tells who is notified of its completion. -/
def remove (t : WaiterTable β) (slot : Nat) : Option Continuation × WaiterTable β :=
  match t.waiter? slot with
  | some waiter =>
      (waiter.parent,
        { t with slots := t.slots.setIfInBounds slot none, free := slot :: t.free, live := t.live - 1 })
  | none => (none, t)

/-- The name of the waiter in a slot. -/
def name (t : WaiterTable β) (slot : Nat) : String :=
  match t.waiter? slot with
  | some waiter => waiter.name
  | none => "<finished>"

/-- Opens a join group that notifies the caller after `count` completions. -/
def openJoin (t : WaiterTable β) (count : Nat) (caller : Arming) : Nat × WaiterTable β :=
  let group : JoinGroup := { remaining := count, caller }
  match t.freeJoins with
  | index :: freeJoins =>
      (index, { t with joins := t.joins.setIfInBounds index (some group), freeJoins })
  | [] => (t.joins.size, { t with joins := t.joins.push (some group) })

/-- Counts a join group down; the last branch closes the group and gives out its caller. -/
def completeBranch (t : WaiterTable β) (index : Nat) : Option Arming × WaiterTable β :=
  match (t.joins[index]?).join with
  | some group =>
      if 1 < group.remaining then
        let group := { group with remaining := group.remaining - 1 }
        (none, { t with joins := t.joins.setIfInBounds index (some group) })
      else
        (some group.caller,
          { t with joins := t.joins.setIfInBounds index none, freeJoins := index :: t.freeJoins })
  | none => (none, t)

/-- The number of waiters that have not completed. -/
def size (t : WaiterTable β) : Nat := t.live

/-- The table without waiters and groups; tokens are not given out again. -/
def drain (t : WaiterTable β) : WaiterTable β := { lastToken := t.lastToken }

end WaiterTable

end DeltaCycle
