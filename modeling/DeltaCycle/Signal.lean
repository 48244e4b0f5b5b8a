import DeltaCycle.Value

/-!
# Signals

A signal has a committed value, which everybody reads, and a proposed value, which
writes change. The update phase of a delta cycle commits the proposed value. A
commit that changes the value wakes the waiters on any change and those on the edge
that occurred, and empties their lists.

An inertial signal commits later: its update phase hands out the proposed value with
a stamp, and that value is committed when it comes due unless another value was
proposed meanwhile, which moves the stamp on.
-/

set_option autoImplicit false

namespace DeltaCycle

/-- The handle of a signal: its place in the order of creation. -/
structure SignalId where
  index : Nat
deriving Repr, DecidableEq, Hashable, Inhabited

/-- The direction of an edge. -/
inductive EdgeKind where
  /-- From low to high. -/
  | rising
  /-- From high to low. -/
  | falling
deriving Repr, DecidableEq, Inhabited

/-- An edge of one signal. -/
structure Edge where
  signal : SignalId
  kind : EdgeKind
deriving Repr, DecidableEq, Inhabited

/-- How a signal is driven; recorded for others, without effect here. -/
inductive Drive where
  | reg
  | wire
deriving Repr, DecidableEq, Inhabited

/-- One arming of a waiter: its slot, and the token that tells this arming from all
others. -/
structure Arming where
  slot : Nat
  token : Nat
deriving Repr, DecidableEq, Inhabited

/-- The armings that wait on a signal, in each list the last one first. -/
structure WaitLists where
  /-- Woken by any change. -/
  event : List Arming := []
  rising : List Arming := []
  falling : List Arming := []
deriving Repr, DecidableEq, Inhabited

namespace WaitLists

/-- All armings in the lists. -/
def all (w : WaitLists) : List Arming := w.event ++ w.rising ++ w.falling

/-- Keeps the armings that satisfy a condition. -/
def retain (w : WaitLists) (keep : Arming → Bool) : WaitLists where
  event := w.event.filter keep
  rising := w.rising.filter keep
  falling := w.falling.filter keep

end WaitLists

/-- What an inertial signal remembers. -/
structure Inertia where
  delay : Nat
  /-- Grows when an update phase finds another value proposed than the one before. -/
  stamp : Nat := 0
  /-- The value proposed at the last update phase. -/
  lastNext : Value
deriving Repr, DecidableEq, Inhabited

/-- A signal. -/
structure Signal where
  name : String
  /-- The committed value. -/
  val : Value
  /-- The proposed value. -/
  next : Value
  /-- The value at the start. -/
  init : Value
  kind : Kind
  inertia : Option Inertia := none
  /-- Whether the signal is derived from others and closed to writes. -/
  shadow : Bool := false
  traced : Bool := true
  driven : Option Drive := none
  read : Bool := false
  waits : WaitLists := {}
deriving Repr, DecidableEq, Inhabited

/-- What an update phase or a due value does to a signal. -/
inductive Commit where
  /-- The committed value stays. -/
  | unchanged
  /-- The committed value changed, and the woken armings become ready: those that wait
  for any change first, each kind in the order in which they were armed. -/
  | changed (old : Value) (woken : List Arming)
  /-- The value is to be committed `delay` ticks from now. -/
  | deferred (delay : Nat) (value : Value) (stamp : Nat)
deriving Repr, DecidableEq, Inhabited

namespace Signal

/-- A new signal of the given kind, inertial if there is a delay. -/
def ofKind (name : String) (init : Value) (kind : Kind) (delay : Option Nat) : Signal where
  name
  val := init
  next := init
  init
  kind
  inertia := delay.map fun delay => { delay, lastNext := init }

/-- A new signal whose kind is that of its initial value. -/
def ofInit (name : String) (init : Value) (delay : Option Nat) : Signal :=
  ofKind name init init.kind delay

/-- Commits a value. -/
def apply (s : Signal) (new : Value) : Signal × Commit :=
  if s.val.same new then
    (s, .unchanged)
  else if !s.val.truthy && new.truthy then
    ({ s with val := new, waits := { s.waits with event := [], rising := [] } },
      .changed s.val (s.waits.event.reverse ++ s.waits.rising.reverse))
  else if s.val.truthy && !new.truthy then
    ({ s with val := new, waits := { s.waits with event := [], falling := [] } },
      .changed s.val (s.waits.event.reverse ++ s.waits.falling.reverse))
  else
    ({ s with val := new, waits := { s.waits with event := [] } },
      .changed s.val s.waits.event.reverse)

/-- The update phase. -/
def update (s : Signal) : Signal × Commit :=
  match s.inertia with
  | none => s.apply s.next
  | some inertia =>
      let stamp := if s.next.same inertia.lastNext then inertia.stamp else inertia.stamp + 1
      ({ s with inertia := some { inertia with stamp, lastNext := s.next } },
        .deferred inertia.delay s.next stamp)

/-- Commits a value that came due, unless the stamp has moved on. -/
def applyDeferred (s : Signal) (value : Value) (stamp : Nat) : Signal × Commit :=
  match s.inertia with
  | some inertia => if inertia.stamp = stamp then s.apply value else (s, .unchanged)
  | none => (s, .unchanged)

/-- The signal at the start, without waiters. -/
def reset (s : Signal) : Signal :=
  { s with
    val := s.init
    next := s.init
    inertia := s.inertia.map fun inertia => { inertia with stamp := 0, lastNext := s.init }
    waits := {} }

end Signal

end DeltaCycle
