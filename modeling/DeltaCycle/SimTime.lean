import DeltaCycle.Text.Json
import DeltaCycle.Timescale

/-!
# Simulation time

A point in simulation time is a tick and the index of a delta cycle within it.
Points are ordered by tick first.
-/

set_option autoImplicit false

namespace DeltaCycle

/-- A tick and a delta cycle within it. -/
structure SimTime where
  ticks : Nat := 0
  delta : Nat := 0
deriving Repr, DecidableEq, Inhabited

namespace SimTime

/-- The start of the first tick. -/
def zero : SimTime := ⟨0, 0⟩

/-- The start of a tick. -/
def startOf (ticks : Nat) : SimTime := ⟨ticks, 0⟩

/-- The next delta cycle of the same tick. -/
def nextDelta (t : SimTime) : SimTime := { t with delta := t.delta + 1 }

/-- The start of a tick that is not earlier. -/
def advanceTo (_ : SimTime) (ticks : Nat) : SimTime := ⟨ticks, 0⟩

/-- The order of points in time. -/
def cmp (a b : SimTime) : Ordering := (compare a.ticks b.ticks).then (compare a.delta b.delta)

/-- The delta cycle after the tick, unless it is the first. -/
def deltaSuffix (t : SimTime) : String := if t.delta = 0 then "" else s!"+d{t.delta}"

/-- The point in ticks. -/
def text (t : SimTime) : String := toString t.ticks ++ t.deltaSuffix

/-- The point in the unit of a timescale. -/
def textIn (t : SimTime) (scale : Timescale) : String :=
  scale.formatTicks t.ticks ++ t.deltaSuffix

/-- The record form. -/
def toJson (t : SimTime) : Json :=
  .ofMembers [("ticks", .ofNat t.ticks), ("delta", .ofNat t.delta)]

end SimTime

end DeltaCycle
