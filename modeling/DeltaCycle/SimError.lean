import DeltaCycle.Value.Error

/-!
# Simulation errors

Every way in which declaring signals, building a simulation or running it fails,
with a short label and the full wording.
-/

set_option autoImplicit false

namespace DeltaCycle

/-- Why a bridge to an external engine fails. -/
inductive BridgeError where
  /-- The transport failed. -/
  | transport (reason : String)
  /-- The engine sent something that cannot be interpreted. -/
  | garbled (reason : String)
deriving Repr, DecidableEq

namespace BridgeError

/-- The full wording. -/
def message : BridgeError → String
  | transport reason => s!"I/O error: {reason}"
  | garbled reason => s!"protocol error: {reason}"

end BridgeError

/-- Why an operation of a simulation fails. -/
inductive SimError where
  /-- A value of the wrong kind was written to a signal. -/
  | typeMismatch (signal expected found : String)
  /-- An integer outside the range of a signal was written to it. -/
  | outOfBounds (signal : String) (value min max : Int)
  /-- A delay was built from a negative number of ticks. -/
  | invalidDelay (ticks : Int)
  /-- A wait clause has no meaning. -/
  | malformedClause (reason : String)
  | invalidArgument (reason : String)
  /-- A signal that is derived from others was written. -/
  | readOnly (signal : String)
  | unsupported (reason : String)
  /-- Any other refusal of a value operation. -/
  | valueRefused (cause : ValueError)
  /-- Several drivers asserted a bus under the failing policy. -/
  | busContention (signal : String) (time drivers : Nat)
  | cosimulation (cause : BridgeError)
  /-- A trace hook failed to record. -/
  | trace (reason : String)
  /-- A tick took more delta cycles than allowed. -/
  | deltaCycleLimit (time maxDeltas : Nat)
  /-- A delay leads past the last tick. -/
  | timeOverflow (now delay : Nat)
  /-- The simulation has ended. -/
  | terminated
deriving Repr, DecidableEq

namespace SimError

/-- The short label of the error. -/
def label : SimError → String
  | typeMismatch .. => "TypeMismatch"
  | outOfBounds .. => "OutOfBounds"
  | invalidDelay _ => "InvalidDelay"
  | malformedClause _ | invalidArgument _ | readOnly _ | deltaCycleLimit .. | timeOverflow ..
  | terminated => "SimulationError"
  | unsupported _ => "Unsupported"
  | valueRefused _ => "ValueError"
  | busContention .. => "BusContention"
  | cosimulation _ => "CosimulationError"
  | trace _ => "TraceError"

/-- The full wording of the error. -/
def message : SimError → String
  | typeMismatch signal expected found =>
      s!"signal '{signal}': expected {expected}, found {found}"
  | outOfBounds signal value min max =>
      s!"signal '{signal}': value {value} out of range [{min}, {max})"
  | invalidDelay ticks => s!"delay must be non-negative, got {ticks}"
  | malformedClause reason => s!"malformed wait clause: {reason}"
  | invalidArgument reason => s!"invalid argument: {reason}"
  | readOnly signal => s!"signal '{signal}' is read-only"
  | unsupported reason => s!"unsupported: {reason}"
  | valueRefused cause => cause.message
  | busContention signal time drivers =>
      s!"bus contention on '{signal}' at {time}: {drivers} active drivers"
  | cosimulation cause => s!"cosimulation: {cause.message}"
  | trace reason => s!"trace I/O error: {reason}"
  | deltaCycleLimit time maxDeltas =>
      s!"delta cycle limit exceeded at {time} (max {maxDeltas} deltas)"
  | timeOverflow now delay => s!"delay of {delay} ticks at {now} overflows simulation time"
  | terminated => "simulation has terminated; call quit() before running again"

/-- Label and wording on one line. -/
def report (e : SimError) : String := e.label ++ ": " ++ e.message

/-- A refusal of a value operation away from any signal. -/
def ofValueError : ValueError → SimError
  | .unsupported reason => .unsupported reason
  | cause => .valueRefused cause

/-- A refusal of a value operation on the named signal. -/
def onSignal (signal : String) : ValueError → SimError
  | .typeMismatch expected found => .typeMismatch signal expected found
  | .outOfBounds value min max => .outOfBounds signal value min max
  | .unsupported reason => .unsupported s!"signal '{signal}': {reason}"
  | cause => .valueRefused cause

/-- A signal handle that the kernel did not give out. -/
def unknownSignal (index : Nat) : SimError :=
  .invalidArgument s!"unknown signal handle SignalId({index})"

/-- An alternative without alternatives. -/
def emptyAny : SimError := .malformedClause "empty tuple of wait clauses"

/-- A join without branches. -/
def emptyJoin : SimError := .malformedClause "join of no clauses"

/-- An always block that nothing can trigger. -/
def emptySensitivity (name : String) : SimError :=
  .malformedClause s!"always block '{name}' has an empty sensitivity list"

/-- A second bridge. -/
def secondBridge : SimError :=
  .invalidArgument "at most one cosimulation bridge per simulation"

end SimError

end DeltaCycle
