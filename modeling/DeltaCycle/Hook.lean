import DeltaCycle.Kernel

/-!
# Trace hooks and bridges

A trace hook is told of every committed change of a traced signal, in the order of
commits. A bridge exchanges signal values with an external engine. Both act on the
world, and both may fail.
-/

set_option autoImplicit false

namespace DeltaCycle

/-- A committed change. -/
structure Change where
  time : Nat
  signal : SignalId
  name : String
  old : Value
  new : Value
deriving Repr, DecidableEq, Inhabited

/-- A traced signal at the start. -/
structure Traced where
  signal : SignalId
  name : String
  init : Value
deriving Repr, DecidableEq, Inhabited

/-- An observer of committed changes. -/
structure Hook (ω : Type) where
  /-- Called before the first delta cycle with all traced signals. -/
  start : List Traced → ω → ω × Except SimError Unit
  /-- Called for each committed change of a traced signal. -/
  change : Change → ω → ω × Except SimError Unit
  /-- Called when the simulation stops for good. -/
  finish : ω → ω × Except SimError Unit

/-- A connection to an external engine. -/
structure Bridge (ω : Type) where
  /-- Signals whose values are sent to the engine. -/
  outputs : List SignalId
  /-- Reads the values that the engine drives. -/
  receive : Nat → ω → ω × Except BridgeError (List (SignalId × Value))
  /-- Sends the values of the outputs. -/
  send : Nat → List (SignalId × Value) → ω → ω × Except BridgeError Unit
  /-- Shuts the connection down. -/
  close : ω → ω × Except BridgeError Unit

/-- A bridge in use. -/
structure Link (ω : Type) where
  bridge : Bridge ω
  /-- An output changed since the last send. -/
  changed : Bool := true
  /-- A send was made and its reply was not read yet. -/
  awaitingReply : Bool := false
  closed : Bool := false

namespace Link

variable {ω : Type}

/-- Closes the bridge, once. -/
def close (l : Link ω) (w : ω) : Link ω × ω × Except BridgeError Unit :=
  if l.closed then
    (l, w, .ok ())
  else
    let (w, result) := l.bridge.close w
    ({ l with closed := true }, w, result)

end Link

namespace Hook

variable {ω : Type}

/-- A hook that keeps every change in a part of the world. -/
def recording (add : Change → ω → ω) : Hook ω where
  start := fun _ w => (w, .ok ())
  change := fun c w => (add c w, .ok ())
  finish := fun w => (w, .ok ())

/-- Writes pieces of text one after the other, up to the first that fails. An empty
piece is not written. -/
def writeAll (write : String → ω → ω × Except SimError Unit) :
    List String → ω → ω × Except SimError Unit
  | [], w => (w, .ok ())
  | piece :: rest, w =>
      if piece.isEmpty then
        writeAll write rest w
      else
        match write piece w with
        | (w, .ok _) => writeAll write rest w
        | (w, .error e) => (w, .error e)

/-- A value in a line. Items of a declared enumeration always have a name. -/
def valueText (v : Value) : String := v.text?.getD ""

/-- The pieces of the line for a signal at the start. -/
def startLine (t : Traced) : List String := ["#0 ", t.name, " = ", valueText t.init, "\n"]

/-- The pieces of the line for a change. -/
def changeLine (c : Change) : List String :=
  ["#", toString c.time, " ", c.name, " ", valueText c.old, " -> ", valueText c.new, "\n"]

/-- A hook that writes a line for each traced signal and for each change, piece by
piece: where writing fails, the pieces before are written. -/
def lines (write : String → ω → ω × Except SimError Unit)
    (flush : ω → ω × Except SimError Unit) : Hook ω where
  start := fun traced w => writeAll write (traced.flatMap startLine) w
  change := fun c w => writeAll write (changeLine c) w
  finish := flush

end Hook

end DeltaCycle
