import DeltaCycle.Clause
import DeltaCycle.Config
import DeltaCycle.Diagnostic

/-!
# The kernel

The kernel owns the signals of a design and knows which of them are derived from
others. Signals are declared first; while a simulation runs, its processes read
committed values and propose new ones, and every write marks its signal as pending
for the next update phase.
-/

set_option autoImplicit false

namespace DeltaCycle

/-- One operand of a concatenation. -/
inductive ConcatPart where
  /-- A signal, followed as it changes. -/
  | signal (signal : SignalId)
  /-- A constant. -/
  | literal (value : Value)
deriving Repr, DecidableEq, Inhabited

/-- How a shadow signal follows from others. -/
inductive ShadowRule where
  /-- The slice `[hi:lo]` of a vector. -/
  | slice (parent : SignalId) (hi lo : Nat)
  /-- A bit of a vector. -/
  | bit (parent : SignalId) (index : Nat)
  /-- The parts joined, the most significant first. -/
  | concat (parts : List ConcatPart)
  /-- The one driver that is not high impedance. -/
  | tristate (drivers : List SignalId)
deriving Repr, DecidableEq, Inhabited

/-- A signal that follows from others. -/
structure Shadow where
  target : SignalId
  rule : ShadowRule
deriving Repr, DecidableEq, Inhabited

/-- The signals of a design with everything that writes to them leave behind. -/
structure Kernel where
  signals : Array Signal := #[]
  /-- Signals written since the last update phase, once for each write and the last
  write first. -/
  pending : List SignalId := []
  now : Nat := 0
  shadows : List Shadow := []
  /-- The reason that the first process gave for stopping. -/
  stopRequest : Option String := none
  contention : ContentionPolicy := .warn
  diagnostics : DiagnosticLog := {}
deriving Repr, DecidableEq, Inhabited

namespace Kernel

/-! ## Looking up -/

/-- The signal behind a handle. -/
def signal? (k : Kernel) (id : SignalId) : Option Signal := k.signals[id.index]?

/-- The signal behind a handle, or the error that the handle is unknown. -/
def lookup (k : Kernel) (id : SignalId) : Except SimError Signal :=
  match k.signal? id with
  | some s => .ok s
  | none => .error (.unknownSignal id.index)

/-- The committed value. -/
def val? (k : Kernel) (id : SignalId) : Option Value := (k.signal? id).map (·.val)

/-- The committed value, or the error that the handle is unknown. -/
def val (k : Kernel) (id : SignalId) : Except SimError Value := (k.lookup id).map (·.val)

/-- The name of a signal. -/
def name (k : Kernel) (id : SignalId) : String :=
  match k.signal? id with
  | some s => s.name
  | none => "<unknown>"

/-- The first signal of this name. -/
def find? (k : Kernel) (name : String) : Option SignalId :=
  (k.signals.findIdx? (·.name == name)).map SignalId.mk

/-- The number of signals. -/
def size (k : Kernel) : Nat := k.signals.size

/-- All handles in order of creation. -/
def ids (k : Kernel) : List SignalId := (List.range k.size).map SignalId.mk

/-- Changes the signal behind a handle, if there is one. -/
def modify (k : Kernel) (id : SignalId) (f : Signal → Signal) : Kernel :=
  { k with signals := k.signals.modify id.index f }

/-! ## Declaring signals -/

/-- Adds a signal at the end. -/
def register (k : Kernel) (s : Signal) : SignalId × Kernel :=
  (⟨k.size⟩, { k with signals := k.signals.push s })

/-- Declares a signal; a delay makes it inertial. -/
def declare (k : Kernel) (name : String) (init : Value) (delay : Option Nat) :
    SignalId × Kernel :=
  k.register (.ofInit name init delay)

/-- Declares a signal that follows from others by the given rule. -/
def declareShadow (k : Kernel) (s : Signal) (rule : ShadowRule) : SignalId × Kernel :=
  let (target, k) := k.register { s with shadow := true }
  (target, { k with shadows := k.shadows ++ [⟨target, rule⟩] })

/-- The vector that a signal holds, for declaring parts of it. -/
def parentBits (k : Kernel) (parent : SignalId) : Except SimError Bits :=
  match k.lookup parent with
  | .error e => .error e
  | .ok s =>
      let refusal : Except SimError Bits :=
        .error (.unsupported s!"signal '{s.name}' holding {s.val.kind.text} cannot be sliced")
      match s.val with
      | .bits b => if b.width = 0 then refusal else .ok b
      | _ => refusal

/-- Declares the slice `[hi:lo]` of a vector signal. -/
def declareSlice (k : Kernel) (name : String) (parent : SignalId) (hi lo : Nat) :
    Except SimError (SignalId × Kernel) :=
  match k.parentBits parent with
  | .error e => .error e
  | .ok b =>
      if b.width < hi then
        .error (.invalidArgument s!"slice [{hi}:{lo}] exceeds the {b.width}-bit parent")
      else
        match b.slice hi lo with
        | .error cause => .error (.ofValueError cause)
        | .ok init => .ok (k.declareShadow (.ofInit name (.bits init) none) (.slice parent hi lo))

/-- Declares bit `index` of a vector signal. -/
def declareBit (k : Kernel) (name : String) (parent : SignalId) (index : Nat) :
    Except SimError (SignalId × Kernel) :=
  match k.parentBits parent with
  | .error e => .error e
  | .ok b =>
      if b.width ≤ index then
        .error (.invalidArgument s!"bit {index} of a {b.width}-bit parent")
      else
        match b.bit index with
        | .error cause => .error (.ofValueError cause)
        | .ok init => .ok (k.declareShadow (.ofInit name (.bool init) none) (.bit parent index))

/-- The committed value of a part. -/
def partValue (k : Kernel) : ConcatPart → Except SimError Value
  | .signal id => k.val id
  | .literal v => .ok v

/-- The committed values of all parts, or the error of the first that has none. -/
def partValues (k : Kernel) : List ConcatPart → Except SimError (List Value)
  | [] => .ok []
  | part :: rest =>
      match k.partValue part with
      | .error e => .error e
      | .ok v => (k.partValues rest).map (v :: ·)

/-- Whether a part follows a signal. -/
def isSignalPart : ConcatPart → Bool
  | .signal _ => true
  | .literal _ => false

/-- Declares the concatenation of parts, the most significant first. -/
def declareConcat (k : Kernel) (name : String) (parts : List ConcatPart) :
    Except SimError (SignalId × Kernel) :=
  if parts.any isSignalPart then
    match k.partValues parts with
    | .error e => .error e
    | .ok values =>
        match Value.concat values with
        | .error cause => .error (.ofValueError cause)
        | .ok init => .ok (k.declareShadow (.ofInit name (.bits init) none) (.concat parts))
  else
    .error (.invalidArgument "concatenation needs at least one signal")

/-- Declares a bus that accepts what the template fixes and starts out floating. -/
def declareTristate (k : Kernel) (name : String) (template : Value) : SignalId × Kernel :=
  k.declareShadow (.ofKind name .highZ template.kind none) (.tristate [])

/-- Whether a shadow is the bus behind a handle. -/
def isBus (bus : SignalId) (s : Shadow) : Bool :=
  match s.rule with
  | .tristate _ => s.target == bus
  | _ => false

/-- The shadow with one more driver. -/
def addDriver (driver : SignalId) (s : Shadow) : Shadow :=
  match s.rule with
  | .tristate drivers => { s with rule := .tristate (drivers ++ [driver]) }
  | _ => s

/-- Declares a driver of a bus, floating at first. -/
def declareDriver (k : Kernel) (bus : SignalId) (name : String) :
    Except SimError (SignalId × Kernel) :=
  match k.lookup bus with
  | .error e => .error e
  | .ok s =>
      match k.shadows.findIdx? (isBus bus) with
      | none => .error (.invalidArgument s!"signal '{s.name}' is not a tristate bus")
      | some index =>
          let (driver, k) := k.register (.ofKind name .highZ s.kind none)
          .ok (driver, { k with shadows := k.shadows.modify index (addDriver driver) })

/-! ## Proposing values -/

/-- What a write of a value proposes, unless it is refused. Shadow signals take values from
their own rule only, and signals that do not start out floating take high impedance from
such a rule only. -/
def proposal (k : Kernel) (id : SignalId) (value : Value) (fromRule : Bool) :
    Except SimError Value :=
  match k.lookup id with
  | .error e => .error e
  | .ok s =>
      if s.shadow && !fromRule then
        .error (.readOnly s.name)
      else if value.isHighZ && !fromRule && !s.init.isHighZ then
        .error (.typeMismatch s.name s.kind.text "Z")
      else
        (s.kind.coerce value).mapError (.onSignal s.name)

/-- Marks a signal as pending. -/
def mark (k : Kernel) (id : SignalId) : Kernel := { k with pending := id :: k.pending }

/-- Writes a value, unless it is refused. -/
def write (k : Kernel) (id : SignalId) (value : Value) (fromRule : Bool) :
    Kernel × Except SimError Unit :=
  match k.proposal id value fromRule with
  | .error e => (k, .error e)
  | .ok next => ((k.modify id fun s => { s with next }).mark id, .ok ())

/-- Proposes a value from a process. -/
def setNext (k : Kernel) (id : SignalId) (value : Value) : Kernel × Except SimError Unit :=
  k.write id value false

/-- The proposed value; reading it marks the signal as pending. -/
def next? (k : Kernel) (id : SignalId) : Option (Value × Kernel) :=
  (k.signal? id).map fun s => (s.next, k.mark id)

/-- Proposes what `change` makes of the proposed value, which counts as read. -/
def changeNext (k : Kernel) (id : SignalId) (change : Value → Except ValueError Value) :
    Kernel × Except SimError Unit :=
  match k.next? id with
  | none => (k, .error (.unknownSignal id.index))
  | some (current, k) =>
      match change current with
      | .error cause => (k, .error (.onSignal (k.name id) cause))
      | .ok value => k.setNext id value

/-- Proposes another bit of a vector signal. -/
def setNextBit (k : Kernel) (id : SignalId) (index : Nat) (bit : Bool) :
    Kernel × Except SimError Unit :=
  k.changeNext id (·.withBit index bit)

/-- Proposes another slice `[hi:lo]` of a vector signal. -/
def setNextSlice (k : Kernel) (id : SignalId) (hi lo : Nat) (content : Int) :
    Kernel × Except SimError Unit :=
  k.changeNext id (·.withSlice hi lo content)

/-- Asks for the end of the simulation after this delta cycle; the first reason stays. -/
def finish (k : Kernel) (reason : String) : Kernel :=
  { k with stopRequest := some (k.stopRequest.getD reason) }

/-- Records a diagnostic. -/
def emit (k : Kernel) (d : Diagnostic) : Kernel :=
  { k with diagnostics := k.diagnostics.emit d }

/-- The kernel at the start of time, with every signal at its initial value and without
waiters. Diagnostics remain. -/
def reset (k : Kernel) : Kernel :=
  { k with signals := k.signals.map Signal.reset, pending := [], now := 0, stopRequest := none }

end Kernel

end DeltaCycle
