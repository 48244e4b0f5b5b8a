import DeltaCycle.Timescale
import DeltaCycle.Toml.Reader

/-!
# Simulation settings

Settings are read from a TOML document with three optional sections. Every setting
has a default, and no other key is allowed. A section may also be given as an array
of its settings in order, where later ones may be missing and surplus ones are
ignored. What was read is then validated.
-/

set_option autoImplicit false

namespace DeltaCycle

/-- What happens when several drivers assert one bus. -/
inductive ContentionPolicy where
  /-- The bus floats, with a warning. -/
  | warn
  /-- The run fails. -/
  | fail
deriving Repr, DecidableEq, Inhabited

/-- Delta cycles allowed in one tick unless the settings say otherwise. -/
def defaultMaxDeltas : Nat := 10000

/-- Settings of the run loop. -/
structure RunSettings where
  maxDeltas : Nat := defaultMaxDeltas
  /-- Duration of a run that is given none. -/
  duration : Option Nat := none
  quiet : Bool := false
  timescale : Timescale := default
deriving Repr, DecidableEq, Inhabited

/-- Which committed changes reach the trace hook. -/
structure TraceSettings where
  enabled : Bool := false
  /-- The traced names; with none, every signal is traced. -/
  signals : List String := []
deriving Repr, DecidableEq, Inhabited

/-- All settings of a simulation. -/
structure Config where
  simulation : RunSettings := {}
  contention : ContentionPolicy := .warn
  trace : TraceSettings := {}
deriving Repr, DecidableEq, Inhabited

/-- Whether the settings trace a signal of this name. -/
def TraceSettings.includes (t : TraceSettings) (name : String) : Bool :=
  t.enabled && (t.signals.isEmpty || t.signals.contains name)

/-- Why settings that could be read are not accepted. -/
inductive ConfigFault where
  | noDeltas
  | noDuration
  | signalsWithoutTrace
deriving Repr, DecidableEq

/-- Why there are no settings. -/
inductive ConfigError where
  /-- The file cannot be read. -/
  | unreadable
  /-- The text is no document, or the document does not describe settings. -/
  | malformed
  | invalid (fault : ConfigFault)
deriving Repr, DecidableEq

namespace ConfigFault

/-- The full wording. -/
def message : ConfigFault → String
  | noDeltas => "validation error: simulation.max_deltas must be positive"
  | noDuration => "validation error: simulation.duration must be positive when given"
  | signalsWithoutTrace => "validation error: trace.signals given but trace.enabled is false"

end ConfigFault

namespace Config

open Toml (Item Entries)

/-! ## Reading single settings -/

/-- A natural number below the bound. -/
def natBelow? (bound : Nat) : Item → Option Nat
  | .integer n => if 0 ≤ n ∧ n < bound then some n.toNat else none
  | _ => none

/-- A truth value. -/
def boolean? : Item → Option Bool
  | .boolean b => some b
  | _ => none

/-- A text. -/
def string? : Item → Option String
  | .string s => some s
  | _ => none

/-- A timescale. -/
def timescale? (item : Item) : Option Timescale := do
  Timescale.ofChars? (← string? item).toList

/-- The policy of this name. -/
def policyNamed? : String → Option ContentionPolicy
  | "warn" => some .warn
  | "error" => some .fail
  | _ => none

/-- A policy, given by its name or as the only key of a table around something empty. -/
def policy? : Item → Option ContentionPolicy
  | .string name => policyNamed? name
  | .table _ [(name, .table _ [])] => policyNamed? name
  | .table _ [(name, .array [])] => policyNamed? name
  | _ => none

/-- Names, given as one text or as an array of texts. -/
def names? : Item → Option (List String)
  | .string name => some [name]
  | .array elements => elements.mapM string?
  | _ => none

/-! ## Reading sections -/

/-- The settings of a section in the order of `keys`, absent ones included. -/
def settings? (keys : List String) : Item → Option (List (Option Item))
  | .table _ entries =>
      if entries.all (keys.contains ·.1) then some (keys.map (Toml.lookup? entries)) else none
  | .array elements => some ((List.range keys.length).map (elements[·]?))
  | .tables elements =>
      some ((List.range keys.length).map fun i => elements[i]?.map (.table .header))
  | _ => none

/-- The reading of a setting, or the default where it is absent. -/
def orDefault {α : Type} (read : Item → Option α) (default : α) : Option Item → Option α
  | some item => read item
  | none => some default

/-- The settings of the run loop. -/
def runSettings? (item : Item) : Option RunSettings := do
  match ← settings? ["max_deltas", "duration", "quiet", "timescale"] item with
  | [maxDeltas, duration, quiet, timescale] =>
      return {
        maxDeltas := ← orDefault (natBelow? (Nat.pow 2 32)) defaultMaxDeltas maxDeltas
        duration := ← orDefault (fun item => (natBelow? (Nat.pow 2 64) item).map some) none duration
        quiet := ← orDefault boolean? false quiet
        timescale := ← orDefault timescale? default timescale }
  | _ => none

/-- The policy on bus contention. -/
def resolution? (item : Item) : Option ContentionPolicy := do
  match ← settings? ["contention"] item with
  | [contention] => orDefault policy? .warn contention
  | _ => none

/-- The settings of the trace. -/
def traceSettings? (item : Item) : Option TraceSettings := do
  match ← settings? ["enabled", "signals"] item with
  | [enabled, signals] =>
      return {
        enabled := ← orDefault boolean? false enabled
        signals := ← orDefault names? [] signals }
  | _ => none

/-- The settings that a document describes. -/
def ofEntries? (entries : Entries) : Option Config := do
  match ← settings? ["simulation", "resolution", "trace"] (.table .header entries) with
  | [simulation, resolution, trace] =>
      return {
        simulation := ← orDefault runSettings? {} simulation
        contention := ← orDefault resolution? .warn resolution
        trace := ← orDefault traceSettings? {} trace }
  | _ => none

/-- The first fault of the settings. -/
def fault? (c : Config) : Option ConfigFault :=
  if c.simulation.maxDeltas = 0 then some .noDeltas
  else if c.simulation.duration = some 0 then some .noDuration
  else if !c.trace.enabled && !c.trace.signals.isEmpty then some .signalsWithoutTrace
  else none

/-- Reads and validates settings. -/
def parse (text : String) : Except ConfigError Config :=
  match (Toml.parse? text).bind ofEntries? with
  | none => .error .malformed
  | some config =>
      match config.fault? with
      | some fault => .error (.invalid fault)
      | none => .ok config

/-- What a settings file turned out to be. -/
inductive Source where
  | missing
  /-- There is something that is no file of text. -/
  | unreadable
  | text (content : String)
deriving Repr, DecidableEq

/-- The settings in a file; without a file they are the defaults. -/
def load : Source → Except ConfigError Config
  | .missing => .ok {}
  | .unreadable => .error .unreadable
  | .text content => parse content

end Config

end DeltaCycle
