import DeltaCycle.Kernel

/-!
# Shadow signals

A shadow signal is recomputed whenever one of its sources changes, and the new value is
proposed like any other, so a shadow lags its sources by one delta cycle. While a source
floats, so does the shadow.
-/

set_option autoImplicit false

namespace DeltaCycle

namespace ShadowRule

/-- The word for the rule. -/
def label : ShadowRule → String
  | slice .. => "slice"
  | bit .. => "bit"
  | concat _ => "concat"
  | tristate _ => "tristate"

end ShadowRule

namespace ConcatPart

/-- The signal that a part follows. -/
def source? : ConcatPart → Option SignalId
  | signal id => some id
  | literal _ => none

end ConcatPart

namespace Shadow

/-- What a vector operation makes of the committed value of a signal; a floating signal
gives a floating result. -/
def derive (k : Kernel) (parent : SignalId) (f : Value → Except ValueError Value) :
    Except SimError Value :=
  match k.val parent with
  | .error e => .error e
  | .ok .highZ => .ok .highZ
  | .ok v => (f v).mapError .ofValueError

/-- The committed parts joined; a floating part gives a floating result. -/
def join (k : Kernel) (parts : List ConcatPart) : Except SimError Value :=
  match k.partValues parts with
  | .error e => .error e
  | .ok values =>
      if values.any Value.isHighZ then .ok .highZ
      else ((Value.concat values).map .bits).mapError .ofValueError

/-- The drivers that are not floating. -/
def asserted (k : Kernel) (drivers : List SignalId) : List Value :=
  (drivers.filterMap k.val?).filter fun v => !v.isHighZ

/-- The warning that several drivers assert a bus. -/
def contentionWarning (bus : String) (now drivers : Nat) : Diagnostic where
  severity := .warning
  code := .busContention
  message := s!"bus contention on '{bus}'"
  time := some now
  notes := [s!"{drivers} drivers active; bus floats"]

/-- The value of a bus: that of the one driver that asserts it. With none the bus floats;
with several it floats under a warning, or the resolution fails. -/
def resolve (k : Kernel) (bus : SignalId) (drivers : List SignalId) :
    Kernel × Except SimError Value :=
  match asserted k drivers with
  | [] => (k, .ok .highZ)
  | [v] => (k, .ok v)
  | many =>
      match k.contention with
      | .fail => (k, .error (.busContention (k.name bus) k.now many.length))
      | .warn => (k.emit (contentionWarning (k.name bus) k.now many.length), .ok .highZ)

/-- The value that the rule of a shadow gives now. -/
def evaluate (k : Kernel) (s : Shadow) : Kernel × Except SimError Value :=
  match s.rule with
  | .slice parent hi lo => (k, derive k parent fun v => (v.slice hi lo).map .bits)
  | .bit parent index => (k, derive k parent fun v => (v.bit index).map .bool)
  | .concat parts => (k, join k parts)
  | .tristate drivers => resolve k s.target drivers

/-- What a shadow waits for; a bus without drivers never changes. -/
def clause? {σ : Type} (s : Shadow) : Option (Clause σ) :=
  match s.rule with
  | .slice parent _ _ => some (.event parent)
  | .bit parent _ => some (.event parent)
  | .concat parts => some (.any ((parts.filterMap ConcatPart.source?).map .event))
  | .tristate [] => none
  | .tristate drivers => some (.any (drivers.map .event))

/-- Recomputes a shadow, proposes the value, and tells what to wait for. -/
def resume {σ : Type} (k : Kernel) (s : Shadow) :
    Kernel × Except SimError (Option (Clause σ)) :=
  match clause? s with
  | none => (k, .ok none)
  | some clause =>
      match evaluate k s with
      | (k, .error e) => (k, .error e)
      | (k, .ok v) =>
          match k.write s.target v true with
          | (k, .error e) => (k, .error e)
          | (k, .ok _) => (k, .ok (some clause))

/-- The name under which the shadow fails, if it does. -/
def processName (k : Kernel) (s : Shadow) : String := s.rule.label ++ " " ++ k.name s.target

end Shadow

end DeltaCycle
