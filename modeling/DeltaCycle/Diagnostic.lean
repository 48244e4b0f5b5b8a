import DeltaCycle.Text.Json

/-!
# Diagnostics

A diagnostic is a message with a severity, a code, the tick at which it was observed
and notes. A log keeps diagnostics in order; its counts of errors and warnings
remain when the diagnostics are taken out.
-/

set_option autoImplicit false

namespace DeltaCycle

/-- How severe a diagnostic is. -/
inductive Severity where
  | note
  | warning
  | error
deriving Repr, DecidableEq, Inhabited

namespace Severity

/-- The word that opens a report. -/
def text : Severity → String
  | note => "note"
  | warning => "warning"
  | error => "error"

/-- The name in the record form. -/
def tag : Severity → String
  | note => "Note"
  | warning => "Warning"
  | error => "Error"

/-- The place in the order of severity. -/
def rank : Severity → Nat
  | note => 0
  | warning => 1
  | error => 2

/-- Whether the diagnostic ended a run. -/
def isError : Severity → Bool
  | error => true
  | _ => false

end Severity

/-- The class of a code. -/
inductive Category where
  /-- A run ended. -/
  | error
  /-- Suspicious but legal activity. -/
  | warning
  /-- A conflict on a shared bus. -/
  | resolution
deriving Repr, DecidableEq, Inhabited

namespace Category

/-- The letter that opens a code. -/
def letter : Category → String
  | error => "E"
  | warning => "W"
  | resolution => "R"

/-- The name in the record form. -/
def tag : Category → String
  | error => "Error"
  | warning => "Warning"
  | resolution => "Resolution"

end Category

/-- A category and a number within it. -/
structure DiagnosticCode where
  category : Category
  number : Nat
deriving Repr, DecidableEq, Inhabited

namespace DiagnosticCode

/-- A run ended because a waiter raised an error. -/
def processFailed : DiagnosticCode := ⟨.error, 101⟩

/-- Several drivers assert one bus. -/
def busContention : DiagnosticCode := ⟨.resolution, 301⟩

/-- The letter and the number with at least three digits. -/
def text (code : DiagnosticCode) : String :=
  code.category.letter ++ Text.padded 10 3 code.number

end DiagnosticCode

/-- A report made while a simulation runs. -/
structure Diagnostic where
  severity : Severity
  code : DiagnosticCode
  message : String
  time : Option Nat := none
  notes : List String := []
deriving Repr, DecidableEq, Inhabited

namespace Diagnostic

/-- The report as a header line, with a line for each note if notes are shown. -/
def render (d : Diagnostic) (showNotes : Bool) : String :=
  let head := s!"{d.severity.text}[{d.code.text}]"
  let header :=
    match d.time with
    | some t => s!"{head} @ {t}: {d.message}\n"
    | none => s!"{head}: {d.message}\n"
  if showNotes then
    header ++ String.join (d.notes.map fun note => s!"   = note: {note}\n")
  else
    header

/-- The record form. -/
def toJson (d : Diagnostic) : Json :=
  .ofMembers [
    ("severity", .ofString d.severity.tag),
    ("code", .ofMembers [("category", .ofString d.code.category.tag),
      ("number", .ofNat d.code.number)]),
    ("message", .ofString d.message),
    ("time", match d.time with | some t => .ofNat t | none => .null),
    ("notes", .array (d.notes.map .ofString))]

end Diagnostic

/-- The diagnostics recorded so far, and how many errors and warnings there ever were. -/
structure DiagnosticLog where
  /-- The last diagnostic first. -/
  recorded : List Diagnostic := []
  errors : Nat := 0
  warnings : Nat := 0
deriving Repr, DecidableEq, Inhabited

namespace DiagnosticLog

/-- The diagnostics in order. -/
def entries (log : DiagnosticLog) : List Diagnostic := log.recorded.reverse

/-- Records a diagnostic. -/
def emit (log : DiagnosticLog) (d : Diagnostic) : DiagnosticLog where
  recorded := d :: log.recorded
  errors := log.errors + (if d.severity = .error then 1 else 0)
  warnings := log.warnings + (if d.severity = .warning then 1 else 0)

/-- Takes the diagnostics out; the counts remain. -/
def clear (log : DiagnosticLog) : DiagnosticLog := { log with recorded := [] }

/-- Whether there ever was an error. -/
def hasErrors (log : DiagnosticLog) : Bool := decide (0 < log.errors)

end DiagnosticLog

end DeltaCycle
