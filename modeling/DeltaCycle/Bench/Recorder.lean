import DeltaCycle.ChangeLog
import DeltaCycle.Hook

/-!
# Recorders

The world of a bench: everything that its processes, hooks and bridges write down. The
hooks of a bench record changes, print them, or fail on purpose; its bridge answers from
a list of prepared replies.
-/

set_option autoImplicit false

namespace DeltaCycle.Bench

/-- What was written down. -/
structure Recorder where
  /-- Lines of the event log, the last one first. -/
  log : List String := []
  /-- Changes kept by the last recording hook, the last one first. -/
  kept : List Change := []
  /-- Pieces of text printed by the last printing hook, the last one first. -/
  printed : List String := []
  /-- Lines that the printed text ends. -/
  printedLines : Nat := 0
  /-- Changes that the failing hook was told of. -/
  refusals : Nat := 0
  /-- Calls of the bridge so far. -/
  receives : Nat := 0
  sends : Nat := 0
  /-- The values sent since the last receive, if there was a send. -/
  sent : Option (List (SignalId × Value)) := none
deriving Repr, DecidableEq, Inhabited

namespace Recorder

/-- Adds a line to the event log. -/
def note (r : Recorder) (line : String) : Recorder := { r with log := line :: r.log }

/-- The lines of the event log in order. -/
def lines (r : Recorder) : List String := r.log.reverse

/-- The recorder with an empty event log. -/
def clearLog (r : Recorder) : Recorder := { r with log := [] }

/-- The kept changes in order. -/
def changes (r : Recorder) : List Change := r.kept.reverse

/-- The printed text. -/
def printedText (r : Recorder) : String := String.join r.printed.reverse

/-- The recorder after a piece of text was printed. -/
def print (r : Recorder) (piece : String) : Recorder :=
  { r with printed := piece :: r.printed, printedLines := r.printedLines + piece.toList.count '\n' }

/-- The recorder before anything is printed. -/
def clearPrinted (r : Recorder) : Recorder := { r with printed := [], printedLines := 0 }

/-- The recorder before any call of a bridge. -/
def resetBridge (r : Recorder) : Recorder := { r with receives := 0, sends := 0, sent := none }

end Recorder

/-- A value with its type. Items of a declared enumeration always have a name. -/
def describe (v : Value) : String := v.describe?.getD ""

/-! ## Hooks -/

/-- The hooks of a bench. -/
inductive HookPlan where
  /-- Keeps every change. -/
  | log
  /-- Prints a line for each change, until a number of lines has ended; flushing may fail. -/
  | lines (maxLines : Option Nat) (failFlush : Bool)
  /-- Notes every change in the event log. -/
  | tap
  /-- Keeps nothing, and fails at the start, at a change counted from one, or at the end. -/
  | fail (start : Bool) (change : Option Nat) (finish : Bool)
deriving Repr, DecidableEq, Inhabited

namespace HookPlan

/-- The line of the event log for a change. -/
def tapLine (c : Change) : String :=
  s!"~{c.time} {c.name}#{c.signal.index}: {describe c.old} -> {describe c.new}"

/-- Prints a piece of text, while there is room for a line. -/
def print (maxLines : Option Nat) (piece : String) (r : Recorder) :
    Recorder × Except SimError Unit :=
  match maxLines.filter (· ≤ r.printedLines) with
  | some _ => (r, .error (.trace "disk full"))
  | none => (r.print piece, .ok ())

/-- Fails with this reason if the flag is set. -/
def refuse (flag : Bool) (reason : String) (r : Recorder) : Recorder × Except SimError Unit :=
  (r, if flag then .error (.trace reason) else .ok ())

/-- The hook that a plan describes. -/
def hook : HookPlan → Hook Recorder
  | log => .recording fun c r => { r with kept := c :: r.kept }
  | lines maxLines failFlush => .lines (print maxLines) (refuse failFlush "flush failed")
  | tap => .recording fun c r => r.note (tapLine c)
  | fail start change finish =>
      { start := fun _ => refuse start "begin refused"
        change := fun _ r =>
          let r := { r with refusals := r.refusals + 1 }
          refuse (change == some r.refusals) "change refused" r
        finish := refuse finish "finish refused" }

/-- The recorder before the hook of a plan is told of anything. -/
def prepare (r : Recorder) : HookPlan → Recorder
  | log => { r with kept := [] }
  | lines .. => r.clearPrinted
  | tap => r
  | fail .. => { r with refusals := 0 }

end HookPlan

/-! ## Bridges -/

/-- Which calls of a bridge fail: calls are counted from zero. -/
structure BridgeFaults where
  receive : Option Nat := none
  send : Option Nat := none
  close : Bool := false
  /-- Whether the transport fails, or the content. -/
  transport : Bool := false
deriving Repr, DecidableEq, Inhabited

namespace BridgeFaults

/-- The error of a failing call. -/
def error (f : BridgeFaults) (call : String) : BridgeError :=
  if f.transport then .transport (call ++ " broke") else .garbled (call ++ " garbled")

end BridgeFaults

/-- A bridge with prepared replies. -/
structure BridgePlan where
  outputs : List SignalId := []
  /-- The values that each receive gives. -/
  replies : List (List (SignalId × Value)) := []
  /-- Signals that get the value sent at a place, after the prepared values. -/
  echoes : List (Nat × SignalId) := []
  faults : BridgeFaults := {}
  /-- Whether closing is noted, and may fail. -/
  closes : Bool := true
deriving Repr, DecidableEq, Inhabited

namespace BridgePlan

/-- The echoes of what was sent. -/
def echo (p : BridgePlan) (sent : List (SignalId × Value)) : List (SignalId × Value) :=
  p.echoes.filterMap fun (place, signal) => sent[place]?.map fun (_, v) => (signal, v)

/-- Sent values in words. -/
def sentText (values : List (SignalId × Value)) : String :=
  ", ".intercalate (values.map fun (signal, v) => s!"{signal.index}={describe v}")

/-- One receive. -/
def receive (p : BridgePlan) (time : Nat) (r : Recorder) :
    Recorder × Except BridgeError (List (SignalId × Value)) :=
  let call := r.receives
  let r := { r.note s!"cosim receive @{time}" with receives := call + 1 }
  if p.faults.receive = some call then
    (r, .error (p.faults.error "receive"))
  else
    ({ r with sent := none }, .ok ((p.replies[call]?).getD [] ++ p.echo (r.sent.getD [])))

/-- One send. -/
def send (p : BridgePlan) (time : Nat) (values : List (SignalId × Value)) (r : Recorder) :
    Recorder × Except BridgeError Unit :=
  let call := r.sends
  let r := { r.note s!"cosim send @{time}: {sentText values}" with sends := call + 1 }
  if p.faults.send = some call then (r, .error (p.faults.error "send"))
  else ({ r with sent := some values }, .ok ())

/-- The end of the connection. -/
def close (p : BridgePlan) (r : Recorder) : Recorder × Except BridgeError Unit :=
  if p.closes then
    (r.note "cosim close", if p.faults.close then .error (p.faults.error "close") else .ok ())
  else
    (r, .ok ())

/-- The bridge that a plan describes. -/
def bridge (p : BridgePlan) : Bridge Recorder where
  outputs := p.outputs
  receive := p.receive
  send := p.send
  close := p.close

end BridgePlan

end DeltaCycle.Bench
