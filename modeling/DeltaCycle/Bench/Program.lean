import DeltaCycle.Bench.Literal
import DeltaCycle.Bench.Recorder
import DeltaCycle.Stimulus
import Std.Data.TreeMap

/-!
# Programs

A small language for the processes of a bench. A program is a list of statements with
jumps; a process in this language keeps the number of its next statement and its
variables from one resume to the next. The body of an always block is run from its first
statement each time, and keeps its variables.
-/

set_option autoImplicit false

namespace DeltaCycle.Bench

/-- Operations on integers. -/
inductive Arith where
  | add
  | sub
  | mul
  /-- The remainder that is never negative. -/
  | mod
  /-- Exclusive or of the payloads. -/
  | xor
deriving Repr, DecidableEq, Inhabited

namespace Arith

/-- The result of an operation; there is no remainder by zero. -/
def compute? (a b : Int) : Arith → Option Int
  | add => some (a + b)
  | sub => some (a - b)
  | mul => some (a * b)
  | mod => if b = 0 then none else some (a % b)
  | xor => some (BitVec.ofInt Bits.payloadWidth a ^^^ BitVec.ofInt Bits.payloadWidth b).toInt

end Arith

/-- An expression. -/
inductive Expr where
  /-- A literal, built already; a refusal counts when the expression is evaluated. -/
  | constant (value : Attempt SimError Value)
  /-- The committed value of a signal, which must be known. -/
  | value (signal : SignalId)
  /-- The committed value of a signal, or the error that it is unknown. -/
  | tryValue (signal : SignalId)
  /-- The proposed value of a signal. -/
  | next (signal : SignalId)
  /-- The committed value as an integer, zero if it is none. -/
  | number (signal : SignalId)
  /-- The level of the committed value. -/
  | high (signal : SignalId)
  | not (e : Expr)
  /-- The current tick. -/
  | now
  /-- A variable, zero if it was never set. -/
  | var (name : String)
  | arith (op : Arith) (a b : Expr)
  | less (a b : Expr)
  | same (a b : Expr)
  | bit (e : Expr) (index : Nat)
  | slice (e : Expr) (hi lo : Nat)
  | concat (parts : List Expr)

/-- The variables of a process that were set. -/
abbrev Vars : Type := Std.TreeMap String Value

/-- Variables with the values that they start with, up to the first that is refused. -/
def Vars.ofInitial (initial : List (String × Attempt LiteralError Value)) :
    Attempt LiteralError Vars :=
  initial.foldlM (fun vars (name, v) => v.map (vars.insert name)) {}

/-- An activity of a bench. -/
abbrev BenchActivity (α : Type) : Type := Activity Recorder α

/-- The integer of a value, zero if it has none. -/
def integerOf (v : Value) : Int := v.toInt?.getD 0

namespace Expr

mutual

/-- Evaluates an expression, its operands from left to right. -/
def eval (vars : Vars) : Expr → BenchActivity Value
  | constant v => .ofAttempt v
  | value signal => Activity.value signal
  | tryValue signal => Activity.tryValue signal
  | next signal => Activity.next signal
  | number signal => (Activity.value signal).bind fun v => .done (.int (integerOf v))
  | high signal => (Activity.value signal).bind fun v => .done (.bool v.truthy)
  | not e => (eval vars e).bind fun v => .done (.bool !v.truthy)
  | now => Activity.now.bind fun t => .done (.int t)
  | var name => .done (vars.getD name (.int 0))
  | arith op a b =>
      (eval vars a).bind fun a => (eval vars b).bind fun b =>
        (Activity.ofOption (op.compute? (integerOf a) (integerOf b))).bind fun n => .done (.int n)
  | less a b =>
      (eval vars a).bind fun a => (eval vars b).bind fun b =>
        .done (.bool (integerOf a < integerOf b))
  | same a b =>
      (eval vars a).bind fun a => (eval vars b).bind fun b => .done (.bool (a.same b))
  | bit e index =>
      (eval vars e).bind fun v => .ofValue ((v.bit index).map .bool)
  | slice e hi lo =>
      (eval vars e).bind fun v => .ofValue ((v.slice hi lo).map .bits)
  | concat parts =>
      (evalAll vars parts).bind fun values => .ofValue ((Value.concat values).map .bits)

/-- Evaluates expressions from left to right. -/
def evalAll (vars : Vars) : List Expr → BenchActivity (List Value)
  | [] => .done []
  | e :: rest =>
      (eval vars e).bind fun v => (evalAll vars rest).bind fun values => .done (v :: values)

end

end Expr

/-- An item of a log line. -/
inductive LogItem where
  | name (signal : SignalId)
  | text (text : String)
  | expr (e : Expr)

mutual

/-- A statement. -/
inductive Statement where
  | set (signal : SignalId) (e : Expr)
  | setBit (signal : SignalId) (index : Nat) (e : Expr)
  | setSlice (signal : SignalId) (hi lo : Nat) (e : Expr)
  /-- Executes a statement, and notes its error instead of failing. -/
  | attempt (statement : Statement)
  | log (items : List LogItem)
  | finish (reason : String)
  | assign (name : String) (e : Expr)
  | jump (target : Nat)
  /-- Jumps if the value is low. -/
  | jumpUnless (e : Expr) (target : Nat)
  | raise (reason : String)
  | wait (clause : Wait)
  | done

/-- A wait clause in written form. -/
inductive Wait where
  | event (signal : SignalId)
  | edge (edge : Edge)
  /-- A delay that is computed, and must not be negative. -/
  | delay (e : Expr)
  | ticks (ticks : Nat)
  | any (clauses : List Wait)
  | join (clauses : List Wait)
  /-- A child process with its name, its statements, and the values that its variables
  start with; a refusal of one counts when the clause is built. -/
  | spawn (name : String) (body : List Statement)
      (vars : List (String × Attempt LiteralError Value))
  | noop

end

/-- A process in this language. -/
structure Thread where
  name : String
  body : List Statement
  /-- The number of the next statement. -/
  counter : Nat := 0
  vars : Vars := {}

/-- A process of a bench. -/
inductive Actor where
  | thread (thread : Thread)
  | script (script : Script)
  | clock (clock : Clock)

namespace Wait

/-- The delay of a value: its integer as a word of 64 bits, which must not be negative. -/
def delayOfValue (v : Value) : Except SimError Nat :=
  delayOf ((integerOf v).bmod (Nat.pow 2 64))

mutual

/-- Builds the clause, its parts from left to right. -/
def clause (vars : Vars) : Wait → BenchActivity (Clause Actor)
  | event signal => .done (.event signal)
  | edge e => .done (.edge e)
  | delay e =>
      (e.eval vars).bind fun v =>
        (Activity.ofExcept (delayOfValue v)).bind fun ticks => .done (.delay ticks)
  | ticks count => .done (.delay count)
  | any waits => (clauses vars waits).bind fun cs => .done (.any cs)
  | join waits => (clauses vars waits).bind fun cs => .done (.join cs)
  | spawn name body initial =>
      (Activity.ofAttempt (Attempt.restate LiteralError.toSimError (Vars.ofInitial initial))).bind fun vars =>
        .done (.spawn (.thread { name, body, vars }))
  | noop => .done .noop

/-- Builds clauses from left to right. -/
def clauses (vars : Vars) : List Wait → BenchActivity (List (Clause Actor))
  | [] => .done []
  | wait :: rest =>
      (clause vars wait).bind fun c => (clauses vars rest).bind fun cs => .done (c :: cs)

end

end Wait

/-- Adds a line of a process to the event log. -/
def say (name text : String) : BenchActivity Unit :=
  Activity.now.bind fun now => Activity.changeWorld (·.note s!"@{now} {name}: {text}")

namespace LogItem

/-- The text of an item. -/
def eval (vars : Vars) : LogItem → BenchActivity String
  | name signal => Activity.name signal
  | text t => .done t
  | expr e => (e.eval vars).bind fun v => Activity.ofOption v.describe?

/-- The texts of items from left to right. -/
def evalAll (vars : Vars) : List LogItem → BenchActivity (List String)
  | [] => .done []
  | item :: rest =>
      (item.eval vars).bind fun text => (evalAll vars rest).bind fun texts =>
        .done (text :: texts)

end LogItem

/-- Where a statement leads. -/
inductive Effect where
  | next (vars : Vars)
  | jump (target : Nat)
  | wait (clause : Clause Actor)
  | done

namespace Statement

/-- Executes one statement of the named process. -/
def exec (name : String) (vars : Vars) : Statement → BenchActivity Effect
  | set signal e =>
      (e.eval vars).bind fun v => (Activity.setNext signal v).bind fun _ => .done (.next vars)
  | setBit signal index e =>
      (e.eval vars).bind fun v =>
        (Activity.setNextBit signal index v.truthy).bind fun _ => .done (.next vars)
  | setSlice signal hi lo e =>
      (e.eval vars).bind fun v =>
        (Activity.setNextSlice signal hi lo (integerOf v)).bind fun _ => .done (.next vars)
  | attempt statement =>
      (exec name vars statement).settle fun
        | .ok effect => .done effect
        | .error e => (say name ("caught " ++ e.report)).bind fun _ => .done (.next vars)
  | log items =>
      (LogItem.evalAll vars items).bind fun texts =>
        (say name (", ".intercalate texts)).bind fun _ => .done (.next vars)
  | finish reason => (Activity.finish reason).bind fun _ => .done (.next vars)
  | assign target e => (e.eval vars).bind fun v => .done (.next (vars.insert target v))
  | jump target => .done (.jump target)
  | jumpUnless e target =>
      (e.eval vars).bind fun v => .done (if v.truthy then .next vars else .jump target)
  | raise reason => .fail (.invalidArgument reason)
  | wait clause => (clause.clause vars).bind fun c => .done (.wait c)
  | done => .done .done

end Statement

namespace Thread

/-- Executes statements until one suspends the process or the last one is behind it. The
number bounds the statements of one resume. -/
def advance : Nat → Thread → BenchActivity (Thread × Option (Clause Actor))
  | 0, _ => .undefined
  | bound + 1, t =>
      match t.body[t.counter]? with
      | none => .done (t, none)
      | some statement =>
          (statement.exec t.name t.vars).bind fun
            | .next vars => .later fun _ => advance bound { t with counter := t.counter + 1, vars }
            | .jump target => .later fun _ => advance bound { t with counter := target }
            | .wait clause => .done ({ t with counter := t.counter + 1 }, some clause)
            | .done => .done (t, none)

/-- One resume of a process. -/
def resume (bound : Nat) (t : Thread) : BenchActivity (Step Actor) :=
  (advance bound t).bind fun
    | (t, some clause) => .done (.wait (.thread t) clause)
    | (_, none) => .done .done

/-- One run of the body of an always block. -/
def react (bound : Nat) (t : Thread) : BenchActivity Thread :=
  (advance bound { t with counter := 0 }).bind fun (t, _) => .done t

end Thread

namespace Actor

/-- The name of a process. -/
def name : Actor → String
  | thread t => t.name
  | script s => s.name
  | clock _ => "clock"

/-- One resume of a process. -/
def resume (bound : Nat) : Actor → BenchActivity (Step Actor)
  | thread t => t.resume bound
  | script s => s.resume.bind fun step => .done (step.map script)
  | clock c => c.resume.bind fun step => .done (step.map clock)

/-- One run of the body of an always block. -/
def react (bound : Nat) : Actor → BenchActivity Actor
  | thread t => (t.react bound).bind fun t => .done (.thread t)
  | other => .done other

/-- The behaviours of a bench; the number bounds the statements of one resume. -/
def behaviours (bound : Nat) : Behaviours Actor Recorder where
  name := name
  resume := resume bound
  react := react bound

end Actor

end DeltaCycle.Bench
