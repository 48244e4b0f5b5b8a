import DeltaCycle.Kernel

/-!
# Activities and behaviours

What a process does between two suspensions is an activity: a finite interaction with
the kernel and with the world, given as a tree of requests whose continuations depend
on the replies. A world `ω` is whatever processes, trace hooks and bridges share besides
signals.

A family of behaviours says, for each state in `σ`, what a process in that state is
called and what it does when it is resumed. States are plain values, so a process may
spawn any other and go on for ever.
-/

set_option autoImplicit false

namespace DeltaCycle

/-- What a running process may ask for. -/
inductive Request (ω : Type) where
  /-- The current tick. -/
  | now
  /-- The committed value of a signal. -/
  | value (signal : SignalId)
  /-- The name of a signal. -/
  | name (signal : SignalId)
  /-- The proposed value of a signal, which marks the signal as pending. -/
  | next (signal : SignalId)
  /-- Proposes a value. -/
  | setNext (signal : SignalId) (value : Value)
  /-- Proposes another bit. -/
  | setNextBit (signal : SignalId) (index : Nat) (bit : Bool)
  /-- Proposes another slice. -/
  | setNextSlice (signal : SignalId) (hi lo : Nat) (content : Int)
  /-- Asks for the end of the simulation. -/
  | finish (reason : String)
  /-- Changes the world and learns what it was before. -/
  | world (change : ω → ω)

namespace Request

variable {ω : Type}

/-- What is replied to a request. -/
abbrev Reply : Request ω → Type
  | now => Nat
  | value _ => Except SimError Value
  | name _ => String
  | next _ => Value
  | setNext .. | setNextBit .. | setNextSlice .. => Except SimError Unit
  | finish _ => Unit
  | world _ => ω

/-- Carries out a request. The proposed value of an unknown signal has no reply. -/
def perform (k : Kernel) (w : ω) : (r : Request ω) → Option (r.Reply × Kernel × ω)
  | now => some (k.now, k, w)
  | value signal => some (k.val signal, k, w)
  | name signal => some (k.name signal, k, w)
  | next signal => (k.next? signal).map fun (proposed, k) => (proposed, k, w)
  | setNext signal proposed => some (let (k, reply) := k.setNext signal proposed; (reply, k, w))
  | setNextBit signal index bit =>
      some (let (k, reply) := k.setNextBit signal index bit; (reply, k, w))
  | setNextSlice signal hi lo content =>
      some (let (k, reply) := k.setNextSlice signal hi lo content; (reply, k, w))
  | finish reason => some ((), k.finish reason, w)
  | world change => some (w, k, change w)

end Request

/-- A finite interaction that ends with an answer or an error, or does not go on. -/
inductive Activity (ω α : Type) where
  | done (answer : α)
  | fail (error : SimError)
  | undefined
  | ask (request : Request ω) (go : request.Reply → Activity ω α)
  /-- Goes on without a request. What lies between two requests is computed in one go, and
  such a step divides it where it may be long. -/
  | later (go : Unit → Activity ω α)

namespace Activity

variable {ω α β : Type}

/-- Continues an activity with its answer. -/
def bind : Activity ω α → (α → Activity ω β) → Activity ω β
  | done answer, f => f answer
  | fail error, _ => fail error
  | undefined, _ => undefined
  | ask request go, f => ask request fun reply => (go reply).bind f
  | later go, f => later fun _ => (go ()).bind f

instance : Monad (Activity ω) where
  pure := done
  bind := bind

/-- Continues an activity with its answer or its error. -/
def settle : Activity ω α → (Except SimError α → Activity ω β) → Activity ω β
  | done answer, f => f (.ok answer)
  | fail error, f => f (.error error)
  | undefined, _ => undefined
  | ask request go, f => ask request fun reply => (go reply).settle f
  | later go, f => later fun _ => (go ()).settle f

/-- An answer or an error that is known already. -/
def ofExcept : Except SimError α → Activity ω α
  | .ok answer => done answer
  | .error error => fail error

/-- The outcome of a value operation. -/
def ofValue : Except ValueError α → Activity ω α
  | .ok answer => done answer
  | .error cause => fail (.ofValueError cause)

/-- The outcome of an attempt. -/
def ofAttempt : Attempt SimError α → Activity ω α
  | .ok answer => done answer
  | .error (.refused error) => fail error
  | .error .undefined => undefined

/-- The answer that is present, and none otherwise. -/
def ofOption : Option α → Activity ω α
  | some answer => done answer
  | none => undefined

/-! ## Single requests -/

/-- The current tick. -/
def now : Activity ω Nat := ask .now done

/-- The committed value of a signal, or the error that it is unknown. -/
def tryValue (signal : SignalId) : Activity ω Value := ask (.value signal) ofExcept

/-- The committed value of a signal, which must be known. -/
def value (signal : SignalId) : Activity ω Value :=
  ask (.value signal) fun
    | .ok value => done value
    | .error _ => undefined

/-- The name of a signal. -/
def name (signal : SignalId) : Activity ω String := ask (.name signal) done

/-- The proposed value of a signal, which becomes pending. -/
def next (signal : SignalId) : Activity ω Value := ask (.next signal) done

/-- Proposes a value. -/
def setNext (signal : SignalId) (value : Value) : Activity ω Unit :=
  ask (.setNext signal value) ofExcept

/-- Proposes another bit. -/
def setNextBit (signal : SignalId) (index : Nat) (bit : Bool) : Activity ω Unit :=
  ask (.setNextBit signal index bit) ofExcept

/-- Proposes another slice. -/
def setNextSlice (signal : SignalId) (hi lo : Nat) (content : Int) : Activity ω Unit :=
  ask (.setNextSlice signal hi lo content) ofExcept

/-- Asks for the end of the simulation. -/
def finish (reason : String) : Activity ω Unit := ask (.finish reason) done

/-- Changes the world. -/
def changeWorld (change : ω → ω) : Activity ω Unit := ask (.world change) fun _ => done ()

/-! ## Carrying out -/

/-- Carries out an activity. There is no result where a request has no reply or the
activity does not go on; an error keeps what was done before it. -/
def run (k : Kernel) (w : ω) : Activity ω α → Option (Except SimError α × Kernel × ω)
  | done answer => some (.ok answer, k, w)
  | fail error => some (.error error, k, w)
  | undefined => none
  | ask request go =>
      match request.perform k w with
      | none => none
      | some (reply, k, w) => (go reply).run k w
  | later go => (go ()).run k w

end Activity

/-- What a process does after a resume: wait, with the state to be resumed in, or end. -/
inductive Step (σ : Type) where
  | wait (state : σ) (clause : Clause σ)
  | done
deriving Inhabited

/-- The step over other states. -/
def Step.map {σ τ : Type} (f : σ → τ) : Step σ → Step τ
  | wait state clause => wait (f state) (clause.map f)
  | done => done

/-- What processes and always blocks do, by their states. -/
structure Behaviours (σ ω : Type) where
  /-- The name in diagnostics. -/
  name : σ → String
  /-- One resume of a process. -/
  resume : σ → Activity ω (Step σ)
  /-- One run of the body of an always block. -/
  react : σ → Activity ω σ

/-- A body that is run each time its sensitivity fires, and not at the start. -/
structure Always (σ : Type) where
  name : String
  sensitivity : Sensitivity
  body : σ
deriving Repr, Inhabited

end DeltaCycle
