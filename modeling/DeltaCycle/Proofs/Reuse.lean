import DeltaCycle.Proofs.LastWrite
import DeltaCycle.Proofs.TwinRuns

/-!
# Reuse

The kernel that is handed back at the end of a simulation is the one that was handed in, but for
recorded diagnostics. Since nothing depends on diagnostics of before, it is as good as new: whatever
is built on it runs as it would have run on the first one.
-/

set_option autoImplicit false

namespace DeltaCycle

variable {σ ω : Type}

theorem Kernel.AtStart.reset {k : Kernel} (atStart : k.AtStart) : k.reset = k := by
  have signals := atStart.signals
  have pending := atStart.pending
  have now := atStart.now
  have stopRequest := atStart.stopRequest
  unfold Kernel.reset
  rw [signals, ← pending, ← now, ← stopRequest]

theorem Kernel.following_bare (k : Kernel) :
    ({ k with diagnostics := {} } : Kernel).following k.diagnostics = k := by
  simp only [following, DiagnosticLog.following, List.nil_append, Nat.zero_add]

namespace Simulation

variable {B : Behaviours σ ω}

/-- What a simulation comes to by runs, whatever became of them, and by single cycles of a run, while
the caller changes what it may change. -/
inductive Leads (B : Behaviours σ ω) (s : Simulation σ ω) : Simulation σ ω → Prop where
  | stays : Leads B s s
  | adjusted {t t' : Simulation σ ω} (leads : Leads B s t) (adjusts : t.Adjusts t') : Leads B s t'
  | cycled {t t' : Simulation σ ω} {fuel : Nat} {cap : Option Nat} {verdict : Verdict}
      (leads : Leads B s t) (turned : t.cycle B fuel cap = .ok (t', verdict)) : Leads B s t'
  | ran {t t' : Simulation σ ω} {fuel : Nat} {duration : Option Nat}
      {result : Except SimError Outcome} (leads : Leads B s t)
      (ran : t.run B fuel duration = .ok (t', result)) : Leads B s t'

theorem Leads.reached {s t : Simulation σ ω} (leads : Leads B s t) (reached : Reached B s) :
    Reached B t := by
  induction leads with
  | stays => exact reached
  | adjusted _ adjusts ih => exact .adjusted ih adjusts
  | cycled _ turned ih => exact .cycled ih turned
  | ran _ ran ih => exact .ran ih ran

theorem Leads.after {s t u : Simulation σ ω} (later : Leads B t u) (first : Leads B s t) :
    Leads B s u := by
  induction later with
  | stays => exact first
  | adjusted _ adjusts ih => exact .adjusted ih adjusts
  | cycled _ turned ih => exact .cycled ih turned
  | ran _ ran ih => exact .ran ih ran

/-- What a simulation does leaves the design of its kernel as it is. -/
theorem Leads.blueprint {s t : Simulation σ ω} (leads : Leads B s t) (reached : Reached B s) :
    t.kernel.blueprint = s.kernel.blueprint := by
  have does {log : List Happening} {t t' : Simulation σ ω} (does : Does t log t') :
      t'.kernel.blueprint = t.kernel.blueprint := by
    have kept := does.goes.keeps (P := fun d => d.kernel.blueprint = t.kernel.blueprint)
      (fun step same => step.blueprint.trans same) rfl
    exact kept
  induction leads with
  | stays => rfl
  | adjusted leads adjusts ih => exact (does (.of_office (office_adjusts adjusts))).trans ih
  | cycled leads turned ih =>
      obtain ⟨log, course⟩ := does_cycle (leads.reached reached).staffed turned
      exact (does course).trans ih
  | ran leads ran ih =>
      obtain ⟨log, course⟩ := does_run (leads.reached reached).staffed ran
      exact (does course).trans ih

/-- What is handed back is what was handed in, with the diagnostics since then. -/
theorem Leads.quit {kernel back : Kernel} {instances : List (Instance σ ω)} {world w : ω}
    {s t : Simulation σ ω} (made : kernel.Made) (built : build B kernel instances world = .ok s)
    (leads : Leads B s t) (quits : t.quit = (.ok back, w)) :
    back = { kernel with diagnostics := back.diagnostics } := by
  have reached : Reached B s := .built made built
  have start : s.kernel = kernel := congrArg Desk.kernel (desk_build built)
  have same := leads.blueprint reached
  rw [start] at same
  unfold Kernel.blueprint at same
  rw [← kernel_of_quit quits, made.sound.atStart.reset] at same
  have equal := congrArg (fun k : Kernel => { k with diagnostics := back.diagnostics }) same
  exact equal

/-- The simulation as it is where other diagnostics were recorded before. -/
def following (s : Simulation σ ω) (earlier : DiagnosticLog) : Simulation σ ω :=
  { s with kernel := s.kernel.following earlier }

/-- What comes of a session where other diagnostics were recorded before. -/
def SessionResult.following (result : SessionResult σ ω) (earlier : DiagnosticLog) :
    SessionResult σ ω :=
  result.map fun outcome => outcome.map fun (t, returns) => (t.following earlier, returns)

/-- A session does not depend on earlier diagnostics. -/
theorem session_following (B : Behaviours σ ω) (kernel : Kernel) (earlier : DiagnosticLog)
    (instances : List (Instance σ ω)) (world : ω) (fuel : Nat) (moves : List (Move ω)) :
    session B (kernel.following earlier) instances world fuel moves =
      SessionResult.following (session B kernel instances world fuel moves) earlier := by
  have same : List.Forall₂ (Instance.Like B Eq) (Instance.flattenAll instances)
      (Instance.flattenAll instances) := List.forall₂_same.mpr fun i _ => .refl i
  have sessions := Twin.session (likeness_eq B) kernel earlier same world fuel moves
  generalize session B kernel instances world fuel moves = x,
    session B (kernel.following earlier) instances world fuel moves = y at sessions ⊢
  cases sessions with
  | refused e => rfl
  | held both =>
      cases both with
      | stuck why => rfl
      | went alike =>
          obtain ⟨t, t', results, rfl, rfl, twin⟩ := alike
          cases twin with
          | mk like =>
              rw [like.eq]
              rfl

/-- A kernel that is handed back is as good as new. Wherever a simulation of a made kernel has come
to, the kernel that it hands back when it ends is the one that was handed in, but for diagnostics.
Whatever is built on it, every session is that on the kernel that was handed in: it is refused alike,
gets stuck alike, or returns the same and leaves the same simulation, but for earlier diagnostics. -/
theorem a_kernel_comes_back_as_good_as_new {kernel back : Kernel} {instances : List (Instance σ ω)}
    {world w : ω} {s t : Simulation σ ω} (made : kernel.Made)
    (built : build B kernel instances world = .ok s) (leads : Leads B s t)
    (quits : t.quit = (.ok back, w)) :
    back = { kernel with diagnostics := back.diagnostics } ∧
      ∀ {σ' ω' : Type} (B' : Behaviours σ' ω') (instances' : List (Instance σ' ω')) (world' : ω')
        (fuel : Nat) (moves : List (Move ω')),
        ∃ result : SessionResult σ' ω',
          session B' kernel instances' world' fuel moves = result.following kernel.diagnostics ∧
            session B' back instances' world' fuel moves = result.following back.diagnostics := by
  have same := leads.quit made built quits
  refine ⟨same, ?_⟩
  intro σ' ω' B' instances' world' fuel moves
  let bare : Kernel := { kernel with diagnostics := {} }
  have first : bare.following kernel.diagnostics = kernel := kernel.following_bare
  have second : bare.following back.diagnostics = back := by
    have bared : bare = { back with diagnostics := {} } := by
      rw [same]
    rw [bared]
    exact back.following_bare
  refine ⟨session B' bare instances' world' fuel moves, ?_, ?_⟩
  · rw [← session_following, first]
  · rw [← session_following, second]

/-- A process that writes to the ledger and fails. -/
def spender : Behaviours Unit Unit where
  name _ := "spender"
  resume _ := (Activity.setNext ⟨0⟩ (.int 5)).bind fun _ => .fail (.invalidArgument "overdrawn")
  react _ := .done ()

/-- A simulation of a process that fails. -/
def overdraft : Simulation Unit Unit :=
  ({ kernel := ledger, world := () } : Simulation Unit Unit).addWaiter "spender" (.process ()) none

/-- Whether a run fails with one value in the ledger, and another one is handed back. -/
def losesAndRestores (spent restored : Value) (s : Simulation Unit Unit) : Bool :=
  match s.run spender 9 none with
  | .ok (t, .error _) =>
      match t.quit with
      | (.ok back, _) =>
          decide (t.kernel.val? ⟨0⟩ = some spent ∧ back.val? ⟨0⟩ = some restored)
      | _ => false
  | _ => false

/-- What was spent is restored, and the sleeper sleeps on the old ledger as on a new one. -/
theorem an_overdraft_is_forgotten :
    ∃ t e back, overdraft.run spender 9 none = .ok (t, .error e) ∧
      t.quit = (.ok back, ()) ∧ losesAndRestores (.int 5) (.int 0) overdraft = true ∧
      back = { ledger with diagnostics := back.diagnostics } ∧
      ∃ result : SessionResult Unit Unit,
        session sleepy ledger [.process ()] () 9 [.call (.run (some 4))] =
            result.following ledger.diagnostics ∧
          session sleepy back [.process ()] () 9 [.call (.run (some 4))] =
            result.following back.diagnostics := by
  have made : ledger.Made := .signal .empty "total" (.int 0) none
  have built : build spender ledger [.process ()] () = .ok overdraft := rfl
  have restores : losesAndRestores (.int 5) (.int 0) overdraft = true := by decide +kernel
  have fails := restores
  unfold losesAndRestores at fails
  split at fails
  · next t e ran =>
      split at fails
      · next back _ quits =>
          obtain ⟨same, sessions⟩ :=
            a_kernel_comes_back_as_good_as_new made built (.ran .stays ran) quits
          exact ⟨t, e, back, ran, quits, restores, same,
            sessions sleepy [.process ()] () 9 [.call (.run (some 4))]⟩
      · cases fails
  · cases fails

end Simulation

end DeltaCycle
