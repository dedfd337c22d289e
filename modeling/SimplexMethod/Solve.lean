import SimplexMethod.Feasibility
import SimplexMethod.Solution

/-!
# SimplexMethod.Solve

**The two-phase simplex method.** A program whose constraints fit its objective is brought into
equality form. If that needs artificial variables, a feasible basis is searched for first. From a
feasible basis the costs of the program itself are optimised.

`Program.solve` is total and a function of the program and the settings alone, so solving twice
gives the same answer twice.
-/

namespace SimplexMethod

variable {K : Type}

/-- Why a solve has no answer. -/
inductive SolveError where
  /-- The program is not well formed. -/
  | model (e : ModelError)
  /-- A step of the method had a precondition broken. -/
  | fault (f : Fault)
  deriving DecidableEq, Repr

/-- A finished solve. -/
structure Run (K : Type) where
  /-- The answer. -/
  solution : Solution K
  /-- What happened, the first event first. -/
  events : List (Event K)
  deriving DecidableEq

namespace Program

/-- The costs of all columns of the second phase: slacks cost nothing. -/
def extendedCosts [Zero K] (p : Program K) : List K :=
  p.objective ++ List.replicate p.constraintCount 0

@[simp] theorem length_extendedCosts [Zero K] (p : Program K) :
    p.extendedCosts.length = p.firstArtificial := by
  simp [extendedCosts, firstArtificial, variableCount]

/-- The sum of the exchanges of both phases, which has to fit the counter. -/
def totalIterations (first second : Nat) : Except Fault Nat :=
  if first + second < counterLimit then .ok (first + second) else .error .counterOverflow

/-- The solution that a pass of the second phase leads to. -/
def solutionOf [Zero K] [Neg K] [Add K] [Mul K] (p : Program K) (pass : Pass K) (iterations : Nat) :
    Solution K :=
  match pass.outcome with
  | .optimal => .ofState .optimal pass.state p.variableCount iterations
  | .unbounded => .unbounded p.direction iterations p.variableCount
  | .exhausted => .ofState .exhausted pass.state p.variableCount iterations

variable [Zero K] [One K] [Neg K] [Add K] [Sub K] [Mul K] [Div K] [LT K] [DecidableLT K] [LE K]
  [DecidableLE K] [BEq K] [Selectable K]

/-- The second phase, from a feasible basis that took `earlier` exchanges to find. -/
def secondPhase (p : Program K) (settings : Settings K) (tableau : Tableau K) (basis : List Nat)
    (earlier : Nat) : Except Fault (Run K) := do
  let start ← State.ofTableau p.extendedCosts tableau basis
  let pass ← start.pass settings .two p.direction.sign
  let iterations ← totalIterations earlier pass.state.iterations
  return ⟨p.solutionOf pass iterations, pass.events⟩

/-- Both phases, for a program whose constraints fit its objective. -/
def solveFitting (p : Program K) (settings : Settings K) : Except Fault (Run K) := do
  let form := EqualityForm.ofProgram p
  let prepared := Event.prepared form.tableau form.hasArtificials
  if form.hasArtificials then
    let search ← form.searchFeasible settings
    match search.result with
    | .feasible tableau basis iterations =>
      let run ← p.secondPhase settings tableau basis iterations
      return { run with events := prepared :: search.events ++ run.events }
    | .infeasible iterations =>
      return ⟨.infeasible iterations p.variableCount, prepared :: search.events⟩
    | .exhausted iterations =>
      return ⟨.exhausted iterations p.variableCount, prepared :: search.events⟩
  else
    let run ← p.secondPhase settings form.tableau form.basis 0
    return { run with events := prepared :: run.events }

/-- The answer to a program, with the events on the way to it. -/
def solve (p : Program K) (settings : Settings K) : Except SolveError (Run K) :=
  match p.mismatch with
  | some e => .error (.model e)
  | none => (p.solveFitting settings).mapError .fault

end Program

end SimplexMethod
