import SimplexMethod.Pass
import SimplexMethod.Program.Token

/-!
# SimplexMethod.Solution

**The answer to a linear program**: a status and, where a feasible point was reached, the value and
the reduced cost of every variable and of every slack.

The sign of a zero is no part of an answer: zero is added to every number of a solution, which turns
negative zero into zero and changes nothing else.
-/

namespace SimplexMethod

variable {K : Type}

/-- A number, or one of the two ends of the line. -/
inductive Extended (K : Type) where
  | negInfinity
  | number (x : K)
  | infinity
  deriving DecidableEq, Repr

/-- How a solve can end. -/
inductive Status where
  /-- An optimal solution was found. -/
  | optimal
  /-- No point satisfies every constraint. -/
  | infeasible
  /-- The objective improves without limit. -/
  | unbounded
  /-- The cap was reached before any of these was known. -/
  | exhausted
  deriving DecidableEq, Repr

/-- The answer to a linear program. -/
structure Solution (K : Type) where
  /-- How the solve ended. -/
  status : Status
  /-- The objective value; infinite when there is no point to take it at. -/
  objectiveValue : Extended K
  /-- The value of every variable, then of every slack; empty when there is no point. -/
  values : List K
  /-- The reduced cost of every variable, then of every slack; empty when there is no point. -/
  reducedCosts : List K
  /-- The number of exchanges counted in both phases. -/
  iterations : Nat
  /-- The number of variables of the program. -/
  variableCount : Nat
  deriving DecidableEq, Repr

namespace Solution

/-! ### Making solutions -/

/-- The solution that a state of the second phase stands for. -/
def ofState [Zero K] [Neg K] [Add K] [Mul K] (status : Status) (s : State K)
    (variableCount iterations : Nat) : Solution K where
  status := status
  objectiveValue := .number (s.objectiveValue + 0)
  values := (List.range s.objective.length).map s.value
  reducedCosts := s.reducedCosts.map (· + 0)
  iterations := iterations
  variableCount := variableCount

/-- A solution without a point. -/
def withoutPoint (status : Status) (objectiveValue : Extended K) (iterations variableCount : Nat) :
    Solution K :=
  ⟨status, objectiveValue, [], [], iterations, variableCount⟩

/-- The answer to a program without a feasible point. -/
def infeasible (iterations variableCount : Nat) : Solution K :=
  withoutPoint .infeasible .infinity iterations variableCount

/-- The answer to a program whose objective improves without limit. -/
def unbounded (direction : Direction) (iterations variableCount : Nat) : Solution K :=
  let limit : Extended K :=
    match direction with
    | .maximize => .infinity
    | .minimize => .negInfinity
  withoutPoint .unbounded limit iterations variableCount

/-- The answer when the cap was reached before a feasible point. -/
def exhausted (iterations variableCount : Nat) : Solution K :=
  withoutPoint .exhausted .infinity iterations variableCount

/-! ### Reading solutions -/

/-- Whether the solution is optimal. -/
def isOptimal (s : Solution K) : Bool := s.status = .optimal

/-- The values of the variables. -/
def variablePart (s : Solution K) : List K := s.values.take s.variableCount

/-- The values of the slacks, one per constraint. -/
def slackPart (s : Solution K) : List K := s.values.drop s.variableCount

theorem variablePart_append_slackPart (s : Solution K) :
    s.variablePart ++ s.slackPart = s.values := List.take_append_drop _ _

end Solution

end SimplexMethod
