import SimplexMethod.State.Basic

/-!
# SimplexMethod.Event

**What there is to tell about a solve.** A run hands out the list of its events along with its
result. Nothing listens while it runs, so listening cannot change it.

An event of a phase holds the whole state it tells about; a reduced cost or an objective value is
read off that state.
-/

namespace SimplexMethod

variable {K : Type}

/-- The two phases of a solve. -/
inductive Phase where
  /-- The search for a feasible basis, by making the sum of the artificial variables small. -/
  | one
  /-- The search for an optimal basis of the program itself. -/
  | two
  deriving DecidableEq, Repr

/-- How a phase can end. -/
inductive Outcome where
  /-- No column improves the objective any further. -/
  | optimal
  /-- A column improves the objective without limit. -/
  | unbounded
  /-- The cap was reached while a column still improved the objective. -/
  | exhausted
  deriving DecidableEq, Repr

/-- One thing that happened in a solve. -/
inductive Event (K : Type) where
  /-- The program was brought into equality form, with or without artificial variables. -/
  | prepared (tableau : Tableau K) (hasArtificials : Bool)
  /-- A phase began at a state. -/
  | phaseStart (phase : Phase) (state : State K)
  /-- A column became basic at a row, which led to a state with this exchange counted. -/
  | exchange (phase : Phase) (entering row : Nat) (state : State K)
  /-- A phase ended, with the objective value of its last state. -/
  | phaseEnd (phase : Phase) (outcome : Outcome) (objectiveValue : K)
  deriving DecidableEq

end SimplexMethod
