import SimplexMethod.Program.Token

/-!
# SimplexMethod.Program.Basic

**Linear programs over non-negative variables.** A program is a direction, one cost per variable and
a list of constraints, in the order in which they were added.

Design points:

- **Right-hand sides are made non-negative on the way in**, by negating both sides of a constraint
  (`Constraint.normalize`), because the first basic solution of the simplex method is the right-hand
  side itself. `Program.push` stores a constraint as it is, so a caller can go without this.
- **The number of coefficients is not looked at when a constraint is added**, only when the program
  is to be solved (`Program.mismatch`).
- **Programs are values.** An addition that fails has no result, and the program it was meant for is
  what it was.
-/

namespace SimplexMethod

variable {K : Type}

/-! ### Constraints -/

/-- One linear constraint: a weighted sum of the variables, compared with a number. -/
structure Constraint (K : Type) where
  /-- The weight of each variable. -/
  coefficients : List K
  /-- How the weighted sum compares with the right-hand side. -/
  relation : Relation
  /-- The number on the right-hand side. -/
  rhs : K
  deriving DecidableEq, Repr

/-- The constraint with both sides negated if its right-hand side is negative. -/
def Constraint.normalize [Zero K] [Neg K] [LT K] [DecidableLT K] (c : Constraint K) :
    Constraint K :=
  if c.rhs < 0 then ⟨c.coefficients.map (- ·), c.relation.reversed, -c.rhs⟩ else c

@[simp] theorem Constraint.length_coefficients_normalize [Zero K] [Neg K] [LT K] [DecidableLT K]
    (c : Constraint K) : c.normalize.coefficients.length = c.coefficients.length := by
  unfold normalize
  split <;> simp

/-! ### Programs -/

/-- A linear program over non-negative variables. -/
structure Program (K : Type) where
  /-- Whether the objective is to be made large or small. -/
  direction : Direction
  /-- The cost of one unit of each variable. -/
  objective : List K
  /-- The constraints, the first one first. -/
  constraints : List (Constraint K)
  deriving DecidableEq, Repr

namespace Program

/-- The program without constraints whose direction is named by a token. -/
def ofToken (token : String) (objective : List K) : Except ModelError (Program K) := do
  return ⟨← Direction.ofToken token, objective, []⟩

/-- The number of variables. -/
def variableCount (p : Program K) : Nat := p.objective.length

/-- The number of constraints. -/
def constraintCount (p : Program K) : Nat := p.constraints.length

/-- The program with one more constraint, stored as it is. -/
def push (p : Program K) (c : Constraint K) : Program K :=
  { p with constraints := p.constraints ++ [c] }

@[simp] theorem constraints_push (p : Program K) (c : Constraint K) :
    (p.push c).constraints = p.constraints ++ [c] := rfl

@[simp] theorem variableCount_push (p : Program K) (c : Constraint K) :
    (p.push c).variableCount = p.variableCount := rfl

section Normalized

variable [Zero K] [Neg K] [LT K] [DecidableLT K]

/-- The program with one more constraint, whose relation is named by a token. -/
def add (p : Program K) (coefficients : List K) (token : String) (rhs : K) :
    Except ModelError (Program K) := do
  return p.push (Constraint.normalize ⟨coefficients, ← Relation.ofToken token, rhs⟩)

/-- The upper bound that a row of numbers states: its last number bounds the sum weighted with the
others. An empty row is the bound zero without coefficients. -/
def upperBound (row : List K) : Constraint K :=
  Constraint.normalize ⟨row.dropLast, .atMost, row.getLastD 0⟩

/-- The program with one upper bound more for each of the rows. -/
def addUpperBounds (p : Program K) (rows : List (List K)) : Program K :=
  { p with constraints := p.constraints ++ rows.map upperBound }

end Normalized

/-- The error of the first constraint that has not one coefficient per variable, if there is one. -/
def mismatch (p : Program K) : Option ModelError :=
  (p.constraints.zipIdx.find? fun c => c.1.coefficients.length != p.variableCount).map fun c =>
    .dimensionMismatch (c.2 + 1) c.1.coefficients.length p.variableCount

end Program

end SimplexMethod
