/-!
# SimplexMethod.Program.Token

**The words in which a linear program is written down**: the direction of the optimisation and the
relation of a constraint, each with the tokens it is read from, and the errors of a model.

The tokens are exact: case matters and no blank is skipped.
-/

namespace SimplexMethod

/-! ### Errors -/

/-- What can be wrong with a model. -/
inductive ModelError where
  /-- A token that names no direction. -/
  | invalidDirection (token : String)
  /-- A token that names no relation. -/
  | invalidRelation (token : String)
  /-- A constraint, counted from 1, that has not one coefficient per variable. -/
  | dimensionMismatch (constraint found expected : Nat)
  deriving DecidableEq, Repr

/-- The text of a model error. -/
def ModelError.message : ModelError → String
  | .invalidDirection token =>
    "Invalid objective direction `" ++ token ++ "`: expected `max` or `min`"
  | .invalidRelation token =>
    "Invalid relation `" ++ token ++ "`: expected one of <=, ≤, ==, =, >=, ≥"
  | .dimensionMismatch constraint found expected =>
    s!"Constraint {constraint} has {found} coefficients but the objective has {expected}"

/-! ### Directions -/

/-- Whether the objective is made as large or as small as possible. -/
inductive Direction where
  | maximize
  | minimize
  deriving DecidableEq, Repr

namespace Direction

/-- The direction that a token names. -/
def ofToken (token : String) : Except ModelError Direction :=
  if token = "max" then .ok .maximize
  else if token = "min" then .ok .minimize
  else .error (.invalidDirection token)

/-- The sign of the direction. A column improves the objective when its reduced cost, multiplied by
the sign, is negative. -/
def sign {K : Type} [One K] [Neg K] : Direction → K
  | .maximize => 1
  | .minimize => -1

end Direction

/-! ### Relations -/

/-- How the left side of a constraint compares with its right side. -/
inductive Relation where
  | atMost
  | equal
  | atLeast
  deriving DecidableEq, Repr

namespace Relation

/-- The relation that a token names. -/
def ofToken (token : String) : Except ModelError Relation :=
  if token = "<=" || token = "≤" then .ok .atMost
  else if token = "==" || token = "=" then .ok .equal
  else if token = ">=" || token = "≥" then .ok .atLeast
  else .error (.invalidRelation token)

/-- The relation between the negated sides. -/
def reversed : Relation → Relation
  | .atMost => .atLeast
  | .equal => .equal
  | .atLeast => .atMost

@[simp] theorem reversed_reversed (r : Relation) : r.reversed.reversed = r := by cases r <;> rfl

/-- Whether a constraint with this relation has no slack that could be basic at the start, so that
it needs an artificial variable. -/
def needsArtificial : Relation → Bool
  | .atMost => false
  | .equal => true
  | .atLeast => true

theorem needsArtificial_iff {r : Relation} :
    r.needsArtificial = true ↔ r = .atLeast ∨ r = .equal := by
  cases r <;> simp [needsArtificial]

end Relation

end SimplexMethod
