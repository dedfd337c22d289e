import SimplexMethod.Fault
import SimplexMethod.Scalar
import SimplexMethod.State.Repair

/-!
# SimplexMethod.State.Basic

**A point of the simplex method**: equations with a basic column in each row, and the costs that
weigh the columns.

Design points:

- **Shapes belong to the type.** A `State` has one cost per column left of the right-hand side, one
  basic column per row, and every basic column has a cost. What reads a state therefore never fails.
- **Reduced costs and objective value are functions of the state**, not fields, so they are always
  those of the state that is read. Costs that are written down once per exchange would be out of
  date in one place, the rounds of `State.expelAt`. Both are computed from the current basis in a
  stated order, because rounding shows it.
- **Every state has its basis repaired** (`SimplexMethod.State.Repair`) when it is made, from
  outside with `State.ofTableau` and from another state with `State.exchange`.
-/

namespace SimplexMethod

variable {K : Type}

/-- Equations with a basis, and costs. -/
structure State (K : Type) where
  /-- The cost of each column left of the right-hand side. -/
  objective : List K
  /-- The equations, with the right-hand sides in the last column. -/
  tableau : Tableau K
  /-- The basic column of each row. -/
  basis : List Nat
  /-- How many exchanges have been counted. -/
  iterations : Nat
  /-- Every column but the last has a cost. -/
  cols_tableau : tableau.cols = objective.length + 1
  /-- Every row has a basic column. -/
  length_basis : basis.length = tableau.rows
  /-- Every basic column has a cost. -/
  basis_lt : ∀ b ∈ basis, b < objective.length
  deriving DecidableEq

namespace State

/-- The four things that a state is made of determine it. -/
theorem ext {s t : State K} (hobjective : s.objective = t.objective)
    (htableau : s.tableau = t.tableau) (hbasis : s.basis = t.basis)
    (hiterations : s.iterations = t.iterations) : s = t := by
  obtain ⟨objective, tableau, basis, iterations, _, _, _⟩ := s
  cases hobjective
  cases htableau
  cases hbasis
  cases hiterations
  rfl

/-- The right-hand side of a state has a column of its own. -/
theorem cols_pos (s : State K) : 0 < s.tableau.cols := by
  rw [s.cols_tableau]
  omega

/-- Left of the right-hand side are the columns that have a cost. -/
theorem cols_sub_one (s : State K) : s.tableau.cols - 1 = s.objective.length := by
  rw [s.cols_tableau, Nat.add_sub_cancel]

/-! ### Reading a state -/

section Read

variable [Zero K]

/-- The right-hand side of row `i`. -/
def rhs (s : State K) (i : Nat) : K := s.tableau.rhs i

/-- The cost of the basic column of row `i`. -/
def basicCost (s : State K) (i : Nat) : K := s.objective.getD (s.basis.getD i 0) 0

/-- The reduced cost of column `j`: the costs of the basic columns, weighted with the column, less
the column's own cost, which is where the summation starts. -/
def reducedCost [Neg K] [Add K] [Mul K] (s : State K) (j : Nat) : K :=
  (List.range s.tableau.rows).foldl (fun sum i => sum + s.basicCost i * s.tableau.entry i j)
    (-(s.objective.getD j 0))

/-- The reduced cost of each column left of the right-hand side. -/
def reducedCosts [Neg K] [Add K] [Mul K] (s : State K) : List K :=
  (List.range s.objective.length).map s.reducedCost

/-- The objective value at the basic solution: the right-hand sides, weighted with the costs of the
basic columns. -/
def objectiveValue [Neg K] [Add K] [Mul K] (s : State K) : K :=
  total ((List.range s.tableau.rows).map fun i => s.basicCost i * s.rhs i)

/-- The lowest row in which column `j` is basic. -/
def lastRowOf (s : State K) (j : Nat) : Option Nat :=
  (List.range s.tableau.rows).reverse.find? fun i => s.basis.getD i 0 == j

/-- The value of column `j` at the basic solution: its right-hand side where it is basic, otherwise
zero. -/
def value [Add K] (s : State K) (j : Nat) : K :=
  match s.lastRowOf j with
  | some i => s.rhs i + 0
  | none => 0

/-- The right-hand side of row `i`, which must exist. -/
def rhsAt (s : State K) (i : Nat) : Except Fault K :=
  if i < s.tableau.rows then .ok (s.rhs i)
  else .error (.cellOutside i (s.tableau.cols - 1) s.tableau.rows s.tableau.cols)

end Read

/-! ### Making a state -/

section Settle

variable [Zero K] [One K] [Neg K] [Div K] [LE K] [DecidableLE K] [BEq K]

/-- The first row, with its recorded column, whose recorded column is outside the tableau. -/
def firstOutside (basis : List Nat) (cols : Nat) : Option (Nat × Nat) :=
  basis.zipIdx.find? fun b => cols ≤ b.1

/-- The state with the given costs, equations and recorded basis, after a repair of the basis. -/
def settle (objective : List K) (tableau : Tableau K) (basis : List Nat) (iterations : Nat)
    (hcols : tableau.cols = objective.length + 1) (hbasis : basis.length = tableau.rows) :
    Except Fault (State K) :=
  match firstOutside basis tableau.cols with
  | some (b, i) => .error (.cellOutside i b tableau.rows tableau.cols)
  | none =>
    let repaired := tableau.repair basis
    if h : ∀ b ∈ repaired.2, b < objective.length then
      .ok ⟨objective, repaired.1, repaired.2, iterations, by simpa [repaired] using hcols,
        by simpa [repaired] using hbasis, h⟩
    else .error .indexPastEnd

/-- A settled state holds the repaired tableau and basis, and everything else as it was given. -/
theorem settle_eq_ok {objective : List K} {tableau : Tableau K} {basis : List Nat}
    {iterations : Nat} {hcols : tableau.cols = objective.length + 1}
    {hbasis : basis.length = tableau.rows} {s : State K}
    (h : settle objective tableau basis iterations hcols hbasis = .ok s) :
    s.objective = objective ∧ (s.tableau, s.basis) = tableau.repair basis ∧
      s.iterations = iterations := by
  unfold settle at h
  split at h
  · cases h
  · dsimp only at h
    split at h
    · cases h
      exact ⟨rfl, rfl, rfl⟩
    · cases h

/-- The state with the given costs, equations and recorded basis, at the start of the count. -/
def ofTableau (objective : List K) (tableau : Tableau K) (basis : List Nat) :
    Except Fault (State K) :=
  if hcols : tableau.cols = objective.length + 1 then
    if hbasis : basis.length = tableau.rows then settle objective tableau basis 0 hcols hbasis
    else .error .basisLength
  else .error .objectiveLength

/-- The state after column `col` has become basic in row `row` in place of the column that was. The
column may be any of the tableau, but with the right-hand side no state comes out, since it has no
cost. -/
def exchange [Sub K] [Mul K] (s : State K) (row col : Nat) : Except Fault (State K) :=
  if row < s.tableau.rows ∧ col < s.tableau.cols then
    settle s.objective (s.tableau.eliminate row col) (s.basis.set row col) s.iterations
      (by simpa using s.cols_tableau) (by simpa using s.length_basis)
  else .error (.cellOutside row col s.tableau.rows s.tableau.cols)

/-- A state made from outside starts the count. -/
theorem ofTableau_eq_ok {objective : List K} {tableau : Tableau K} {basis : List Nat} {s : State K}
    (h : ofTableau objective tableau basis = .ok s) :
    s.objective = objective ∧ (s.tableau, s.basis) = tableau.repair basis ∧ s.iterations = 0 := by
  unfold ofTableau at h
  split at h
  · split at h
    · exact settle_eq_ok h
    · cases h
  · cases h

/-- An exchange is an elimination step, followed by a repair of the basis that records it. -/
theorem exchange_eq_ok [Sub K] [Mul K] {s t : State K} {row col : Nat}
    (h : s.exchange row col = .ok t) :
    t.objective = s.objective ∧
      (t.tableau, t.basis) = (s.tableau.eliminate row col).repair (s.basis.set row col) ∧
      t.iterations = s.iterations := by
  unfold exchange at h
  split at h
  · exact settle_eq_ok h
  · cases h

end Settle

/-! ### Small changes -/

/-- The state with one more exchange counted. -/
def count (s : State K) : State K := { s with iterations := s.iterations + 1 }

/-- The state with `x` as the right-hand side of row `i`. -/
def withRhs (s : State K) (i : Nat) (x : K) : State K where
  objective := s.objective
  tableau := s.tableau.set i (s.tableau.cols - 1) x
  basis := s.basis
  iterations := s.iterations
  cols_tableau := s.cols_tableau
  length_basis := s.length_basis
  basis_lt := s.basis_lt

/-- The basis loses an entry exactly when the tableau loses a row. -/
theorem length_basis_eraseRow [Zero K] (s : State K) (i : Nat) :
    (s.basis.eraseIdx i).length = (s.tableau.eraseRow i).rows := by
  by_cases h : i < s.tableau.rows
  · rw [Tableau.rows_eraseRow h, List.length_eraseIdx_of_lt (s.length_basis ▸ h), s.length_basis]
  · rw [Tableau.eraseRow, if_neg h,
      List.eraseIdx_of_length_le (s.length_basis ▸ Nat.le_of_not_lt h), s.length_basis]

/-- The state without row `i` and its basic column. -/
def eraseRow [Zero K] (s : State K) (i : Nat) : State K where
  objective := s.objective
  tableau := s.tableau.eraseRow i
  basis := s.basis.eraseIdx i
  iterations := s.iterations
  cols_tableau := by rw [Tableau.cols_eraseRow]; exact s.cols_tableau
  length_basis := s.length_basis_eraseRow i
  basis_lt := fun b hb => s.basis_lt b (List.mem_of_mem_eraseIdx hb)

end State

end SimplexMethod
