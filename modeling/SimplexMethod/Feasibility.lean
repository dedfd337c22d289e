import SimplexMethod.EqualityForm
import SimplexMethod.Pass

/-!
# SimplexMethod.Feasibility

**The search for a feasible basis.** The sum of the artificial variables is made as small as it
gets. If it stays away from zero, the program has no feasible point. If it becomes zero, the
artificial variables that are still basic, all at zero, are expelled from the basis, and the
artificial columns are dropped.

An expulsion takes any column of the program with an entry in the row; a row without one says
nothing about the program's own columns and is erased as redundant.
-/

namespace SimplexMethod

variable {K : Type}

/-- What a search for a feasible basis can find, with the number of exchanges counted. -/
inductive Feasibility (K : Type) where
  /-- A feasible basis and the equations in terms of it, without artificial columns. -/
  | feasible (tableau : Tableau K) (basis : List Nat) (iterations : Nat)
  /-- There is no feasible point. -/
  | infeasible (iterations : Nat)
  /-- The cap was reached before either was known. -/
  | exhausted (iterations : Nat)
  deriving DecidableEq

/-- A finished search for a feasible basis. -/
structure FeasibilitySearch (K : Type) where
  /-- What was found. -/
  result : Feasibility K
  /-- What happened, the first event first. -/
  events : List (Event K)
  deriving DecidableEq

namespace EqualityForm

/-- The costs whose sum over a basic solution is the sum of its artificial variables. -/
def artificialCosts [Zero K] [One K] (form : EqualityForm K) : List K :=
  (List.range (form.tableau.cols - 1)).map fun j => if j < form.firstArtificial then 0 else 1

@[simp] theorem length_artificialCosts [Zero K] [One K] (form : EqualityForm K) :
    form.artificialCosts.length = form.tableau.cols - 1 := by simp [artificialCosts]

end EqualityForm

/-! ### Expelling artificial variables -/

/-- What to do about the basic column of one row. -/
inductive Expulsion where
  /-- It is no artificial column and stays. -/
  | keep
  /-- Column `col` takes its place. -/
  | exchange (col : Nat)
  /-- No column can take its place, so the row is redundant. -/
  | erase
  deriving DecidableEq, Repr

namespace State

variable [Zero K] [One K] [Neg K] [Sub K] [Mul K] [Div K] [LT K] [DecidableLT K] [LE K]
  [DecidableLE K] [BEq K]

/-- The first column before `firstArtificial` whose entry in row `i` counts as different from
zero. -/
def replacement (s : State K) (firstArtificial : Nat) (tolerance : K) (i : Nat) : Option Nat :=
  (List.range firstArtificial).find? fun j => decide (tolerance < magnitude (s.tableau.entry i j))

/-- What to do about the basic column of row `i`. -/
def expulsion (s : State K) (firstArtificial : Nat) (tolerance : K) (i : Nat) : Expulsion :=
  if s.basis.getD i 0 < firstArtificial then .keep
  else
    match s.replacement firstArtificial tolerance i with
    | some j => .exchange j
    | none => .erase

/-- The next row to look at and the state in which to look at it, after row `i` is done with. After
an exchange the right-hand side of the row is set to zero, which it is but for rounding; an erased
row makes room for the next one at the same place.

Reduced costs and an objective value written down at the last exchange know nothing of the new
right-hand side and still count the row that is gone. No round reads either of them, and on the
columns that stay basic the reduced costs are zero all the same (`Program.PricedAt.reducedCost`). -/
def expelAt (s : State K) (firstArtificial : Nat) (tolerance : K) (i : Nat) :
    Except Fault (Nat × State K) :=
  match s.expulsion firstArtificial tolerance i with
  | .keep => .ok (i + 1, s)
  | .exchange j => do
    let next ← s.exchange i j
    return (i + 1, next.withRhs i 0)
  | .erase => .ok (i, s.eraseRow i)

/-- The state with every artificial variable expelled from the basis in its last `left` rows, which
begin with row `i`. -/
def expelArtificials (firstArtificial : Nat) (tolerance : K) :
    (left : Nat) → (i : Nat) → State K → Except Fault (State K)
  | 0, _, s => .ok s
  | left + 1, i, s => do
    let (i, s) ← s.expelAt firstArtificial tolerance i
    expelArtificials firstArtificial tolerance left i s

end State

/-! ### The search -/

namespace EqualityForm

variable [Zero K] [One K] [Neg K] [Add K] [Sub K] [Mul K] [Div K] [LT K] [DecidableLT K] [LE K]
  [DecidableLE K] [BEq K] [Selectable K]

/-- What the last state of a pass over the artificial costs says about the program. -/
def feasibilityOf (form : EqualityForm K) (settings : Settings K) (pass : Pass K) :
    Except Fault (Feasibility K) :=
  let s := pass.state
  match pass.outcome with
  | .unbounded => .ok (.infeasible s.iterations)
  | .exhausted => .ok (.exhausted s.iterations)
  | .optimal =>
    if settings.tolerance < magnitude s.objectiveValue then .ok (.infeasible s.iterations)
    else do
      let start := form.firstArtificial
      let final ← s.expelArtificials start settings.tolerance s.tableau.rows 0
      let rhs := final.tableau.column (final.tableau.cols - 1)
      return .feasible ((final.tableau.columnsBetween 0 start).appendColumn rhs) final.basis
        s.iterations

/-- The search for a feasible basis of a program in equality form. -/
def searchFeasible (form : EqualityForm K) (settings : Settings K) :
    Except Fault (FeasibilitySearch K) := do
  let start ← State.ofTableau form.artificialCosts form.tableau form.basis
  let pass ← start.pass settings .one (Direction.sign .minimize)
  return ⟨← form.feasibilityOf settings pass, pass.events⟩

end EqualityForm

end SimplexMethod
