import SimplexMethod.Program.Basic
import SimplexMethod.Tableau.Lemmas

/-!
# SimplexMethod.EqualityForm

**A program as a system of equations over non-negative variables.** Each constraint gets a column of
its own that takes up the difference between its two sides, and a constraint that is not an upper
bound gets an artificial column besides, so that every row has a column to start the basis with.

The columns are, from left to right:

| columns | what they stand for |
|---|---|
| `0 … n-1` | the variables of the program |
| `n … n+m-1` | the slack (`1`) or surplus (`-1`) of each constraint; all zero for an equation |
| `n+m … n+m+a-1` | one artificial variable per constraint that is not an upper bound |
| `n+m+a` | the right-hand sides |

Each entry is written down as a function of its row and column, so the layout can be read off one
definition, `EqualityForm.cellOf`.
-/

namespace SimplexMethod

variable {K : Type}

/-! ### Artificial variables of a program -/

namespace Program

/-- The rows of the constraints that need an artificial variable, in order. -/
def artificialRows (p : Program K) : List Nat :=
  (p.constraints.zipIdx.filter fun c => c.1.relation.needsArtificial).map (·.2)

/-- The first column after those of the variables and slacks. -/
def firstArtificial (p : Program K) : Nat := p.variableCount + p.constraintCount

/-- The artificial column of constraint `i`, which comes after those of the constraints before
it. -/
def artificialColumn (p : Program K) (i : Nat) : Nat :=
  p.firstArtificial + (p.constraints.take i).countP (·.relation.needsArtificial)

/-- The column that starts out as the basic one of constraint `i`: its slack if it is an upper
bound, otherwise its artificial column. -/
def startingColumn (p : Program K) (i : Nat) (c : Constraint K) : Nat :=
  if c.relation.needsArtificial then p.artificialColumn i else p.variableCount + i

end Program

/-! ### The system of equations -/

/-- A program as a system of equations with a basis to start from. -/
structure EqualityForm (K : Type) where
  /-- The equations, one per row, with the right-hand sides in the last column. -/
  tableau : Tableau K
  /-- The basic column of each row at the start. -/
  basis : List Nat
  /-- The row of each artificial column. -/
  artificialRows : List Nat
  /-- The number of variables of the program. -/
  variableCount : Nat
  /-- The number of constraints of the program. -/
  constraintCount : Nat
  deriving DecidableEq

namespace EqualityForm

/-- The coefficient of a constraint's own slack or surplus column. -/
def slackCoefficient [Zero K] [One K] [Neg K] : Relation → K
  | .atMost => 1
  | .equal => 0
  | .atLeast => -1

/-- The entry of column `j` in the row of constraint `i`. -/
def cellOf [Zero K] [One K] [Neg K] (p : Program K) (i : Nat) (c : Constraint K) (j : Nat) : K :=
  if j < p.variableCount then c.coefficients.getD j 0
  else if j < p.firstArtificial then
    if j = p.variableCount + i then slackCoefficient c.relation else 0
  else if j < p.firstArtificial + p.artificialRows.length then
    if c.relation.needsArtificial ∧ j = p.artificialColumn i then 1 else 0
  else c.rhs

/-- The equality form of a program, each of whose constraints has one coefficient per variable. -/
def ofProgram [Zero K] [One K] [Neg K] (p : Program K) : EqualityForm K where
  tableau := Tableau.ofFn p.constraintCount (p.firstArtificial + p.artificialRows.length + 1)
    fun i j => (p.constraints[i]?.map fun c => cellOf p i c j).getD 0
  basis := p.constraints.zipIdx.map fun c => p.startingColumn c.2 c.1
  artificialRows := p.artificialRows
  variableCount := p.variableCount
  constraintCount := p.constraintCount

section Layout

variable [Zero K] [One K] [Neg K]

@[simp] theorem rows_ofProgram (p : Program K) :
    (ofProgram p).tableau.rows = p.constraintCount := rfl

@[simp] theorem cols_ofProgram (p : Program K) :
    (ofProgram p).tableau.cols = p.firstArtificial + p.artificialRows.length + 1 := rfl

@[simp] theorem length_basis_ofProgram (p : Program K) :
    (ofProgram p).basis.length = p.constraintCount := by
  simp [ofProgram, Program.constraintCount]

/-- The row of a constraint holds what the layout says. -/
theorem entry_ofProgram {p : Program K} {i j : Nat} {c : Constraint K}
    (hc : p.constraints[i]? = some c) (hj : j < p.firstArtificial + p.artificialRows.length + 1) :
    (ofProgram p).tableau.entry i j = cellOf p i c j := by
  have hi : i < p.constraintCount := (List.getElem?_eq_some_iff.1 hc).1
  rw [ofProgram, Tableau.entry_ofFn _ hi hj, hc]
  rfl

end Layout

/-- The first artificial column, after those of the variables and slacks. -/
def firstArtificial (f : EqualityForm K) : Nat := f.variableCount + f.constraintCount

/-- Whether there are artificial variables, so that a feasible basis has to be searched for. -/
def hasArtificials (f : EqualityForm K) : Bool := !f.artificialRows.isEmpty

end EqualityForm

/-- A basis has to be searched for exactly if some constraint is not an upper bound. -/
theorem Program.hasArtificials_iff [Zero K] [One K] [Neg K] {p : Program K} :
    (EqualityForm.ofProgram p).hasArtificials = true ↔
      ∃ c ∈ p.constraints, c.relation = .atLeast ∨ c.relation = .equal := by
  have hrows : (EqualityForm.ofProgram p).hasArtificials = true ↔
      ∃ i, i ∈ p.artificialRows := by
    simp [EqualityForm.hasArtificials, EqualityForm.ofProgram, List.eq_nil_iff_forall_not_mem]
  simp only [hrows, Program.artificialRows, List.mem_map, List.mem_filter,
    Relation.needsArtificial_iff]
  constructor
  · rintro ⟨-, ⟨c, i⟩, ⟨hc, hrelation⟩, -⟩
    exact ⟨c, List.fst_mem_of_mem_zipIdx hc, hrelation⟩
  · intro ⟨c, hc, hrelation⟩
    obtain ⟨i, hi, rfl⟩ := List.getElem_of_mem hc
    exact ⟨i, (p.constraints[i], i),
      ⟨List.mem_zipIdx_iff_getElem?.2 (List.getElem?_eq_getElem hi), hrelation⟩, rfl⟩

end SimplexMethod
