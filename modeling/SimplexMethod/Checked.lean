import SimplexMethod.Solve
import SimplexMethod.Tableau.Checked

/-!
# SimplexMethod.Checked

**The method by checked operations only.** The library reads tables and lists with total operations,
which answer with zero where there is nothing to read, and keeps shapes in its types. Here nothing
is total and no shape is known: tables and lists of any lengths are handed from step to step, a
table is written cell by cell, every cell, column and list entry is asked for by an operation that
tests that it is there, and two lists that have to fit are compared. A step that asks for something
that is not there has a `Fault` and no result.

So whatever comes out of `Program.solveChecked` owes nothing to a default. That it is what
`Program.solve` answers, faults included, is shown in `SimplexMethod.Proofs.CheckedSolve`.

Whether there is room for a table (`Tableau.HasRoom`) is not asked again at each step, because no
table of a solve is larger than the equality form it begins with (`Program.hasRoom_of_visits`).
-/

namespace SimplexMethod.Checked

/-! ### Lists -/

section Lists

variable {α : Type}

/-- Entry `i` of the list. -/
def getAt (xs : List α) (i : Nat) : Except Fault α :=
  match xs[i]? with
  | some x => .ok x
  | none => .error .indexPastEnd

/-- The list with `x` as entry `i`. -/
def setAt (xs : List α) (i : Nat) (x : α) : Except Fault (List α) :=
  if i < xs.length then .ok (xs.set i x) else .error .indexPastEnd

/-- The list without entry `i`. -/
def eraseAt (xs : List α) (i : Nat) : Except Fault (List α) :=
  if i < xs.length then .ok (xs.eraseIdx i) else .error .indexPastEnd

/-- The list, filled up with `x` to the length `n`. -/
def fillUp (xs : List α) (n : Nat) (x : α) : Except Fault (List α) :=
  if xs.length ≤ n then .ok (xs ++ List.replicate (n - xs.length) x) else .error .indexPastEnd

end Lists

variable {K : Type} [Zero K]

/-! ### The equality form -/

/-- The last column, which a table without columns has not. -/
def rhsColumn (t : Tableau K) : Except Fault Nat :=
  if 0 < t.cols then .ok (t.cols - 1) else .error .indexPastEnd

/-- The right-hand side of row `i`. -/
def rhsAt (t : Tableau K) (i : Nat) : Except Fault K := do t.cell i (← rhsColumn t)

/-- The table with the list in row `i`, from the left. -/
def writeRow (t : Tableau K) (i : Nat) (xs : List K) : Except Fault (Tableau K) :=
  xs.zipIdx.foldlM (fun t x => t.withCell i x.2 x.1) t

/-- The table with one more column on the right, which must have one entry per row and takes the
place of columns that have been dropped. -/
def putBack (t : Tableau K) (xs : List K) : Except Fault (Tableau K) :=
  if xs.length = t.rows then .ok (t.appendColumn xs) else .error .columnLength

/-- An equality form while constraints are being written down. -/
structure Draft (K : Type) where
  tableau : Tableau K
  basis : List Nat
  artificialRows : List Nat
  /-- The artificial column to give out next. -/
  nextArtificial : Nat

/-- Writes down a constraint in the row of its number. -/
def Draft.add [One K] [Neg K] (variableCount : Nat) (d : Draft K) (c : Constraint K × Nat) :
    Except Fault (Draft K) := do
  let t ← writeRow d.tableau c.2 c.1.coefficients
  let t ← t.withCell c.2 (← rhsColumn t) c.1.rhs
  let slack := variableCount + c.2
  match c.1.relation with
  | .atMost =>
    return ⟨← t.withCell c.2 slack 1, ← setAt d.basis c.2 slack, d.artificialRows,
      d.nextArtificial⟩
  | .atLeast =>
    let t ← t.withCell c.2 slack (-1)
    return ⟨← t.withCell c.2 d.nextArtificial 1, ← setAt d.basis c.2 d.nextArtificial,
      d.artificialRows ++ [c.2], d.nextArtificial + 1⟩
  | .equal =>
    return ⟨← t.withCell c.2 d.nextArtificial 1, ← setAt d.basis c.2 d.nextArtificial,
      d.artificialRows ++ [c.2], d.nextArtificial + 1⟩

/-- The equality form of a program, written down constraint by constraint. -/
def equalityForm [One K] [Neg K] (p : Program K) : Except Fault (EqualityForm K) := do
  let artificialCount := p.constraints.countP (·.relation.needsArtificial)
  let blank : Draft K :=
    ⟨Tableau.zeros p.constraintCount (p.firstArtificial + artificialCount + 1),
      List.replicate p.constraintCount 0, [], p.firstArtificial⟩
  let d ← p.constraints.zipIdx.foldlM (Draft.add p.variableCount) blank
  return ⟨d.tableau, d.basis, d.artificialRows, p.variableCount, p.constraintCount⟩

/-! ### Repair -/

section Repair

variable [BEq K]

/-- Whether column `j` holds `v` in row `i` and zero in every other row. -/
def unitAt (t : Tableau K) (i j : Nat) (v : K) : Except Fault Bool := do
  let x ← t.cell i j
  let column ← t.columnAt j
  return x == v && column.zipIdx.all fun y => y.2 == i || y.1 == 0

/-- The rightmost column left of the right-hand side that holds `v` in row `i` and zero in every
other row. -/
def rightmostUnit (t : Tableau K) (i : Nat) (v : K) : Except Fault (Option Nat) := do
  (List.range (← rhsColumn t)).reverse.findM? fun j => unitAt t i j v

variable [One K] [Neg K] [Div K] [LE K] [DecidableLE K]

/-- The repair of row `i` for want of a recorded column that will do. -/
def rescan (t : Tableau K) (basis : List Nat) (i : Nat) (rhs : K) :
    Except Fault (Tableau K × List Nat) := do
  match ← rightmostUnit t i 1 with
  | some j => return (t, ← setAt basis i j)
  | none =>
    if rhs ≤ 0 then
      match ← rightmostUnit t i (-1) with
      | some j => return (← t.divideRowAt i (-1), ← setAt basis i j)
      | none => return (t, basis)
    else return (t, basis)

/-- The tableau and the basis after the repair of row `i`. -/
def repairRow (tb : Tableau K × List Nat) (i : Nat) : Except Fault (Tableau K × List Nat) := do
  let recorded ← getAt tb.2 i
  if ← unitAt tb.1 i recorded 1 then return tb
  else
    let rhs ← rhsAt tb.1 i
    if (← unitAt tb.1 i recorded (-1)) && decide (rhs ≤ 0) then
      return (← tb.1.divideRowAt i (-1), tb.2)
    else rescan tb.1 tb.2 i rhs

/-- The tableau and the basis after the repair of every row from the top. -/
def repair (t : Tableau K) (basis : List Nat) : Except Fault (Tableau K × List Nat) :=
  (List.range t.rows).foldlM repairRow (t, basis)

end Repair

/-! ### States -/

/-- What a step works on: costs, equations and the basic column of each row, of any lengths. -/
structure Sheet (K : Type) where
  objective : List K
  tableau : Tableau K
  basis : List Nat
  iterations : Nat

/-- What a sheet is worth, as computed when its basis was last repaired. -/
structure Prices (K : Type) where
  reducedCosts : List K
  objectiveValue : K

/-- The reduced cost of column `j`, given the costs of the basic columns. -/
def reducedCost [Neg K] [Add K] [Mul K] (objective basicCosts : List K) (t : Tableau K) (j : Nat) :
    Except Fault K := do
  let cost ← getAt objective j
  basicCosts.zipIdx.foldlM (fun sum c => do return sum + c.1 * (← t.cell c.2 j)) (-cost)

/-- The reduced costs and the objective value. -/
def prices [Neg K] [Add K] [Mul K] (objective : List K) (t : Tableau K) (basis : List Nat) :
    Except Fault (Prices K) := do
  let basicCosts ← basis.mapM (getAt objective)
  let reducedCosts ← (List.range objective.length).mapM (reducedCost objective basicCosts t)
  let terms ← basicCosts.zipIdx.mapM fun c => do return c.1 * (← rhsAt t c.2)
  return ⟨reducedCosts, total terms⟩

section Steps

variable [One K] [Neg K] [Add K] [Sub K] [Mul K] [Div K] [LE K] [DecidableLE K] [BEq K]

/-- The sheet after a repair, with its prices. -/
def settle (objective : List K) (t : Tableau K) (basis : List Nat) (iterations : Nat) :
    Except Fault (Sheet K × Prices K) := do
  let tb ← repair t basis
  return (⟨objective, tb.1, tb.2, iterations⟩, ← prices objective tb.1 tb.2)

/-- A sheet to begin a pass with. -/
def start (objective : List K) (t : Tableau K) (basis : List Nat) :
    Except Fault (Sheet K × Prices K) :=
  if t.cols = objective.length + 1 then
    if basis.length = t.rows then settle objective t basis 0 else .error .basisLength
  else .error .objectiveLength

/-- Subtracts the multiple of row `r` that clears column `c` from row `i`. -/
def clearRow (r c : Nat) (t : Tableau K) (i : Nat) : Except Fault (Tableau K) :=
  if i = r then .ok t
  else do
    let factor ← t.cell i c
    if factor == 0 then return t else t.subtractMultipleAt i r factor

/-- One step of elimination, row by row and then down the column that has been cleared. -/
def eliminate (t : Tableau K) (r c : Nat) : Except Fault (Tableau K) := do
  let pivot ← t.cell r c
  let t ← t.divideRowAt r pivot
  let t ← (List.range t.rows).foldlM (clearRow r c) t
  (List.range t.rows).foldlM (fun t i => t.withCell i c (if i = r then 1 else 0)) t

/-- The sheet after column `col` has become basic in row `row`, with its prices. -/
def Sheet.exchange (s : Sheet K) (row col : Nat) : Except Fault (Sheet K × Prices K) := do
  let t ← eliminate s.tableau row col
  settle s.objective t (← setAt s.basis row col) s.iterations

/-- The sheet with one more exchange counted. -/
def Sheet.count (s : Sheet K) : Sheet K := { s with iterations := s.iterations + 1 }

/-- The first column before `first` whose entry in row `i` counts as different from zero. -/
def replacement [LT K] [DecidableLT K] (t : Tableau K) (first : Nat) (tolerance : K) (i : Nat) :
    Except Fault (Option Nat) :=
  (List.range first).findM? fun j => do return decide (tolerance < magnitude (← t.cell i j))

/-- Deals with an artificial variable that is basic in row `i`, if there is one. -/
def Sheet.expelAt [LT K] [DecidableLT K] (first : Nat) (tolerance : K) (s : Sheet K) (i : Nat) :
    Except Fault (Nat × Sheet K) := do
  if (← getAt s.basis i) < first then return (i + 1, s)
  else
    match ← replacement s.tableau first tolerance i with
    | some j =>
      let next := (← s.exchange i j).1
      let t ← next.tableau.withCell i (← rhsColumn next.tableau) 0
      return (i + 1, { next with tableau := t })
    | none =>
      return (i, { s with tableau := ← s.tableau.eraseRowAt i, basis := ← eraseAt s.basis i })

/-- Deals with the artificial variables of the last `left` rows, which begin with row `i`. -/
def expelArtificials [LT K] [DecidableLT K] (first : Nat) (tolerance : K) :
    (left : Nat) → (i : Nat) → Sheet K → Except Fault (Sheet K)
  | 0, _, s => .ok s
  | left + 1, i, s => do
    let (i, s) ← s.expelAt first tolerance i
    expelArtificials first tolerance left i s

/-! ### Passes -/

variable [LT K] [DecidableLT K] [Selectable K]

/-- Exchanges until there is none to make, with room for `room` more in the counter. -/
def improve (settings : Settings K) (sign : K) :
    (room : Nat) → Sheet K × Prices K → Except Fault (Outcome × Sheet K × Prices K)
  | room, s =>
    match firstImproving s.2.reducedCosts sign settings.tolerance with
    | none => .ok (.optimal, s)
    | some col =>
      if settings.capReached s.1.iterations then .ok (.exhausted, s)
      else do
        match ← s.1.tableau.ratioTestAt col settings.tolerance with
        | none => return (.unbounded, s)
        | some row =>
          let next ← s.1.exchange row col
          match room with
          | 0 => .error .counterOverflow
          | room + 1 => improve settings sign room (next.1.count, next.2)

/-- A whole pass. -/
def pass (settings : Settings K) (sign : K) (s : Sheet K × Prices K) :
    Except Fault (Outcome × Sheet K × Prices K) :=
  improve settings sign (counterLimit - 1 - s.1.iterations) s

/-! ### Both phases -/

/-- The search for a feasible basis of a program in equality form. -/
def searchFeasible (form : EqualityForm K) (settings : Settings K) :
    Except Fault (Feasibility K) := do
  let first := form.firstArtificial
  let width ← rhsColumn form.tableau
  let objective ← fillUp (List.replicate first 0) width 1
  let begun ← start objective form.tableau form.basis
  let (outcome, s, worth) ← pass settings (Direction.sign .minimize) begun
  match outcome with
  | .unbounded => return .infeasible s.iterations
  | .exhausted => return .exhausted s.iterations
  | .optimal =>
    if settings.tolerance < magnitude worth.objectiveValue then return .infeasible s.iterations
    else
      let final ← expelArtificials first settings.tolerance s.tableau.rows 0 s
      let rhs ← final.tableau.columnAt width
      let t ← final.tableau.columnsBetweenAt 0 first
      return .feasible (← putBack t rhs) final.basis s.iterations

/-- The value of each of `n` columns, written down row by row from zero. -/
def values (n : Nat) (t : Tableau K) (basis : List Nat) : Except Fault (List K) :=
  basis.zipIdx.foldlM (fun values b => do setAt values b.1 ((← rhsAt t b.2) + 0))
    (List.replicate n 0)

/-- The solution that a priced sheet stands for. -/
def solutionOf (status : Status) (s : Sheet K × Prices K) (variableCount iterations : Nat) :
    Except Fault (Solution K) := do
  return { status := status, objectiveValue := .number (s.2.objectiveValue + 0),
           values := ← values s.1.objective.length s.1.tableau s.1.basis,
           reducedCosts := s.2.reducedCosts.map (· + 0), iterations := iterations,
           variableCount := variableCount }

/-- The second phase, from a feasible basis that took `earlier` exchanges to find. -/
def secondPhase (p : Program K) (settings : Settings K) (t : Tableau K) (basis : List Nat)
    (earlier : Nat) : Except Fault (Solution K) := do
  let objective ← fillUp p.objective p.firstArtificial 0
  let begun ← start objective t basis
  let (outcome, s) ← pass settings p.direction.sign begun
  let iterations ← Program.totalIterations earlier s.1.iterations
  match outcome with
  | .optimal => solutionOf .optimal s p.variableCount iterations
  | .unbounded => return .unbounded p.direction iterations p.variableCount
  | .exhausted => solutionOf .exhausted s p.variableCount iterations

/-- Both phases, for a program whose constraints fit its objective. -/
def solveFitting (p : Program K) (settings : Settings K) : Except Fault (Solution K) := do
  let form ← equalityForm p
  if form.hasArtificials then
    match ← searchFeasible form settings with
    | .feasible t basis iterations => secondPhase p settings t basis iterations
    | .infeasible iterations => return .infeasible iterations p.variableCount
    | .exhausted iterations => return .exhausted iterations p.variableCount
  else secondPhase p settings form.tableau form.basis 0

end Steps

end SimplexMethod.Checked

namespace SimplexMethod

/-- The answer to a program, found by checked operations only. -/
def Program.solveChecked {K : Type} [Zero K] [One K] [Neg K] [Add K] [Sub K] [Mul K] [Div K] [LT K]
    [DecidableLT K] [LE K] [DecidableLE K] [BEq K] [Selectable K] (p : Program K)
    (settings : Settings K) : Except SolveError (Solution K) :=
  match p.mismatch with
  | some e => .error (.model e)
  | none => (Checked.solveFitting p settings).mapError .fault

end SimplexMethod
