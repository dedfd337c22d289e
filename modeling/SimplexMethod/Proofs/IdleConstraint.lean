import SimplexMethod.Proofs.IdleRow

/-!
# SimplexMethod.Proofs.IdleConstraint

**A constraint that says nothing.** That zero times every variable is at least zero holds
everywhere, but it is not an upper bound, so it brings a slack column and an artificial one.

In the equality form the slack is put in after the other slacks and moves the artificial columns to
the right by one, and the artificial column comes last (`entry_ofProgram_pushIdle`). So the search
for a feasible basis begins at a state that widens the one without the constraint
(`Starts.widens`), and the row of the constraint is the one that waits (`Starts.waiting`).
-/

namespace SimplexMethod

open Tableau (rowBefore)

/-! ### The program with the idle constraint -/

/-- Zero times each of `n` variables is at least zero. -/
def Constraint.idle (n : Nat) : Constraint ℚ := ⟨List.replicate n 0, .atLeast, 0⟩

namespace Program

variable {p : Program ℚ}

/-- The program with a constraint more that says nothing. -/
def pushIdle (p : Program ℚ) : Program ℚ := p.push (Constraint.idle p.variableCount)

@[simp] theorem variableCount_pushIdle (p : Program ℚ) :
    p.pushIdle.variableCount = p.variableCount := rfl

@[simp] theorem constraintCount_pushIdle (p : Program ℚ) :
    p.pushIdle.constraintCount = p.constraintCount + 1 := List.length_append

@[simp] theorem firstArtificial_pushIdle (p : Program ℚ) :
    p.pushIdle.firstArtificial = p.firstArtificial + 1 := by
  rw [firstArtificial, variableCount_pushIdle, constraintCount_pushIdle, firstArtificial,
    Nat.add_assoc]

@[simp] theorem length_artificialRows_pushIdle (p : Program ℚ) :
    p.pushIdle.artificialRows.length = p.artificialRows.length + 1 := by
  rw [length_artificialRows, length_artificialRows, pushIdle, constraints_push, List.countP_append]
  rfl

theorem getElem?_constraints_pushIdle {i : Nat} {c : Constraint ℚ}
    (hc : p.constraints[i]? = some c) : p.pushIdle.constraints[i]? = some c := by
  rw [pushIdle, constraints_push, List.getElem?_append_left (List.getElem?_eq_some_iff.1 hc).1, hc]

theorem getElem?_constraints_pushIdle_last (p : Program ℚ) :
    p.pushIdle.constraints[p.constraintCount]? = some (Constraint.idle p.variableCount) :=
  List.getElem?_concat_length

/-- The artificial columns move to the right, past the slack of the idle constraint. -/
theorem artificialColumn_pushIdle {i : Nat} (hi : i ≤ p.constraintCount) :
    p.pushIdle.artificialColumn i = p.artificialColumn i + 1 := by
  rw [artificialColumn, pushIdle, constraints_push, List.take_append_of_le_length hi, ← pushIdle,
    firstArtificial_pushIdle, artificialColumn]
  omega

theorem startingColumn_pushIdle {i : Nat} (hi : i < p.constraintCount) (c : Constraint ℚ) :
    p.pushIdle.startingColumn i c = rowBefore p.firstArtificial (p.startingColumn i c) := by
  unfold startingColumn
  split
  · rw [artificialColumn_pushIdle hi.le,
      Tableau.rowBefore_of_le (p.firstArtificial_le_artificialColumn i)]
  · rw [Tableau.rowBefore_of_lt (by unfold firstArtificial; omega), variableCount_pushIdle]

/-- The idle constraint fits every objective. -/
theorem mismatch_pushIdle (p : Program ℚ) : p.pushIdle.mismatch = p.mismatch := by
  rw [mismatch, mismatch, pushIdle, constraints_push, List.zipIdx_append, List.find?_append,
    variableCount_push]
  have hfits : ([Constraint.idle p.variableCount].zipIdx (0 + p.constraints.length)).find?
      (fun c => c.1.coefficients.length != p.variableCount) = none := by
    simp [Constraint.idle]
  rw [hfits, Option.or_none]

/-- Its slack costs nothing. -/
theorem extendedCosts_pushIdle (p : Program ℚ) :
    p.pushIdle.extendedCosts = p.extendedCosts ++ [0] := by
  rw [extendedCosts, constraintCount_pushIdle, List.replicate_succ', ← List.append_assoc]
  rfl

end Program

/-! ### The equality form with the idle constraint -/

namespace EqualityForm

variable {p : Program ℚ}

theorem cellOf_pushIdle {i j : Nat} (hi : i ≤ p.constraintCount) (c : Constraint ℚ)
    (hj : j < p.firstArtificial + p.artificialRows.length) :
    cellOf p.pushIdle i c (rowBefore p.firstArtificial j) = cellOf p i c j := by
  unfold cellOf
  rw [Program.firstArtificial_pushIdle, Program.length_artificialRows_pushIdle,
    Program.variableCount_pushIdle, Program.artificialColumn_pushIdle hi]
  by_cases hlt : j < p.firstArtificial
  · rw [Tableau.rowBefore_of_lt hlt, if_pos (Nat.lt_succ_of_lt hlt), if_pos hlt]
  · have hle : p.variableCount ≤ p.firstArtificial := Nat.le_add_right _ _
    have hvariable : ¬j < p.variableCount := by omega
    rw [Tableau.rowBefore_of_le (not_lt.1 hlt), if_neg (by omega), if_neg (by omega),
      if_pos (by omega), if_neg hvariable, if_neg hlt, if_pos hj]
    simp only [Nat.succ_inj]

/-- The row of the idle constraint is zero in the columns that were there before. -/
theorem cellOf_idle {j : Nat} (hj : j < p.firstArtificial + p.artificialRows.length) :
    cellOf p p.constraintCount (Constraint.idle p.variableCount) j = 0 := by
  have hlast := p.artificialColumn_constraintCount
  by_cases hvariable : j < p.variableCount
  · rw [cellOf_variable _ hvariable]
    exact List.getD_replicate _ hvariable
  · by_cases hslack : j < p.firstArtificial
    · obtain ⟨k, rfl⟩ := Nat.exists_eq_add_of_le (not_lt.1 hvariable)
      have hk : k < p.constraintCount := Nat.add_lt_add_iff_left.1 hslack
      rw [cellOf_slack _ hk, if_neg hk.ne]
    · rw [cellOf_artificial _ (not_lt.1 hslack) hj]
      exact if_neg fun h => by omega

theorem entry_ofProgram_pushIdle (i : Nat) {j : Nat}
    (hj : j < p.firstArtificial + p.artificialRows.length) :
    (ofProgram p.pushIdle).tableau.entry i (rowBefore p.firstArtificial j) =
      (ofProgram p).tableau.entry i j := by
  have hcol : rowBefore p.firstArtificial j <
      p.pushIdle.firstArtificial + p.pushIdle.artificialRows.length + 1 := by
    rw [Program.firstArtificial_pushIdle, Program.length_artificialRows_pushIdle]
    unfold rowBefore
    split <;> omega
  rcases lt_trichotomy i p.constraintCount with hlt | rfl | hgt
  · have hc : p.constraints[i]? = some p.constraints[i] := List.getElem?_eq_getElem hlt
    rw [entry_ofProgram (Program.getElem?_constraints_pushIdle hc) hcol,
      entry_ofProgram hc (by omega), cellOf_pushIdle hlt.le _ hj]
  · rw [entry_ofProgram p.getElem?_constraints_pushIdle_last hcol, cellOf_pushIdle le_rfl _ hj,
      cellOf_idle hj, Tableau.entry_of_le (rows_ofProgram p).le]
  · have hrows : (ofProgram p.pushIdle).tableau.rows ≤ i := by
      rw [rows_ofProgram, Program.constraintCount_pushIdle]
      exact hgt
    rw [Tableau.entry_of_le hrows, Tableau.entry_of_le ((rows_ofProgram p).le.trans hgt.le)]

theorem rhs_ofProgram_pushIdle (i : Nat) :
    (ofProgram p.pushIdle).tableau.rhs i = (ofProgram p).tableau.rhs i := by
  rcases lt_trichotomy i p.constraintCount with hlt | rfl | hgt
  · have hc : p.constraints[i]? = some p.constraints[i] := List.getElem?_eq_getElem hlt
    rw [rhs_ofProgram (Program.getElem?_constraints_pushIdle hc), rhs_ofProgram hc]
  · rw [rhs_ofProgram p.getElem?_constraints_pushIdle_last,
      Tableau.rhs_of_le (rows_ofProgram p).le]
    rfl
  · have hrows : (ofProgram p.pushIdle).tableau.rows ≤ i := by
      rw [rows_ofProgram, Program.constraintCount_pushIdle]
      exact hgt
    rw [Tableau.rhs_of_le hrows, Tableau.rhs_of_le ((rows_ofProgram p).le.trans hgt.le)]

/-- The columns that belong to the idle constraint have no entry in the rows of the others. -/
theorem entry_ofProgram_pushIdle_added {i j : Nat} (hi : i < p.constraintCount)
    (hj : j = p.firstArtificial ∨ j = p.firstArtificial + p.artificialRows.length + 1) :
    (ofProgram p.pushIdle).tableau.entry i j = 0 := by
  have hc := p.getElem?_constraints_pushIdle (List.getElem?_eq_getElem hi)
  have hfirst := p.firstArtificial_pushIdle
  have hlength := p.length_artificialRows_pushIdle
  rw [entry_ofProgram hc (by omega)]
  rcases hj with rfl | rfl
  · rw [show p.firstArtificial = p.pushIdle.variableCount + p.constraintCount from rfl,
      cellOf_slack _ (by rw [Program.constraintCount_pushIdle]; omega), if_neg hi.ne']
  · rw [cellOf_artificial _ (by omega) (by omega)]
    refine if_neg fun h => ?_
    -- the artificial column of a constraint comes before that of the idle one
    have hlt := Program.artificialColumn_lt hc h.1 hi
    rw [← h.2, Program.artificialColumn_pushIdle le_rfl,
      Program.artificialColumn_constraintCount] at hlt
    exact lt_irrefl _ hlt

theorem entry_ofProgram_pushIdle_slack (p : Program ℚ) :
    (ofProgram p.pushIdle).tableau.entry p.constraintCount p.firstArtificial = -1 := by
  have hfirst := p.firstArtificial_pushIdle
  rw [entry_ofProgram p.getElem?_constraints_pushIdle_last (by omega),
    show p.firstArtificial = p.pushIdle.variableCount + p.constraintCount from rfl,
    cellOf_slack _ (by rw [Program.constraintCount_pushIdle]; omega), if_pos rfl]
  rfl

theorem basis_ofProgram_pushIdle_last (p : Program ℚ) :
    (ofProgram p.pushIdle).basis.getD p.constraintCount 0 =
      p.firstArtificial + p.artificialRows.length + 1 := by
  rw [getD_basis_ofProgram p.getElem?_constraints_pushIdle_last,
    ← p.artificialColumn_constraintCount, ← Program.artificialColumn_pushIdle le_rfl]
  rfl

/-! ### The states that the searches begin at -/

/-- The search of a program begins at the state. -/
structure Starts (p : Program ℚ) (s : State ℚ) : Prop where
  objective : s.objective = (ofProgram p).artificialCosts
  tableau : s.tableau = (ofProgram p).tableau
  basis : s.basis = (ofProgram p).basis
  iterations : s.iterations = 0

/-- The reduced costs of the columns that the idle constraint adds to the search: a unit of its
slack would raise its artificial variable by one. -/
def idlePrice (gap j : Nat) : ℚ := if j = gap then -1 else 0

/-- Every search has a state to begin at. -/
theorem exists_starts (p : Program ℚ) :
    ∃ s, State.ofTableau (ofProgram p).artificialCosts (ofProgram p).tableau
      (ofProgram p).basis = .ok s ∧ Starts p s := by
  have hcols : (ofProgram p).tableau.cols = (ofProgram p).artificialCosts.length + 1 := by
    rw [length_artificialCosts, cols_ofProgram, Nat.add_sub_cancel]
  obtain ⟨s, hs, hobjective, htableau, hbasis, hiterations⟩ :=
    State.exists_ofTableau hcols (isBasis_ofProgram p)
  exact ⟨s, hs, hobjective, htableau, hbasis, hiterations⟩

namespace Starts

variable {s w : State ℚ}

theorem canonical (h : Starts p s) : s.Canonical := by
  rw [State.Canonical, h.tableau, h.basis]
  exact isBasis_ofProgram p

theorem length (h : Starts p s) :
    s.objective.length = p.firstArtificial + p.artificialRows.length := by
  rw [h.objective, length_artificialCosts, cols_ofProgram, Nat.add_sub_cancel]

theorem length_pushIdle (h : Starts p.pushIdle w) :
    w.objective.length = p.firstArtificial + p.artificialRows.length + 2 := by
  rw [h.length, Program.firstArtificial_pushIdle, Program.length_artificialRows_pushIdle]
  omega

theorem rows (h : Starts p s) : s.tableau.rows = p.constraintCount := by
  rw [h.tableau, rows_ofProgram]

/-- The columns that the idle constraint adds: its slack and its artificial variable. -/
theorem eq_of_added (hs : Starts p s) (hw : Starts p.pushIdle w) {j : Nat}
    (hj : State.Added p.firstArtificial s j) (hlt : j < w.objective.length) :
    j = p.firstArtificial ∨ j = p.firstArtificial + p.artificialRows.length + 1 := by
  have hlength := hs.length
  have hlength' := hw.length_pushIdle
  rcases hj with hj | hj
  · exact Or.inl hj
  · exact Or.inr (by omega)

/-- **The searches begin at a narrow and a wide state.** -/
theorem widens (hs : Starts p s) (hw : Starts p.pushIdle w) :
    State.Widens p.firstArtificial s w := by
  have hlength := hs.length
  have hlength' := hw.length_pushIdle
  refine ⟨hs.canonical, hw.canonical, ?_, by omega, by omega, ?_, fun j hj => ?_, fun i hi => ?_,
    fun i j hj => ?_, fun i => ?_, fun i hi j hj hlt => ?_⟩
  · rw [hs.iterations, hw.iterations]
  · rw [hs.rows, hw.rows, Program.constraintCount_pushIdle]
    exact Nat.le_succ _
  · have hj' : rowBefore p.firstArtificial j < w.objective.length := by
      unfold rowBefore
      split <;> omega
    rw [State.getD_objective_of_artificialCosts hw.objective hj',
      State.getD_objective_of_artificialCosts hs.objective hj]
    refine if_congr ?_ rfl rfl
    show rowBefore p.firstArtificial j < p.pushIdle.firstArtificial ↔ j < p.firstArtificial
    rw [Program.firstArtificial_pushIdle]
    unfold rowBefore
    split <;> omega
  · rw [hs.rows] at hi
    have hc : p.constraints[i]? = some p.constraints[i] := List.getElem?_eq_getElem hi
    rw [hs.basis, hw.basis, getD_basis_ofProgram hc,
      getD_basis_ofProgram (Program.getElem?_constraints_pushIdle hc),
      Program.startingColumn_pushIdle hi]
  · rw [hs.length] at hj
    rw [hs.tableau, hw.tableau, entry_ofProgram_pushIdle i hj]
  · rw [State.rhs, State.rhs, hs.tableau, hw.tableau, rhs_ofProgram_pushIdle]
  · rw [hw.tableau]
    exact entry_ofProgram_pushIdle_added (hs.rows ▸ hi) (hs.eq_of_added hw hj hlt)

theorem waiting (hs : Starts p s) (hw : Starts p.pushIdle w) :
    State.Waiting p.firstArtificial s w := by
  refine ⟨?_, ?_, ?_⟩
  · rw [hs.rows, hw.rows, Program.constraintCount_pushIdle]
  · rw [hs.rows, hw.tableau, entry_ofProgram_pushIdle_slack]
  · rw [hs.rows, hw.basis, basis_ofProgram_pushIdle_last]
    omega

theorem addedCosts (hs : Starts p s) (hw : Starts p.pushIdle w) :
    State.Widens.AddedCosts p.firstArtificial (idlePrice p.firstArtificial) s w := by
  have hlength' := hw.length_pushIdle
  have hrows' : w.tableau.rows = p.constraintCount + 1 := by
    rw [hw.rows, Program.constraintCount_pushIdle]
  have hlast : w.basis.getD p.constraintCount 0 =
      p.firstArtificial + p.artificialRows.length + 1 := by
    rw [hw.basis, basis_ofProgram_pushIdle_last]
  have hcost : ∀ j < w.objective.length,
      w.objective.getD j 0 = if j < p.firstArtificial + 1 then 0 else 1 := by
    intro j hj
    rw [State.getD_objective_of_artificialCosts hw.objective hj, ← Program.firstArtificial_pushIdle]
    rfl
  intro j hj hlt
  unfold idlePrice
  rcases hs.eq_of_added hw hj hlt with rfl | rfl
  · -- of all rows only that of the idle constraint has an entry in its slack column
    have hnone : ∀ i ∈ Finset.range p.constraintCount,
        w.basicCost i * w.tableau.entry i p.firstArtificial = 0 := by
      intro i hi
      rw [hw.tableau, entry_ofProgram_pushIdle_added (Finset.mem_range.1 hi) (Or.inl rfl), mul_zero]
    rw [State.reducedCost_eq_sum, hrows', Finset.sum_range_succ, Finset.sum_eq_zero hnone,
      State.basicCost, hlast, hcost _ (by omega), hcost _ hlt, hw.tableau,
      entry_ofProgram_pushIdle_slack, if_neg (by omega), if_pos (Nat.lt_succ_self _), if_pos rfl]
    ring
  · rw [if_neg (by omega), ← hlast]
    exact hw.canonical.reducedCost_basic (hrows' ▸ Nat.lt_succ_self _)

end Starts

end EqualityForm

end SimplexMethod
