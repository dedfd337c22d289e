import SimplexMethod.Proofs.Basis
import SimplexMethod.Proofs.Points

/-!
# SimplexMethod.Proofs.Standard

**The equality form says what the program says.** The entries of the form are laid out by a closed
formula; `rowSum_ofProgram` adds them up, so that the equation of a constraint reads

    (weighted variables) + (its slack) + (its artificial variable, if any) = right-hand side

From this follow the two translations between points of the program and solutions
of the equations: `solves_extension` lists a point together with its slacks, and
`feasiblePoint_of_solves` reads the variables off a non-negative solution without
artificial variables.

The columns that the form records as basic are unit columns (`isBasis_ofProgram`).
This is where artificial columns must not be confused: the column of a constraint is
found by counting the constraints before it, so two constraints never share one.
-/

namespace SimplexMethod

/-! ### Artificial columns -/

namespace Program

variable {K : Type} {p : Program K}

theorem length_artificialRows (p : Program K) :
    p.artificialRows.length = p.constraints.countP (·.relation.needsArtificial) := by
  have hfst : p.constraints.countP (·.relation.needsArtificial) =
      p.constraints.zipIdx.countP ((·.relation.needsArtificial) ∘ Prod.fst) := by
    rw [← List.countP_map, List.zipIdx_map_fst]
  rw [artificialRows, List.length_map, ← List.countP_eq_length_filter, hfst]
  rfl

/-- The column after the last artificial one, which is that of the right-hand sides. -/
theorem artificialColumn_constraintCount (p : Program K) :
    p.artificialColumn p.constraintCount = p.firstArtificial + p.artificialRows.length := by
  rw [artificialColumn, constraintCount, List.take_length, length_artificialRows]

/-- Artificial columns are given out in the order of the constraints. -/
theorem artificialColumn_lt {i k : Nat} {c : Constraint K} (hc : p.constraints[i]? = some c)
    (hneeds : c.relation.needsArtificial = true) (hik : i < k) :
    p.artificialColumn i < p.artificialColumn k := by
  obtain ⟨hi, rfl⟩ := List.getElem?_eq_some_iff.1 hc
  have hprefix : (p.constraints.take (i + 1)).Sublist (p.constraints.take k) :=
    List.IsPrefix.sublist (List.take_prefix_take_left (by omega))
  -- constraint `i` itself is counted before `k`, but not before `i`
  have hcount := hprefix.countP_le (p := (·.relation.needsArtificial))
  rw [List.take_succ_eq_append_getElem hi, List.countP_append,
    List.countP_singleton, if_pos hneeds] at hcount
  unfold artificialColumn
  omega

theorem artificialColumn_lt_length {i : Nat} {c : Constraint K}
    (hc : p.constraints[i]? = some c) (hneeds : c.relation.needsArtificial = true) :
    p.artificialColumn i < p.firstArtificial + p.artificialRows.length := by
  have hi : i < p.constraintCount := (List.getElem?_eq_some_iff.1 hc).1
  rw [← p.artificialColumn_constraintCount]
  exact artificialColumn_lt hc hneeds hi

theorem firstArtificial_le_artificialColumn (p : Program K) (i : Nat) :
    p.firstArtificial ≤ p.artificialColumn i := Nat.le_add_right _ _

/-- No two constraints share their artificial column. -/
theorem artificialColumn_inj {i k : Nat} {c d : Constraint K} (hc : p.constraints[i]? = some c)
    (hd : p.constraints[k]? = some d) (hneeds : c.relation.needsArtificial = true)
    (hneeds' : d.relation.needsArtificial = true)
    (heq : p.artificialColumn i = p.artificialColumn k) : i = k := by
  rcases lt_trichotomy i k with hlt | rfl | hgt
  · exact absurd heq (artificialColumn_lt hc hneeds hlt).ne
  · rfl
  · exact absurd heq (artificialColumn_lt hd hneeds' hgt).ne'

end Program

namespace EqualityForm

variable {p : Program ℚ}

/-! ### Entries of the four blocks of columns -/

theorem cellOf_variable {i j : Nat} (c : Constraint ℚ) (hj : j < p.variableCount) :
    cellOf p i c j = c.coefficients.getD j 0 := if_pos hj

theorem cellOf_slack {i k : Nat} (c : Constraint ℚ) (hk : k < p.constraintCount) :
    cellOf p i c (p.variableCount + k) = if k = i then slackCoefficient c.relation else 0 := by
  rw [cellOf, if_neg (by omega), if_pos (by unfold Program.firstArtificial; omega)]
  exact if_congr Nat.add_left_cancel_iff rfl rfl

theorem cellOf_artificial {i j : Nat} (c : Constraint ℚ) (hj : p.firstArtificial ≤ j)
    (hj' : j < p.firstArtificial + p.artificialRows.length) :
    cellOf p i c j = if c.relation.needsArtificial ∧ j = p.artificialColumn i then 1 else 0 := by
  rw [cellOf, if_neg (by unfold Program.firstArtificial at hj; omega), if_neg (by omega),
    if_pos hj']

theorem cellOf_rhs (i : Nat) (c : Constraint ℚ) :
    cellOf p i c (p.firstArtificial + p.artificialRows.length) = c.rhs := by
  rw [cellOf, if_neg (by unfold Program.firstArtificial; omega), if_neg (by omega),
    if_neg (by omega)]

theorem rhs_ofProgram {i : Nat} {c : Constraint ℚ} (hc : p.constraints[i]? = some c) :
    (ofProgram p).tableau.rhs i = c.rhs := by
  rw [Tableau.rhs, cols_ofProgram, Nat.add_sub_cancel, entry_ofProgram hc (by omega), cellOf_rhs]

theorem rhs_ofProgram_nonneg (hrhs : ∀ c ∈ p.constraints, 0 ≤ c.rhs) :
    ∀ i < (ofProgram p).tableau.rows, 0 ≤ (ofProgram p).tableau.rhs i := by
  intro i hi
  have hc : p.constraints[i]? = some p.constraints[i] := List.getElem?_eq_getElem hi
  rw [rhs_ofProgram hc]
  exact hrhs _ (List.getElem_mem hi)

/-! ### Equations -/

theorem sum_cellOf_slack {i : Nat} (c : Constraint ℚ) (hi : i < p.constraintCount)
    (v : Nat → ℚ) :
    ∑ k ∈ Finset.range p.constraintCount,
      cellOf p i c (p.variableCount + k) * v (p.variableCount + k) =
        slackCoefficient c.relation * v (p.variableCount + i) := by
  rw [Finset.sum_eq_single i]
  · rw [cellOf_slack c hi, if_pos rfl]
  · intro k hk hki
    rw [cellOf_slack c (Finset.mem_range.1 hk), if_neg hki, zero_mul]
  · intro hout
    exact absurd (Finset.mem_range.2 hi) hout

theorem sum_cellOf_artificial {i : Nat} {c : Constraint ℚ} (hc : p.constraints[i]? = some c)
    (v : Nat → ℚ) :
    ∑ k ∈ Finset.range p.artificialRows.length,
      cellOf p i c (p.firstArtificial + k) * v (p.firstArtificial + k) =
        if c.relation.needsArtificial then v (p.artificialColumn i) else 0 := by
  have hcell : ∀ k ∈ Finset.range p.artificialRows.length,
      cellOf p i c (p.firstArtificial + k) * v (p.firstArtificial + k) =
        if c.relation.needsArtificial ∧ p.firstArtificial + k = p.artificialColumn i then
          v (p.firstArtificial + k) else 0 := by
    intro k hk
    have hk' := Finset.mem_range.1 hk
    rw [cellOf_artificial c (by omega) (by omega), ite_mul, one_mul, zero_mul]
  rw [Finset.sum_congr rfl hcell]
  by_cases hneeds : c.relation.needsArtificial = true
  · -- the artificial column of the constraint is one of those added up
    have hlt := Program.artificialColumn_lt_length hc hneeds
    have hle := p.firstArtificial_le_artificialColumn i
    rw [if_pos hneeds, Finset.sum_eq_single (p.artificialColumn i - p.firstArtificial)]
    · rw [Nat.add_sub_cancel' hle, if_pos ⟨hneeds, rfl⟩]
    · intro k _ hk
      exact if_neg fun h => hk (by omega)
    · intro hout
      exact absurd (Finset.mem_range.2 (by omega)) hout
  · rw [if_neg hneeds]
    exact Finset.sum_eq_zero fun k _ => if_neg fun h => hneeds h.1

/-- **The equation of a constraint.** -/
theorem rowSum_ofProgram {i : Nat} {c : Constraint ℚ} (hc : p.constraints[i]? = some c)
    (v : Nat → ℚ) :
    (ofProgram p).tableau.rowSum v i =
      ∑ j ∈ Finset.range p.variableCount, c.coefficients.getD j 0 * v j +
        slackCoefficient c.relation * v (p.variableCount + i) +
        if c.relation.needsArtificial then v (p.artificialColumn i) else 0 := by
  have hi : i < p.constraintCount := (List.getElem?_eq_some_iff.1 hc).1
  have hcells : (ofProgram p).tableau.rowSum v i =
      ∑ j ∈ Finset.range (p.firstArtificial + p.artificialRows.length), cellOf p i c j * v j := by
    rw [Tableau.rowSum, cols_ofProgram, Nat.add_sub_cancel]
    refine Finset.sum_congr rfl fun j hj => ?_
    have hj' := Finset.mem_range.1 hj
    rw [entry_ofProgram hc (by omega)]
  have hvariables : ∑ j ∈ Finset.range p.variableCount, cellOf p i c j * v j =
      ∑ j ∈ Finset.range p.variableCount, c.coefficients.getD j 0 * v j :=
    Finset.sum_congr rfl fun j hj => by rw [cellOf_variable c (Finset.mem_range.1 hj)]
  rw [hcells, Finset.sum_range_add, sum_cellOf_artificial hc, Program.firstArtificial,
    Finset.sum_range_add, hvariables, sum_cellOf_slack c hi]

/-- Without artificial variables the equations relate the variables to the slacks. -/
theorem solves_upTo_iff (v : Nat → ℚ) :
    (ofProgram p).tableau.Solves (upTo p.firstArtificial v) ↔
      ∀ i c, p.constraints[i]? = some c →
        ∑ j ∈ Finset.range p.variableCount, c.coefficients.getD j 0 * v j +
          slackCoefficient c.relation * v (p.variableCount + i) = c.rhs := by
  have hrow : ∀ i c, p.constraints[i]? = some c →
      (ofProgram p).tableau.rowSum (upTo p.firstArtificial v) i =
        ∑ j ∈ Finset.range p.variableCount, c.coefficients.getD j 0 * v j +
          slackCoefficient c.relation * v (p.variableCount + i) := by
    intro i c hc
    have hi : i < p.constraintCount := (List.getElem?_eq_some_iff.1 hc).1
    rw [rowSum_ofProgram hc, upTo_of_lt v (by unfold Program.firstArtificial; omega),
      upTo_of_le v (p.firstArtificial_le_artificialColumn i), ite_self, add_zero]
    congr 1
    refine Finset.sum_congr rfl fun j hj => ?_
    have hj' := Finset.mem_range.1 hj
    rw [upTo_of_lt v (by unfold Program.firstArtificial; omega)]
  constructor
  · intro h i c hc
    rw [← hrow i c hc, ← rhs_ofProgram hc]
    exact h i (List.getElem?_eq_some_iff.1 hc).1
  · intro h i hi
    have hc : p.constraints[i]? = some p.constraints[i] := List.getElem?_eq_getElem hi
    rw [hrow i _ hc, rhs_ofProgram hc]
    exact h i _ hc

/-! ### Starting basis -/

theorem getD_basis_ofProgram {i : Nat} {c : Constraint ℚ} (hc : p.constraints[i]? = some c) :
    (ofProgram p).basis.getD i 0 = p.startingColumn i c := by
  simp [ofProgram, List.getD_eq_getElem?_getD, hc]

theorem startingColumn_lt {i : Nat} {c : Constraint ℚ} (hc : p.constraints[i]? = some c) :
    p.startingColumn i c < p.firstArtificial + p.artificialRows.length := by
  have hi : i < p.constraintCount := (List.getElem?_eq_some_iff.1 hc).1
  unfold Program.startingColumn
  split
  · next hneeds => exact Program.artificialColumn_lt_length hc hneeds
  · unfold Program.firstArtificial
    omega

/-- The starting column of a row is its unit column. -/
theorem cellOf_startingColumn {i k : Nat} {c d : Constraint ℚ} (hc : p.constraints[i]? = some c)
    (hd : p.constraints[k]? = some d) :
    cellOf p k d (p.startingColumn i c) = if k = i then 1 else 0 := by
  have hi : i < p.constraintCount := (List.getElem?_eq_some_iff.1 hc).1
  by_cases hneeds : c.relation.needsArtificial = true
  · rw [Program.startingColumn, if_pos hneeds,
      cellOf_artificial d (p.firstArtificial_le_artificialColumn i)
        (Program.artificialColumn_lt_length hc hneeds)]
    refine if_congr ⟨fun h => ?_, ?_⟩ rfl rfl
    · exact Program.artificialColumn_inj hd hc h.1 hneeds h.2.symm
    · rintro rfl
      rw [hc] at hd
      cases hd
      exact ⟨hneeds, rfl⟩
  · rw [Program.startingColumn, if_neg hneeds, cellOf_slack d hi]
    by_cases hki : k = i
    · subst hki
      rw [hc] at hd
      cases hd
      rw [if_pos rfl, if_pos rfl]
      cases hrelation : c.relation with
      | atMost => rfl
      | equal => rw [hrelation] at hneeds; exact absurd rfl hneeds
      | atLeast => rw [hrelation] at hneeds; exact absurd rfl hneeds
    · rw [if_neg (Ne.symm hki), if_neg hki]

/-- **The starting basis is canonical.** -/
theorem isBasis_ofProgram (p : Program ℚ) : (ofProgram p).tableau.IsBasis (ofProgram p).basis where
  length := length_basis_ofProgram p
  lt := by
    intro i hi
    have hc : p.constraints[i]? = some p.constraints[i] := List.getElem?_eq_getElem hi
    rw [getD_basis_ofProgram hc, cols_ofProgram, Nat.add_sub_cancel]
    exact startingColumn_lt hc
  unit := by
    intro i hi k hk
    have hc : p.constraints[i]? = some p.constraints[i] := List.getElem?_eq_getElem hi
    have hd : p.constraints[k]? = some p.constraints[k] := List.getElem?_eq_getElem hk
    have hlt := startingColumn_lt hc
    rw [getD_basis_ofProgram hc, entry_ofProgram hd (by omega)]
    exact cellOf_startingColumn hc hd

end EqualityForm

/-! ### Points and solutions -/

/-- What a list without negative entries gives to any column is not negative. -/
theorem getD_nonneg {xs : List ℚ} (h : ∀ v ∈ xs, 0 ≤ v) (j : Nat) : 0 ≤ xs.getD j 0 := by
  rw [List.getD_eq_getElem?_getD]
  cases hj : xs[j]? with
  | none => exact le_rfl
  | some v => exact h v (List.mem_of_getElem? hj)

namespace Program

variable {p : Program ℚ}

theorem mismatch_eq_none {K : Type} {p : Program K} :
    p.mismatch = none ↔ ∀ c ∈ p.constraints, c.coefficients.length = p.variableCount := by
  rw [mismatch, Option.map_eq_none_iff, List.find?_eq_none]
  constructor
  · intro h c hc
    obtain ⟨i, hi, rfl⟩ := List.getElem_of_mem hc
    have hfit := h (p.constraints[i], i)
      (List.mem_zipIdx_iff_getElem?.2 (List.getElem?_eq_getElem hi))
    simpa using hfit
  · rintro h ⟨c, i⟩ hc
    have hfit := h c (List.fst_mem_of_mem_zipIdx hc)
    simpa using hfit

/-- **The error of a program names the first constraint that does not fit.** -/
theorem mismatch_eq_some_iff {K : Type} {p : Program K} {e : ModelError} :
    p.mismatch = some e ↔ ∃ i c, p.constraints[i]? = some c ∧
      c.coefficients.length ≠ p.variableCount ∧
      (∀ k < i, ∀ d, p.constraints[k]? = some d → d.coefficients.length = p.variableCount) ∧
      e = .dimensionMismatch (i + 1) c.coefficients.length p.variableCount := by
  rw [mismatch, Option.map_eq_some_iff]
  constructor
  · rintro ⟨⟨c, n⟩, hfind, rfl⟩
    obtain ⟨hmisfit, i, hi, hplace, hbefore⟩ := List.find?_eq_some_iff_getElem.1 hfind
    rw [List.getElem_zipIdx, Prod.mk.injEq, Nat.zero_add] at hplace
    obtain ⟨rfl, rfl⟩ := hplace
    rw [List.length_zipIdx] at hi
    refine ⟨i, _, List.getElem?_eq_getElem hi, by simpa using hmisfit, fun k hk d hd => ?_, rfl⟩
    obtain ⟨_, rfl⟩ := List.getElem?_eq_some_iff.1 hd
    simpa using hbefore k hk
  · rintro ⟨i, c, hc, hmisfit, hbefore, rfl⟩
    obtain ⟨hi, rfl⟩ := List.getElem?_eq_some_iff.1 hc
    refine ⟨(p.constraints[i], i), List.find?_eq_some_iff_getElem.2 ⟨by simpa using hmisfit, i,
      by simpa using hi, by simp, fun k hk => ?_⟩, rfl⟩
    simpa using hbefore k hk _ (List.getElem?_eq_getElem (hk.trans hi))

/-- A point, followed by its slacks. -/
def extension (p : Program ℚ) (x : List ℚ) : List ℚ := x ++ p.constraints.map (·.slack x)

theorem getD_extension_variable {x : List ℚ} {j : Nat} (hj : j < x.length) :
    (p.extension x).getD j 0 = x.getD j 0 := List.getD_append _ _ _ _ hj

theorem getD_extension_slack {x : List ℚ} {i : Nat} {c : Constraint ℚ}
    (hc : p.constraints[i]? = some c) : (p.extension x).getD (x.length + i) 0 = c.slack x := by
  rw [extension, List.getD_append_right _ _ _ _ (by omega), Nat.add_sub_cancel_left,
    List.getD_eq_getElem?_getD, List.getElem?_map, hc]
  rfl

theorem nonneg_of_mem_extension {x : List ℚ}
    (hx : FeasiblePoint p.variableCount p.constraints x) {v : ℚ} (hv : v ∈ p.extension x) :
    0 ≤ v := by
  rcases List.mem_append.1 hv with hv | hv
  · exact hx.nonneg v hv
  · obtain ⟨c, hc, rfl⟩ := List.mem_map.1 hv
    exact Constraint.slack_nonneg (hx.holds c hc)

theorem extension_nonneg {x : List ℚ} (hx : FeasiblePoint p.variableCount p.constraints x)
    (j : Nat) : 0 ≤ (p.extension x).getD j 0 :=
  getD_nonneg (fun _ => nonneg_of_mem_extension hx) j

/-- **A feasible point and its slacks solve the equations.** -/
theorem solves_extension (hfit : p.mismatch = none) {x : List ℚ}
    (hx : FeasiblePoint p.variableCount p.constraints x) :
    (EqualityForm.ofProgram p).tableau.Solves
      (upTo p.firstArtificial fun j => (p.extension x).getD j 0) := by
  rw [EqualityForm.solves_upTo_iff]
  intro i c hc
  have hmem := List.mem_of_getElem? hc
  have hsum : ∑ j ∈ Finset.range p.variableCount,
      c.coefficients.getD j 0 * (p.extension x).getD j 0 = dot c.coefficients x := by
    rw [dot_eq_sum, mismatch_eq_none.1 hfit c hmem]
    refine Finset.sum_congr rfl fun j hj => ?_
    rw [getD_extension_variable (hx.length.symm ▸ Finset.mem_range.1 hj)]
  have hholds := hx.holds c hmem
  rw [hsum, ← hx.length, getD_extension_slack hc]
  unfold Constraint.Holds at hholds
  unfold Constraint.slack
  cases hrelation : c.relation with
  | atMost => simp [EqualityForm.slackCoefficient]
  | equal =>
      rw [hrelation] at hholds
      rw [mul_zero, add_zero]
      exact hholds
  | atLeast => simp [EqualityForm.slackCoefficient]

/-- The variables of an assignment. -/
def point (p : Program ℚ) (v : Nat → ℚ) : List ℚ := (List.range p.variableCount).map v

@[simp] theorem length_point (p : Program ℚ) (v : Nat → ℚ) :
    (p.point v).length = p.variableCount := by simp [point]

theorem dot_point {a : List ℚ} (ha : a.length = p.variableCount) (v : Nat → ℚ) :
    dot a (p.point v) = ∑ j ∈ Finset.range p.variableCount, a.getD j 0 * v j := by
  rw [dot_eq_sum, ha]
  refine Finset.sum_congr rfl fun j hj => ?_
  simp [point, Finset.mem_range.1 hj]

/-- The equation of a constraint, in terms of the point that an assignment stands for. -/
theorem dot_add_slack_of_solves (hfit : p.mismatch = none) {v : Nat → ℚ}
    (hv : (EqualityForm.ofProgram p).tableau.Solves (upTo p.firstArtificial v)) {i : Nat}
    {c : Constraint ℚ} (hc : p.constraints[i]? = some c) :
    dot c.coefficients (p.point v) +
      EqualityForm.slackCoefficient c.relation * v (p.variableCount + i) = c.rhs := by
  rw [dot_point (mismatch_eq_none.1 hfit c (List.mem_of_getElem? hc))]
  exact EqualityForm.solves_upTo_iff v |>.1 hv i c hc

/-- **The variables of a non-negative solution are a feasible point.** -/
theorem feasiblePoint_of_solves (hfit : p.mismatch = none) {v : Nat → ℚ} (hnonneg : ∀ j, 0 ≤ v j)
    (hv : (EqualityForm.ofProgram p).tableau.Solves (upTo p.firstArtificial v)) :
    FeasiblePoint p.variableCount p.constraints (p.point v) := by
  refine ⟨length_point p v, fun x hx => ?_, fun c hc => ?_⟩
  · obtain ⟨j, -, rfl⟩ := List.mem_map.1 hx
    exact hnonneg j
  · obtain ⟨i, hi, rfl⟩ := List.getElem_of_mem hc
    have hrow := dot_add_slack_of_solves hfit hv (List.getElem?_eq_getElem hi)
    have hslack := hnonneg (p.variableCount + i)
    unfold Constraint.Holds
    cases hrelation : p.constraints[i].relation with
    | atMost =>
        rw [hrelation, EqualityForm.slackCoefficient] at hrow
        show dot _ _ ≤ _
        linarith
    | equal =>
        rw [hrelation, EqualityForm.slackCoefficient] at hrow
        show dot _ _ = _
        linarith
    | atLeast =>
        rw [hrelation, EqualityForm.slackCoefficient] at hrow
        show _ ≤ dot _ _
        linarith

/-- The slack column of a solution holds the slack, where it is zero for every equation. -/
theorem slack_point (hfit : p.mismatch = none) {v : Nat → ℚ}
    (hv : (EqualityForm.ofProgram p).tableau.Solves (upTo p.firstArtificial v)) {i : Nat}
    {c : Constraint ℚ} (hc : p.constraints[i]? = some c)
    (hequal : c.relation = .equal → v (p.variableCount + i) = 0) :
    c.slack (p.point v) = v (p.variableCount + i) := by
  have hrow := dot_add_slack_of_solves hfit hv hc
  unfold Constraint.slack
  cases hrelation : c.relation with
  | atMost =>
      rw [hrelation, EqualityForm.slackCoefficient] at hrow
      show c.rhs - dot _ _ = _
      linarith
  | equal => exact (hequal hrelation).symm
  | atLeast =>
      rw [hrelation, EqualityForm.slackCoefficient] at hrow
      show dot _ _ - c.rhs = _
      linarith

end Program

end SimplexMethod
