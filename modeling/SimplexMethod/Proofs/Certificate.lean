import Mathlib.LinearAlgebra.Dual.Lemmas
import Mathlib.GroupTheory.GroupAction.Ring
import SimplexMethod.Proofs.Answer

/-!
# SimplexMethod.Proofs.Certificate

**Reduced costs certify an answer.** A weighted sum of the variables that takes one and the same
value at all solutions of a system of equations is a combination of the equations
(`Tableau.exists_multipliers`). Costs and reduced costs together are such a sum: by
`State.cost_eq` it takes the objective value at every solution. So the equations of the program can
be combined, with one multiplier each, into

    (costs) + (reduced costs) = objective value

No step of the two phases has to be looked at for this, and neither do rows that were erased or
columns that were dropped: that the equations of the last state have the solutions of the first
ones (`State.Represents`) is enough.

Read column by column, the combination says what the reduced costs are (`exists_prices`). In the
column of a slack only its own row has an entry, so its reduced cost is the multiplier of this row,
with the sign of the slack. `solve_dual_certificate` puts this in terms of an answer.

Where no reduced cost improves the objective, the multipliers bound the cost of every feasible point
(`DualCertificate.not_better`), so whoever has them can check an optimal answer without solving.
-/

namespace SimplexMethod

/-! ### Combinations of equations -/

/-- The sum of the first `n` columns, each weighted with a number. -/
def weighted (n : Nat) (a : Nat → ℚ) : (Nat → ℚ) →ₗ[ℚ] ℚ :=
  ∑ j ∈ Finset.range n, a j • LinearMap.proj j

@[simp] theorem weighted_apply (n : Nat) (a v : Nat → ℚ) :
    weighted n a v = ∑ j ∈ Finset.range n, a j * v j := by
  simp [weighted, LinearMap.sum_apply]

/-- The weight of a column is what the column alone adds up to. -/
theorem weighted_single {n j : Nat} (a : Nat → ℚ) (hj : j < n) :
    weighted n a (Pi.single j 1) = a j := by
  rw [weighted_apply, Finset.sum_eq_single j]
  · rw [Pi.single_eq_same, mul_one]
  · intro k _ hkj
    rw [Pi.single_eq_of_ne hkj, mul_zero]
  · intro hout
    exact absurd (Finset.mem_range.2 hj) hout

/-- **A weighted sum with one value at all solutions is a combination of the equations**, if there
is a solution at all. -/
theorem Tableau.exists_multipliers {t : Tableau ℚ} {a : Nat → ℚ} {value : ℚ} {v : Nat → ℚ}
    (hv : t.Solves v)
    (hvalue : ∀ w, t.Solves w → ∑ j ∈ Finset.range (t.cols - 1), a j * w j = value) :
    ∃ y : Nat → ℚ,
      (∀ j < t.cols - 1, a j = ∑ i ∈ Finset.range t.rows, y i * t.entry i j) ∧
      value = ∑ i ∈ Finset.range t.rows, y i * t.rhs i := by
  let rowForm (i : Fin t.rows) : (Nat → ℚ) →ₗ[ℚ] ℚ := weighted (t.cols - 1) (t.entry i)
  have hrow : ∀ (i : Fin t.rows) w, rowForm i w = t.rowSum w i := fun i w => weighted_apply ..
  -- where all left sides are zero, a solution may be moved along without the sum changing
  have hker : ⨅ i, LinearMap.ker (rowForm i) ≤ LinearMap.ker (weighted (t.cols - 1) a) := by
    intro u hu
    have hzero : ∀ i : Fin t.rows, rowForm i u = 0 := fun i => (Submodule.mem_iInf _).1 hu i
    have hmoved : t.Solves (v + u) := by
      intro i hi
      rw [← hrow ⟨i, hi⟩, map_add, hzero ⟨i, hi⟩, add_zero, hrow]
      exact hv i hi
    have hsame : weighted (t.cols - 1) a (v + u) = weighted (t.cols - 1) a v := by
      rw [weighted_apply, weighted_apply, hvalue _ hmoved, hvalue _ hv]
    rw [map_add, add_eq_left] at hsame
    exact hsame
  obtain ⟨c, hc⟩ :=
    (Submodule.mem_span_range_iff_exists_fun ℚ).1 (mem_span_of_iInf_ker_le_ker hker)
  obtain ⟨y, hy⟩ : ∃ y : Nat → ℚ, ∀ i : Fin t.rows, y i = c i :=
    ⟨fun i => if hi : i < t.rows then c ⟨i, hi⟩ else 0, fun i => dif_pos i.2⟩
  have hcombined : ∀ w, weighted (t.cols - 1) a w = ∑ i : Fin t.rows, y i * rowForm i w := by
    intro w
    rw [← hc, LinearMap.sum_apply]
    exact Finset.sum_congr rfl fun i _ => by rw [hy, LinearMap.smul_apply, smul_eq_mul]
  refine ⟨y, fun j hj => ?_, ?_⟩
  · rw [← weighted_single a hj, hcombined, Finset.sum_range]
    exact Finset.sum_congr rfl fun i _ => by rw [weighted_single _ hj]
  · rw [← hvalue v hv, ← weighted_apply, hcombined, Finset.sum_range]
    exact Finset.sum_congr rfl fun i _ => by rw [hrow, hv i i.2]

/-! ### Multipliers of the constraints -/

namespace Program

variable {p : Program ℚ}

/-- A sum over the rows of the equality form, in terms of the constraints. -/
theorem sum_rows_eq_dot {y : Nat → ℚ} {f : Constraint ℚ → ℚ} {a : Nat → ℚ}
    (ha : ∀ i c, p.constraints[i]? = some c → a i = f c) :
    ∑ i ∈ Finset.range p.constraintCount, y i * a i =
      dot ((List.range p.constraintCount).map y) (p.constraints.map f) := by
  rw [dot_eq_sum, List.length_map, List.length_range]
  refine Finset.sum_congr rfl fun i hi => ?_
  have hi' : i < p.constraints.length := Finset.mem_range.1 hi
  rw [ha i _ (List.getElem?_eq_getElem hi')]
  simp [Finset.mem_range.1 hi, hi']

end Program

namespace State.Represents

variable {p : Program ℚ} {s : State ℚ}

/-- **Costs and reduced costs combine the equations of the program.** -/
theorem exists_multipliers (h : s.Represents p) :
    ∃ y : Nat → ℚ,
      (∀ j < p.firstArtificial, s.objective.getD j 0 + s.reducedCost j =
        ∑ i ∈ Finset.range p.constraintCount,
          y i * (EqualityForm.ofProgram p).tableau.entry i j) ∧
      s.objectiveValue = ∑ i ∈ Finset.range p.constraintCount,
        y i * (EqualityForm.ofProgram p).tableau.rhs i := by
  let t := (EqualityForm.ofProgram p).tableau.dropColumns p.firstArtificial
  have hsolves : ∀ v, t.Solves v ↔ s.tableau.Solves v := fun v =>
    (Tableau.solves_dropColumns _ (by rw [EqualityForm.cols_ofProgram]; omega) v).trans
      (h.solves v).symm
  have hcols : t.cols - 1 = s.objective.length := by
    rw [h.objective, Program.length_extendedCosts]
    rfl
  have hvalue : ∀ v, t.Solves v →
      ∑ j ∈ Finset.range (t.cols - 1), (s.objective.getD j 0 + s.reducedCost j) * v j =
        s.objectiveValue := by
    intro v hv
    have hcost := State.cost_eq ((hsolves v).1 hv)
    rw [State.cost] at hcost
    rw [hcols]
    simp only [add_mul, Finset.sum_add_distrib]
    linarith
  obtain ⟨y, hy, hrhs⟩ :=
    Tableau.exists_multipliers ((hsolves _).2 h.feasible.canonical.solves_value) hvalue
  refine ⟨y, fun j hj => (hy j hj).trans ?_, hrhs.trans ?_⟩
  · refine Finset.sum_congr rfl fun i hi => ?_
    rw [Tableau.entry_dropColumns _ (Finset.mem_range.1 hi) hj]
  · refine Finset.sum_congr rfl fun i hi => ?_
    rw [Tableau.rhs_dropColumns _ (Finset.mem_range.1 hi)]

/-- The same, in terms of the constraints: one multiplier each, which the reduced cost of its slack
gives away unless the constraint is an equation. -/
theorem exists_prices (h : s.Represents p) :
    ∃ y : List ℚ, y.length = p.constraintCount ∧
      (∀ j < p.variableCount, s.reducedCost j =
        dot y (p.constraints.map (·.coefficients.getD j 0)) - p.objective.getD j 0) ∧
      (∀ i c, p.constraints[i]? = some c → s.reducedCost (p.variableCount + i) =
        y.getD i 0 * EqualityForm.slackCoefficient c.relation) ∧
      s.objectiveValue = dot y (p.constraints.map (·.rhs)) := by
  obtain ⟨y, hcolumns, hvalue⟩ := h.exists_multipliers
  have hobjective := h.objective
  refine ⟨(List.range p.constraintCount).map y, by simp, fun j hj => ?_, fun i c hc => ?_, ?_⟩
  · have hcolumn := hcolumns j (by unfold Program.firstArtificial; omega)
    rw [hobjective, Program.getD_extendedCosts_variable hj] at hcolumn
    rw [← Program.sum_rows_eq_dot fun i c hc => ?_, ← hcolumn, add_sub_cancel_left]
    rw [EqualityForm.entry_ofProgram hc (by unfold Program.firstArtificial; omega),
      EqualityForm.cellOf_variable c hj]
  · have hi : i < p.constraintCount := (List.getElem?_eq_some_iff.1 hc).1
    have hcolumn := hcolumns (p.variableCount + i) (by unfold Program.firstArtificial; omega)
    rw [hobjective, Program.getD_extendedCosts_slack hi, zero_add] at hcolumn
    rw [hcolumn, Finset.sum_eq_single i]
    · rw [EqualityForm.entry_ofProgram hc (by unfold Program.firstArtificial; omega),
        EqualityForm.cellOf_slack c hi, if_pos rfl]
      simp [hi]
    · intro k hk hki
      -- a slack has an entry in its own row only
      have hk' : k < p.constraints.length := Finset.mem_range.1 hk
      have hd : p.constraints[k]? = some p.constraints[k] := List.getElem?_eq_getElem hk'
      rw [EqualityForm.entry_ofProgram hd (by unfold Program.firstArtificial; omega),
        EqualityForm.cellOf_slack _ hi, if_neg (Ne.symm hki), mul_zero]
    · intro hout
      exact absurd (Finset.mem_range.2 hi) hout
  · rw [hvalue]
    exact Program.sum_rows_eq_dot fun i c hc => EqualityForm.rhs_ofProgram hc

end State.Represents

/-- **Complementary slackness**: a column has no value or no reduced cost. -/
theorem State.Canonical.value_mul_reducedCost {s : State ℚ} (h : s.Canonical) (j : Nat) :
    s.value j * s.reducedCost j = 0 := by
  unfold State.value
  split
  · next i hrow =>
    obtain ⟨hi, rfl⟩ := State.lastRowOf_eq_some hrow
    rw [h.reducedCost_basic hi, mul_zero]
  · exact zero_mul _

/-! ### Answers -/

namespace Program

variable {p : Program ℚ} {cap : Option Nat} {solution : Solution ℚ}

/-- An answer with values is read off a state of the second phase. -/
theorem Answered.exists_state (h : Answered p cap solution)
    (hvalues : solution.status = .optimal ∨ solution.values ≠ []) :
    ∃ s : State ℚ, ∃ iterations, s.Represents p ∧
      solution = .ofState solution.status s p.variableCount iterations ∧
      (solution.status = .optimal →
        s.verdict ⟨cap, 0⟩ p.direction.sign = .stop .optimal) := by
  cases h with
  | infeasible _ => simp [Solution.infeasible, Solution.withoutPoint] at hvalues
  | unsearched => simp [Solution.exhausted, Solution.withoutPoint] at hvalues
  | unbounded _ _ _ => simp [Solution.unbounded, Solution.withoutPoint] at hvalues
  | optimal hs hpass houtcome =>
      obtain ⟨-, -, hverdict⟩ := hs.feasible.of_pass hpass
      rw [houtcome] at hverdict
      exact ⟨_, _, hs.of_pass hpass, rfl, fun _ => hverdict⟩
  | stopped hs hpass _ => exact ⟨_, _, hs.of_pass hpass, rfl, nofun⟩

/-- The multipliers of the constraints that the reduced costs of their slacks stand for. An equation
has no slack to read its multiplier off. -/
def shadowPrices (p : Program ℚ) (solution : Solution ℚ) : List ℚ :=
  p.constraints.zipIdx.map fun c =>
    EqualityForm.slackCoefficient c.1.relation *
      solution.reducedCosts.getD (p.variableCount + c.2) 0

/-- Multipliers of the constraints that account for the reduced costs and the objective value of a
solution. -/
structure DualCertificate (p : Program ℚ) (solution : Solution ℚ) (y : List ℚ) : Prop where
  length : y.length = p.constraintCount
  /-- An upper bound has the reduced cost of its slack. -/
  atMost : ∀ i c, p.constraints[i]? = some c → c.relation = .atMost →
    y.getD i 0 = solution.reducedCosts.getD (p.variableCount + i) 0
  /-- A lower bound has the reduced cost of its surplus, with the opposite sign. -/
  atLeast : ∀ i c, p.constraints[i]? = some c → c.relation = .atLeast →
    y.getD i 0 = -solution.reducedCosts.getD (p.variableCount + i) 0
  /-- The reduced cost of a variable is what the multipliers make of its coefficients, less its
  own cost. -/
  reducedCost : ∀ j < p.variableCount, solution.reducedCosts.getD j 0 =
    dot y (p.constraints.map (·.coefficients.getD j 0)) - p.objective.getD j 0
  /-- The objective value is what the multipliers make of the right-hand sides. -/
  objectiveValue : solution.objectiveValue = .number (dot y (p.constraints.map (·.rhs)))

/-- What a solution lists of a state. -/
theorem getD_values_ofState {status : Status} {s : State ℚ} {n iterations k : Nat}
    (hk : k < s.objective.length) :
    (Solution.ofState status s n iterations).values.getD k 0 = s.value k := by
  simp [Solution.ofState, hk]

theorem getD_reducedCosts_ofState {status : Status} {s : State ℚ} {n iterations k : Nat}
    (hk : k < s.objective.length) :
    (Solution.ofState status s n iterations).reducedCosts.getD k 0 = s.reducedCost k := by
  simp [Solution.ofState, State.reducedCosts, hk]

/-- **Every state of the second phase has a certificate.** -/
theorem exists_dualCertificate {s : State ℚ} (h : s.Represents p) (status : Status)
    (iterations : Nat) :
    ∃ y, p.DualCertificate (.ofState status s p.variableCount iterations) y := by
  obtain ⟨y, hlength, hvariables, hslacks, hvalue⟩ := h.exists_prices
  have hcolumns : s.objective.length = p.variableCount + p.constraintCount := by
    rw [h.objective, length_extendedCosts]
    rfl
  have hslack : ∀ i c, p.constraints[i]? = some c →
      (Solution.ofState status s p.variableCount iterations).reducedCosts.getD
        (p.variableCount + i) 0 = y.getD i 0 * EqualityForm.slackCoefficient c.relation := by
    intro i c hc
    have hi : i < p.constraintCount := (List.getElem?_eq_some_iff.1 hc).1
    rw [getD_reducedCosts_ofState (by omega), hslacks i c hc]
  refine ⟨y, hlength, fun i c hc hrelation => ?_, fun i c hc hrelation => ?_, fun j hj => ?_, ?_⟩
  · rw [hslack i c hc, hrelation, EqualityForm.slackCoefficient, mul_one]
  · rw [hslack i c hc, hrelation, EqualityForm.slackCoefficient, mul_neg_one, neg_neg]
  · rw [getD_reducedCosts_ofState (by omega), hvariables j hj]
  · rw [← hvalue]
    exact congrArg Extended.number (add_zero _)

/-- Without equations there is only one choice of multipliers. -/
theorem DualCertificate.eq_shadowPrices {y : List ℚ} (h : p.DualCertificate solution y)
    (hrelations : ∀ c ∈ p.constraints, c.relation ≠ .equal) : y = p.shadowPrices solution := by
  refine List.ext_getElem (by simp [shadowPrices, h.length, constraintCount]) fun i hi hi' => ?_
  have hi'' : i < p.constraints.length := hi.trans_eq h.length
  have hc : p.constraints[i]? = some p.constraints[i] := List.getElem?_eq_getElem hi''
  rw [← List.getD_eq_getElem y 0 hi]
  simp only [shadowPrices, List.getElem_map, List.getElem_zipIdx, Nat.zero_add]
  cases hrelation : p.constraints[i].relation with
  | atMost => rw [h.atMost i _ hc hrelation, EqualityForm.slackCoefficient, one_mul]
  | equal => exact absurd hrelation (hrelations _ (List.getElem_mem hi''))
  | atLeast => rw [h.atLeast i _ hc hrelation, EqualityForm.slackCoefficient, neg_one_mul]

/-- What a constraint leaves between its two sides at a feasible point is priced with the sign of
the direction, if no reduced cost improves the objective. -/
theorem DualCertificate.signed_multiplier_nonneg {y : List ℚ} (h : p.DualCertificate solution y)
    (hsigns : ∀ k < p.variableCount + p.constraintCount,
      0 ≤ p.direction.sign * solution.reducedCosts.getD k 0)
    {i : Nat} {c : Constraint ℚ} (hc : p.constraints[i]? = some c) {x : List ℚ} (hx : c.Holds x) :
    0 ≤ p.direction.sign * (y.getD i 0 * (c.rhs - dot c.coefficients x)) := by
  have hi : i < p.constraintCount := (List.getElem?_eq_some_iff.1 hc).1
  have hsign := hsigns (p.variableCount + i) (by omega)
  unfold Constraint.Holds at hx
  cases hrelation : c.relation with
  | atMost =>
      rw [hrelation] at hx
      rw [h.atMost i c hc hrelation, ← mul_assoc]
      exact mul_nonneg hsign (sub_nonneg.2 hx)
  | equal =>
      rw [hrelation] at hx
      rw [show dot c.coefficients x = c.rhs from hx, sub_self, mul_zero, mul_zero]
  | atLeast =>
      rw [hrelation] at hx
      have hgain := mul_nonneg hsign (sub_nonneg.2 hx)
      rw [h.atLeast i c hc hrelation]
      linarith

/-- Weighting the columns with a point and the rows with multipliers can be done in either order. -/
theorem sum_dot_columns (hfit : p.mismatch = none) (y x : List ℚ) :
    ∑ j ∈ Finset.range p.variableCount,
        dot y (p.constraints.map (·.coefficients.getD j 0)) * x.getD j 0 =
      dot y (p.constraints.map fun c => dot c.coefficients x) := by
  have hcell : ∀ i, (p.constraints.map fun c => dot c.coefficients x).getD i 0 =
      ∑ j ∈ Finset.range p.variableCount,
        (p.constraints.map (·.coefficients.getD j 0)).getD i 0 * x.getD j 0 := by
    intro i
    simp only [List.getD_eq_getElem?_getD, List.getElem?_map]
    cases hc : p.constraints[i]? with
    | none => simp
    | some c =>
        have hlength := mismatch_eq_none.1 hfit c (List.mem_of_getElem? hc)
        simp [dot_eq_sum, hlength]
  simp only [dot_eq_sum y, Finset.sum_mul, hcell, Finset.mul_sum, mul_assoc]
  exact Finset.sum_comm

/-- **A certificate bounds the cost of every feasible point**, if no reduced cost improves the
objective. -/
theorem DualCertificate.not_better {y : List ℚ} (h : p.DualCertificate solution y)
    (hfit : p.mismatch = none)
    (hsigns : ∀ k < p.variableCount + p.constraintCount,
      0 ≤ p.direction.sign * solution.reducedCosts.getD k 0)
    {x : List ℚ} (hx : FeasiblePoint p.variableCount p.constraints x) :
    ¬p.direction.Better (dot p.objective x) (dot y (p.constraints.map (·.rhs))) := by
  have hrows : 0 ≤ p.direction.sign * (dot y (p.constraints.map (·.rhs)) -
      dot y (p.constraints.map fun c => dot c.coefficients x)) := by
    rw [dot_eq_sum, dot_eq_sum, ← Finset.sum_sub_distrib, Finset.mul_sum]
    refine Finset.sum_nonneg fun i hi => ?_
    have hi' : i < p.constraints.length := (Finset.mem_range.1 hi).trans_eq h.length
    have hgain := h.signed_multiplier_nonneg hsigns (List.getElem?_eq_getElem hi')
      (hx.holds _ (List.getElem_mem hi'))
    simpa [hi', mul_sub] using hgain
  have hcolumns : 0 ≤ p.direction.sign *
      (dot y (p.constraints.map fun c => dot c.coefficients x) - dot p.objective x) := by
    rw [← sum_dot_columns hfit, dot_eq_sum p.objective,
      show p.objective.length = p.variableCount from rfl, ← Finset.sum_sub_distrib,
      Finset.mul_sum]
    refine Finset.sum_nonneg fun j hj => ?_
    have hj' := Finset.mem_range.1 hj
    have hcoordinate : 0 ≤ x.getD j 0 := by
      rw [List.getD_eq_getElem _ _ (hx.length.symm ▸ hj')]
      exact hx.nonneg _ (List.getElem_mem _)
    have hgain := mul_nonneg (hsigns j (by omega)) hcoordinate
    rw [h.reducedCost j hj', mul_assoc, sub_mul] at hgain
    exact hgain
  rw [Direction.better_iff]
  linarith

/-- **Answers with values come with a certificate.** There are multipliers of the stored constraints
that account for the reduced costs and the objective value; where there are no equations, they are
the shadow prices that the reduced costs of the slacks spell out. No column has both a value and a
reduced cost, and in an optimal answer no reduced cost improves the objective. -/
theorem solve_dual_certificate (direction : Direction) (objective : List ℚ)
    (requests : List (Request ℚ)) (cap : Option Nat) {solution : Solution ℚ}
    (h : ((build direction objective requests).solve ⟨cap, 0⟩).map (·.solution) = .ok solution)
    (hvalues : solution.status = .optimal ∨ solution.values ≠ []) :
    let p := build direction objective requests
    let columns := p.variableCount + p.constraintCount
    solution.values.length = columns ∧ solution.reducedCosts.length = columns ∧
      (∃ y, p.DualCertificate solution y ∧
        ((∀ c ∈ p.constraints, c.relation ≠ .equal) → y = p.shadowPrices solution)) ∧
      (∀ k < columns, solution.values.getD k 0 * solution.reducedCosts.getD k 0 = 0) ∧
      (solution.status = .optimal →
        ∀ k < columns, 0 ≤ direction.sign * solution.reducedCosts.getD k 0) := by
  intro p columns
  obtain ⟨-, hanswered⟩ := answered_of_solve rhs_nonneg_of_build h
  obtain ⟨s, iterations, hs, hsolution, hoptimal⟩ := hanswered.exists_state hvalues
  have hcolumns : s.objective.length = columns := by
    rw [hs.objective, length_extendedCosts]
    rfl
  rw [direction_build] at hoptimal
  rw [hsolution]
  refine ⟨?_, ?_, ?_, fun k hk => ?_, fun hstatus k hk => ?_⟩
  · simp [Solution.ofState, hcolumns]
  · simp [Solution.ofState, State.reducedCosts, hcolumns]
  · obtain ⟨y, hy⟩ := exists_dualCertificate hs solution.status iterations
    exact ⟨y, hy, hy.eq_shadowPrices⟩
  · rw [getD_values_ofState (hcolumns ▸ hk), getD_reducedCosts_ofState (hcolumns ▸ hk)]
    exact hs.feasible.canonical.value_mul_reducedCost k
  · rw [getD_reducedCosts_ofState (hcolumns ▸ hk)]
    have hprice := State.price_eq_none.1 (State.verdict_eq_optimal (hoptimal hstatus)) k
      (hcolumns ▸ hk)
    rwa [neg_zero] at hprice

/-- A lower bound and an upper bound hold with equality, and both have a price. -/
theorem solve_dual_certificate_bounds :
    let requests : List (Request ℚ) := [.add [1, 1] ">=" 4, .add [-1, 0] ">=" (-3),
      .add [0, 1] "<=" 5]
    let p := build .minimize [2, 3] requests
    let solution : Solution ℚ := ⟨.optimal, .number 9, [3, 1, 0, 0, 4], [0, 0, -3, -1, 0], 2, 2⟩
    (p.solve ⟨none, 0⟩).map (·.solution) = .ok solution ∧
      (solution.status = .optimal ∨ solution.values ≠ []) ∧
      p.DualCertificate solution [3, -1, 0] := by
  intro requests p solution
  have hsolve : (p.solve ⟨none, 0⟩).map (·.solution) = .ok solution := by decide +kernel
  have hvalues : solution.status = .optimal ∨ solution.values ≠ [] := Or.inl rfl
  obtain ⟨-, -, ⟨y, hy, hprices⟩, -, -⟩ :=
    solve_dual_certificate .minimize [2, 3] requests none hsolve hvalues
  have hy' : y = [3, -1, 0] := (hprices (by decide +kernel)).trans (by decide +kernel)
  exact ⟨hsolve, hvalues, hy' ▸ hy⟩

end Program

end SimplexMethod
