import SimplexMethod.Proofs.Search

/-!
# SimplexMethod.Proofs.SecondPhase

**What the states of the second phase stand for.** `State.Represents` says that a state has the
costs of the program, and that its equations are those of the program without artificial
variables. Its basic solution is then a feasible point of the program, followed by the
slacks there (`Represents.values_eq`).

The slack of an equation is a column of zeros in the equality form. That it is zero at
the basic solution as well is not a matter of course, since the column is one that
can be exchanged; it never is, because a basic column is determined by the others
(`value_eq_zero_of_equal`).

A pass keeps all of this, so its verdicts speak about the points of the program:
`not_better_of_pass` and `exists_better_of_pass`.
-/

namespace SimplexMethod

/-! ### Costs of points -/

namespace Program

variable {p : Program ℚ}

theorem getD_extendedCosts_variable {j : Nat} (hj : j < p.variableCount) :
    p.extendedCosts.getD j 0 = p.objective.getD j 0 := List.getD_append _ _ _ _ hj

/-- Slacks cost nothing. -/
theorem getD_extendedCosts_slack {i : Nat} (hi : i < p.constraintCount) :
    p.extendedCosts.getD (p.variableCount + i) 0 = 0 := by
  have hle : p.objective.length ≤ p.variableCount + i := Nat.le_add_right _ _
  rw [extendedCosts, List.getD_append_right _ _ _ _ hle]
  exact List.getD_replicate _ (by unfold variableCount; omega)

/-- The cost of an assignment is the cost of the point that it stands for. -/
theorem sum_extendedCosts (p : Program ℚ) (v : Nat → ℚ) :
    ∑ j ∈ Finset.range p.extendedCosts.length, p.extendedCosts.getD j 0 * v j =
      dot p.objective (p.point v) := by
  have hslacks : ∑ i ∈ Finset.range p.constraintCount,
      p.extendedCosts.getD (p.variableCount + i) 0 * v (p.variableCount + i) = 0 :=
    Finset.sum_eq_zero fun i hi => by
      rw [getD_extendedCosts_slack (Finset.mem_range.1 hi), zero_mul]
  rw [length_extendedCosts, firstArtificial, Finset.sum_range_add, hslacks, add_zero, dot_point rfl]
  exact Finset.sum_congr rfl fun j hj => by
    rw [getD_extendedCosts_variable (Finset.mem_range.1 hj)]

/-- A point is read off its own extension. -/
theorem point_extension {x : List ℚ} (hx : x.length = p.variableCount) :
    p.point (fun j => (p.extension x).getD j 0) = x := by
  refine List.ext_getElem (by rw [length_point, hx]) fun j _ hj => ?_
  simp only [point, List.getElem_map, List.getElem_range]
  rw [getD_extension_variable hj, List.getD_eq_getElem _ _ hj]

end Program

/-! ### States of the second phase -/

namespace State

variable {p : Program ℚ} {s : State ℚ}

/-- The state has the costs of the program, the program's equations without artificial variables,
and a feasible basic solution. -/
structure Represents (s : State ℚ) (p : Program ℚ) : Prop where
  feasible : s.Feasible
  objective : s.objective = p.extendedCosts
  solves : ∀ v, s.tableau.Solves v ↔
    (EqualityForm.ofProgram p).tableau.Solves (upTo p.firstArtificial v)

namespace Represents

theorem cost_eq (h : s.Represents p) (v : Nat → ℚ) : s.cost v = dot p.objective (p.point v) := by
  rw [State.cost, h.objective, p.sum_extendedCosts]

/-- **The variables at the basic solution are a feasible point.** -/
theorem feasiblePoint_value (h : s.Represents p) (hfit : p.mismatch = none) :
    FeasiblePoint p.variableCount p.constraints (p.point s.value) :=
  Program.feasiblePoint_of_solves hfit (h.feasible.canonical.value_nonneg h.feasible.rhs_nonneg)
    ((h.solves _).1 h.feasible.canonical.solves_value)

theorem objectiveValue_eq (h : s.Represents p) :
    s.objectiveValue = dot p.objective (p.point s.value) := by
  rw [← h.feasible.canonical.cost_value, h.cost_eq]

/-- **The slack column of an equation stays out of the basis**, so it is zero. The equations leave
the value of this column open, but a basic column is determined by the others. -/
theorem value_eq_zero_of_equal (h : s.Represents p) {i : Nat} {c : Constraint ℚ}
    (hc : p.constraints[i]? = some c) (hequal : c.relation = .equal) :
    s.value (p.variableCount + i) = 0 := by
  refine h.feasible.canonical.value_eq_zero_of_free fun v hv => ?_
  rw [h.solves, EqualityForm.solves_upTo_iff] at hv ⊢
  intro k d hd
  rw [← hv k d hd]
  congr 1
  · refine Finset.sum_congr rfl fun j hj => ?_
    have hj' := Finset.mem_range.1 hj
    rw [if_neg (by omega), add_zero]
  · by_cases hki : k = i
    · -- the only row that could see the change has a zero there
      subst hki
      rw [hc] at hd
      cases hd
      rw [hequal, EqualityForm.slackCoefficient, zero_mul, zero_mul]
    · rw [if_neg (by omega), add_zero]

/-- **What a state stands for**: the variables at the basic solution, and their slacks. -/
theorem values_eq (h : s.Represents p) (hfit : p.mismatch = none) :
    (List.range s.objective.length).map s.value = p.extension (p.point s.value) := by
  have hslacks : (List.range p.constraintCount).map (fun i => s.value (p.variableCount + i)) =
      p.constraints.map (·.slack (p.point s.value)) := by
    refine List.ext_getElem (by simp [Program.constraintCount]) fun i _ hi => ?_
    have hi' : i < p.constraints.length := by simpa using hi
    have hc : p.constraints[i]? = some p.constraints[i] := List.getElem?_eq_getElem hi'
    have hslack := Program.slack_point hfit ((h.solves _).1 h.feasible.canonical.solves_value) hc
      (h.value_eq_zero_of_equal hc)
    simp [hslack]
  rw [h.objective, Program.length_extendedCosts, Program.firstArtificial, List.range_add,
    List.map_append, List.map_map]
  rw [Program.extension, ← hslacks]
  rfl

/-! ### Passes of the second phase -/

variable {cap : Option Nat} {pass : Pass ℚ}

theorem of_pass (h : s.Represents p) (hpass : s.pass ⟨cap, 0⟩ .two p.direction.sign = .ok pass) :
    pass.state.Represents p := by
  obtain ⟨hend, hsame, -⟩ := h.feasible.of_pass hpass
  exact ⟨hend, hsame.objective.trans h.objective, fun v => (hsame.solves v).trans (h.solves v)⟩

/-- **No feasible point is better than the last state of an optimal pass.** -/
theorem not_better_of_pass (h : s.Represents p) (hfit : p.mismatch = none)
    (hpass : s.pass ⟨cap, 0⟩ .two p.direction.sign = .ok pass)
    (houtcome : pass.outcome = .optimal) {y : List ℚ}
    (hy : FeasiblePoint p.variableCount p.constraints y) :
    ¬p.direction.Better (dot p.objective y) (dot p.objective (p.point pass.state.value)) := by
  have hbound := h.feasible.signed_cost_le_of_pass hpass houtcome
    ((h.solves _).2 (Program.solves_extension hfit hy)) (Program.extension_nonneg hy)
  rw [h.cost_eq, Program.point_extension hy.length, (h.of_pass hpass).objectiveValue_eq] at hbound
  rw [Direction.better_iff]
  exact not_lt.2 hbound

/-- **An unbounded pass leaves feasible points beyond every bound.** -/
theorem exists_better_of_pass (h : s.Represents p) (hfit : p.mismatch = none)
    (hpass : s.pass ⟨cap, 0⟩ .two p.direction.sign = .ok pass)
    (houtcome : pass.outcome = .unbounded) (bound : ℚ) :
    ∃ x, FeasiblePoint p.variableCount p.constraints x ∧
      p.direction.Better (dot p.objective x) bound := by
  obtain ⟨v, hnonneg, hv, hbeyond⟩ :=
    h.feasible.exists_beyond_of_pass hpass houtcome (p.direction.sign * bound)
  refine ⟨p.point v, Program.feasiblePoint_of_solves hfit hnonneg ((h.solves v).1 hv), ?_⟩
  rw [Direction.better_iff, ← h.cost_eq]
  exact hbeyond

end Represents

end State

end SimplexMethod
