import SimplexMethod.Proofs.Basis

/-!
# SimplexMethod.Proofs.Costs

**What a state says about the cost of solutions.** The reduced costs and the objective value are
recomputed from the current basis in every state. Together they rewrite the cost of any solution
of the equations (`cost_eq`):

    cost of v = objective value - sum of (reduced cost of j) * v j

This identity needs no canonical basis. Both verdicts of the method rest on it:
if no reduced cost has the wrong sign, no solution beats the objective value, and
along a column with a reduced cost of the wrong sign the cost changes at a constant
rate (`cost_along`).

An exchange changes the reduced costs like one more row of the table
(`Exchanged.reducedCost_eq`), whatever the basis was before.

A canonical basis adds that the objective value is attained, namely by the basic
solution (`solves_value`, `cost_value`).
-/

namespace SimplexMethod.State

/-! ### Reduced costs and the objective value as sums -/

theorem reducedCost_eq_sum (s : State ℚ) (j : Nat) :
    s.reducedCost j =
      (∑ i ∈ Finset.range s.tableau.rows, s.basicCost i * s.tableau.entry i j) -
        s.objective.getD j 0 := by
  rw [reducedCost, foldl_range_eq_sum, neg_add_eq_sub]

theorem objectiveValue_eq_sum (s : State ℚ) :
    s.objectiveValue = ∑ i ∈ Finset.range s.tableau.rows, s.basicCost i * s.rhs i :=
  total_range _ _

/-- The cost of an assignment. -/
def cost (s : State ℚ) (v : Nat → ℚ) : ℚ :=
  ∑ j ∈ Finset.range s.objective.length, s.objective.getD j 0 * v j

theorem rowSum_eq (s : State ℚ) (v : Nat → ℚ) (i : Nat) :
    s.tableau.rowSum v i =
      ∑ j ∈ Finset.range s.objective.length, s.tableau.entry i j * v j := by
  rw [Tableau.rowSum, s.cols_sub_one]

/-- **Reduced costs price every solution**, not only the basic one. -/
theorem cost_eq {s : State ℚ} {v : Nat → ℚ} (hv : s.tableau.Solves v) :
    s.cost v =
      s.objectiveValue - ∑ j ∈ Finset.range s.objective.length, s.reducedCost j * v j := by
  -- the equations of all rows, weighted with their basic costs and added up
  have hrows : ∑ j ∈ Finset.range s.objective.length,
      (∑ i ∈ Finset.range s.tableau.rows, s.basicCost i * s.tableau.entry i j) * v j =
        s.objectiveValue := by
    rw [objectiveValue_eq_sum]
    simp only [Finset.sum_mul]
    rw [Finset.sum_comm]
    refine Finset.sum_congr rfl fun i hi => ?_
    rw [show s.rhs i = s.tableau.rowSum v i from (hv i (Finset.mem_range.1 hi)).symm, rowSum_eq,
      Finset.mul_sum]
    exact Finset.sum_congr rfl fun j _ => mul_assoc _ _ _
  have hsplit : ∑ j ∈ Finset.range s.objective.length, s.reducedCost j * v j =
      s.objectiveValue - s.cost v := by
    rw [← hrows, cost, ← Finset.sum_sub_distrib]
    exact Finset.sum_congr rfl fun j _ => by rw [reducedCost_eq_sum, sub_mul]
  rw [hsplit]
  ring

/-! ### After an exchange -/

/-- **An exchange changes the reduced costs like one more row of the table**: the multiple of the
row of the exchange is subtracted that clears the entering column. -/
theorem Exchanged.reducedCost_eq {s t : State ℚ} {r c : Nat} (h : s.Exchanged r c t)
    (hpivot : s.tableau.entry r c ≠ 0) (j : Nat) :
    t.reducedCost j =
      s.reducedCost j - s.reducedCost c * (s.tableau.entry r j / s.tableau.entry r c) := by
  obtain ⟨hr, -⟩ := Tableau.lt_of_entry_ne_zero hpivot
  have hlength : r < s.basis.length := s.length_basis ▸ hr
  have hbasic : ∀ i < s.tableau.rows,
      t.basicCost i = if i = r then s.objective.getD c 0 else s.basicCost i := by
    intro i hi
    rw [basicCost, h.objective, h.basis]
    split
    · next hir => simp [hir, hlength]
    · next hir => simp [basicCost, List.getD_eq_getElem?_getD, List.getElem?_set_ne (Ne.symm hir)]
  -- the row of the exchange makes up for the change of its basic column
  have hterm : ∀ i ∈ Finset.range s.tableau.rows,
      t.basicCost i * t.tableau.entry i j =
        s.basicCost i * s.tableau.entry i j -
          s.basicCost i * s.tableau.entry i c * (s.tableau.entry r j / s.tableau.entry r c) +
          if i = r then s.objective.getD c 0 * (s.tableau.entry r j / s.tableau.entry r c)
          else 0 := by
    intro i hi
    rw [hbasic i (Finset.mem_range.1 hi), h.tableau, Tableau.entry_eliminate_exact hpivot]
    split
    · next hir =>
      rw [hir]
      field_simp
      ring
    · ring
  rw [reducedCost_eq_sum, reducedCost_eq_sum, reducedCost_eq_sum, h.rows, h.objective,
    Finset.sum_congr rfl hterm, Finset.sum_add_distrib, Finset.sum_sub_distrib, ← Finset.sum_mul,
    Finset.sum_ite_eq', if_pos (Finset.mem_range.2 hr)]
  ring

/-- The right-hand side has no cost of its own, so it is priced at the objective value. -/
theorem reducedCost_length (s : State ℚ) :
    s.reducedCost s.objective.length = s.objectiveValue := by
  rw [reducedCost_eq_sum, objectiveValue_eq_sum, List.getD_eq_default _ _ le_rfl, sub_zero]
  refine Finset.sum_congr rfl fun i _ => ?_
  rw [rhs, Tableau.rhs, s.cols_sub_one]

/-- The objective value changes like an entry of that row too, the last one. -/
theorem Exchanged.objectiveValue_eq {s t : State ℚ} {r c : Nat} (h : s.Exchanged r c t)
    (hpivot : s.tableau.entry r c ≠ 0) :
    t.objectiveValue = s.objectiveValue - s.reducedCost c * (s.rhs r / s.tableau.entry r c) := by
  have hlast := h.reducedCost_eq hpivot s.objective.length
  rw [reducedCost_length, ← h.objective, reducedCost_length, h.objective] at hlast
  rw [hlast, rhs, Tableau.rhs, s.cols_sub_one]

/-! ### Assignments to the basic columns -/

/-- The assignment of `x i` to the basic column of each row `i`, and of zero to all others. -/
def basicAssignment (s : State ℚ) (x : Nat → ℚ) (j : Nat) : ℚ :=
  ∑ i ∈ Finset.range s.tableau.rows, if s.basis.getD i 0 = j then x i else 0

theorem basicAssignment_nonneg {s : State ℚ} {x : Nat → ℚ} (hx : ∀ i < s.tableau.rows, 0 ≤ x i)
    (j : Nat) : 0 ≤ s.basicAssignment x j := by
  refine Finset.sum_nonneg fun i hi => ?_
  split
  · exact hx i (Finset.mem_range.1 hi)
  · exact le_rfl

theorem basis_getD_lt (s : State ℚ) {i : Nat} (hi : i < s.tableau.rows) :
    s.basis.getD i 0 < s.objective.length := by
  have hlen : i < s.basis.length := s.length_basis ▸ hi
  rw [List.getD_eq_getElem _ _ hlen]
  exact s.basis_lt _ (List.getElem_mem hlen)

/-- A weighted sum over the columns is one over the rows. -/
theorem sum_mul_basicAssignment (s : State ℚ) (a x : Nat → ℚ) :
    ∑ j ∈ Finset.range s.objective.length, a j * s.basicAssignment x j =
      ∑ i ∈ Finset.range s.tableau.rows, a (s.basis.getD i 0) * x i := by
  simp only [basicAssignment, Finset.mul_sum]
  rw [Finset.sum_comm]
  refine Finset.sum_congr rfl fun i hi => ?_
  have hmem : s.basis.getD i 0 ∈ Finset.range s.objective.length :=
    Finset.mem_range.2 (s.basis_getD_lt (Finset.mem_range.1 hi))
  simp only [mul_ite, mul_zero, Finset.sum_ite_eq, hmem, if_true]

/-- In a canonical basis the rows read off what the assignment says about them. -/
theorem Canonical.rowSum_basicAssignment {s : State ℚ} (h : s.Canonical) (x : Nat → ℚ) {k : Nat}
    (hk : k < s.tableau.rows) : s.tableau.rowSum (s.basicAssignment x) k = x k := by
  -- of all basic columns only that of row `k` has an entry there
  rw [rowSum_eq, sum_mul_basicAssignment]
  rw [Finset.sum_eq_single k]
  · rw [h.unit k hk k hk, if_pos rfl, one_mul]
  · intro i hi hik
    rw [h.unit i (Finset.mem_range.1 hi) k hk, if_neg (Ne.symm hik), zero_mul]
  · intro hout
    exact absurd (Finset.mem_range.2 hk) hout

/-! ### The basic solution -/

theorem lastRowOf_eq_some {s : State ℚ} {i j : Nat} (h : s.lastRowOf j = some i) :
    i < s.tableau.rows ∧ s.basis.getD i 0 = j := by
  have hmem := List.mem_of_find?_eq_some h
  have heq := List.find?_some h
  simp only [List.mem_reverse, List.mem_range] at hmem
  exact ⟨hmem, by simpa using heq⟩

theorem lastRowOf_eq_none {s : State ℚ} {j : Nat} (h : s.lastRowOf j = none) {i : Nat}
    (hi : i < s.tableau.rows) : s.basis.getD i 0 ≠ j := by
  have hall := List.find?_eq_none.1 h i (by simpa using hi)
  simpa using hall

/-- A column with a value is basic. -/
theorem exists_basis_of_value_ne_zero {s : State ℚ} {j : Nat} (h : s.value j ≠ 0) :
    ∃ i < s.tableau.rows, s.basis.getD i 0 = j := by
  unfold value at h
  split at h
  · next i hrow => exact ⟨i, lastRowOf_eq_some hrow⟩
  · exact absurd rfl h

/-- The value of a column at the basic solution is what its row has on the right-hand side. -/
theorem Canonical.value_eq {s : State ℚ} (h : s.Canonical) (j : Nat) :
    s.value j = s.basicAssignment s.rhs j := by
  unfold value basicAssignment
  split
  · next i hrow =>
    obtain ⟨hi, rfl⟩ := lastRowOf_eq_some hrow
    rw [Finset.sum_eq_single i]
    · rw [if_pos rfl, add_zero]
    · intro k hk hki
      exact if_neg fun heq => hki (h.injective (Finset.mem_range.1 hk) hi heq)
    · intro hout
      exact absurd (Finset.mem_range.2 hi) hout
  · next hnone =>
    refine (Finset.sum_eq_zero fun i hi => ?_).symm
    exact if_neg (lastRowOf_eq_none hnone (Finset.mem_range.1 hi))

namespace Canonical

variable {s : State ℚ}

/-- **The basic solution solves the equations.** -/
theorem solves_value (h : s.Canonical) : s.tableau.Solves s.value := by
  intro k hk
  rw [funext h.value_eq, h.rowSum_basicAssignment s.rhs hk]
  rfl

/-- **The objective value is the cost of the basic solution.** -/
theorem cost_value (h : s.Canonical) : s.cost s.value = s.objectiveValue := by
  rw [funext h.value_eq, cost, sum_mul_basicAssignment, objectiveValue_eq_sum]
  rfl

theorem value_nonneg (h : s.Canonical) (hrhs : ∀ i < s.tableau.rows, 0 ≤ s.rhs i) (j : Nat) :
    0 ≤ s.value j := by
  rw [h.value_eq]
  exact basicAssignment_nonneg hrhs j

/-- What can be added to any solution adds nothing to any row. -/
theorem rowSum_eq_zero_of_free (h : s.Canonical) {d : Nat → ℚ}
    (hfree : ∀ v, s.tableau.Solves v → s.tableau.Solves fun j => v j + d j) {k : Nat}
    (hk : k < s.tableau.rows) : s.tableau.rowSum d k = 0 := by
  have hmoved := hfree _ h.solves_value k hk
  rw [Tableau.rowSum_add, h.solves_value k hk] at hmoved
  exact add_eq_left.1 hmoved

/-- **A column that the equations leave open is zero**, since a basic column is determined by the
others. -/
theorem value_eq_zero_of_free (h : s.Canonical) {z : Nat}
    (hfree : ∀ v, s.tableau.Solves v →
      s.tableau.Solves fun j => v j + if j = z then 1 else 0) : s.value z = 0 := by
  by_contra hvalue
  obtain ⟨k, hk, hz⟩ := exists_basis_of_value_ne_zero hvalue
  -- the row of the column sees the change
  have hrow := h.rowSum_eq_zero_of_free hfree hk
  rw [Tableau.rowSum_single _ (hz ▸ h.lt k hk), ← hz, h.unit k hk k hk, if_pos rfl] at hrow
  exact one_ne_zero hrow

/-- **Of two columns that can be raised together one is zero**, since not both of them are basic. -/
theorem value_eq_zero_or_of_free (h : s.Canonical) {y z : Nat} (hyz : y ≠ z)
    (hfree : ∀ v, s.tableau.Solves v → s.tableau.Solves fun j =>
      v j + ((if j = y then 1 else 0) + if j = z then 1 else 0)) :
    s.value y = 0 ∨ s.value z = 0 := by
  by_contra hboth
  rw [not_or] at hboth
  obtain ⟨i, hi, hy⟩ := exists_basis_of_value_ne_zero hboth.1
  obtain ⟨k, hk, hz⟩ := exists_basis_of_value_ne_zero hboth.2
  have hik : i ≠ k := fun heq => hyz (by rw [← hy, ← hz, heq])
  -- in the row of one of them the other one is zero, so that row sees the change
  have hrow := h.rowSum_eq_zero_of_free hfree hi
  rw [Tableau.rowSum_add, Tableau.rowSum_single _ (hy ▸ h.lt i hi),
    Tableau.rowSum_single _ (hz ▸ h.lt k hk), ← hy, ← hz, h.unit i hi i hi, h.unit k hk i hi,
    if_pos rfl, if_neg hik, add_zero] at hrow
  exact one_ne_zero hrow

/-- Basic columns have no reduced cost. -/
theorem reducedCost_basic (h : s.Canonical) {k : Nat} (hk : k < s.tableau.rows) :
    s.reducedCost (s.basis.getD k 0) = 0 := by
  rw [reducedCost_eq_sum, Finset.sum_eq_single k]
  · rw [h.unit k hk k hk, if_pos rfl, mul_one, basicCost, sub_self]
  · intro i hi hik
    rw [h.unit k hk i (Finset.mem_range.1 hi), if_neg hik, mul_zero]
  · intro hout
    exact absurd (Finset.mem_range.2 hk) hout

end Canonical

/-! ### Moving along a column -/

/-- The point reached from the basic solution by raising column `c` to `x`, with the basic columns
keeping the equations satisfied. -/
def along (s : State ℚ) (c : Nat) (x : ℚ) (j : Nat) : ℚ :=
  s.basicAssignment (fun i => s.rhs i - x * s.tableau.entry i c) j + if j = c then x else 0

theorem sum_mul_along (s : State ℚ) {c : Nat} (hc : c < s.objective.length) (x : ℚ) (a : Nat → ℚ) :
    ∑ j ∈ Finset.range s.objective.length, a j * s.along c x j =
      ∑ i ∈ Finset.range s.tableau.rows,
        a (s.basis.getD i 0) * (s.rhs i - x * s.tableau.entry i c) + a c * x := by
  have hmem : c ∈ Finset.range s.objective.length := Finset.mem_range.2 hc
  simp only [along, mul_add, Finset.sum_add_distrib, sum_mul_basicAssignment, mul_ite, mul_zero,
    Finset.sum_ite_eq', hmem, if_true]

theorem Canonical.solves_along {s : State ℚ} (h : s.Canonical) {c : Nat}
    (hc : c < s.objective.length) (x : ℚ) : s.tableau.Solves (s.along c x) := by
  intro k hk
  rw [rowSum_eq, sum_mul_along s hc x]
  rw [← sum_mul_basicAssignment, ← rowSum_eq, h.rowSum_basicAssignment _ hk]
  show s.rhs k - x * s.tableau.entry k c + s.tableau.entry k c * x = s.rhs k
  ring

/-- **Along a column the cost changes by the reduced cost** for each unit. -/
theorem cost_along (s : State ℚ) {c : Nat} (hc : c < s.objective.length) (x : ℚ) :
    s.cost (s.along c x) = s.objectiveValue - s.reducedCost c * x := by
  rw [cost, sum_mul_along s hc x, objectiveValue_eq_sum, reducedCost_eq_sum]
  have hrows : ∑ i ∈ Finset.range s.tableau.rows,
      s.objective.getD (s.basis.getD i 0) 0 * (s.rhs i - x * s.tableau.entry i c) =
        (∑ i ∈ Finset.range s.tableau.rows, s.basicCost i * s.rhs i) -
          x * ∑ i ∈ Finset.range s.tableau.rows, s.basicCost i * s.tableau.entry i c := by
    rw [Finset.mul_sum, ← Finset.sum_sub_distrib]
    refine Finset.sum_congr rfl fun i _ => ?_
    rw [basicCost]
    ring
  rw [hrows]
  ring

end SimplexMethod.State
