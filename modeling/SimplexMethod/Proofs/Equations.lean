import SimplexMethod.Proofs.Exact

/-!
# SimplexMethod.Proofs.Equations

**A tableau as a system of equations.** A row says that the columns left of the right-hand side,
weighted with the values given to them, add up to the right-hand side. What the method does to
tableaux is justified by what it does to the solutions of these equations:

* an elimination step on an entry that is not zero keeps them all (`solves_eliminate`);
* erasing a row keeps the equations of the other rows (`solves_eraseRow`);
* dropping columns keeps the solutions in which the dropped columns are zero
  (`solves_dropColumns`).

An assignment gives a value to every natural number, and only the columns of the
table are read, so one assignment serves tables of different widths.
-/

namespace SimplexMethod

/-- The assignment `v` on the first `n` columns, zero on all others. -/
def upTo (n : Nat) (v : Nat → ℚ) (j : Nat) : ℚ := if j < n then v j else 0

theorem upTo_of_lt {n j : Nat} (v : Nat → ℚ) (h : j < n) : upTo n v j = v j := if_pos h

theorem upTo_of_le {n j : Nat} (v : Nat → ℚ) (h : n ≤ j) : upTo n v j = 0 := if_neg (not_lt.2 h)

theorem upTo_nonneg {v : Nat → ℚ} (hv : ∀ j, 0 ≤ v j) (n j : Nat) : 0 ≤ upTo n v j := by
  unfold upTo
  split
  · exact hv j
  · exact le_rfl

/-- A weighted sum sees of a shortened assignment just its first columns. -/
theorem sum_mul_upTo {n m : Nat} (hnm : n ≤ m) (a v : Nat → ℚ) :
    ∑ j ∈ Finset.range m, a j * upTo n v j = ∑ j ∈ Finset.range n, a j * v j := by
  rw [← Finset.sum_subset (Finset.range_subset_range.2 hnm)]
  · refine Finset.sum_congr rfl fun j hj => ?_
    rw [upTo_of_lt v (Finset.mem_range.1 hj)]
  · intro j _ hj
    rw [upTo_of_le v (not_lt.1 fun h => hj (Finset.mem_range.2 h)), mul_zero]

namespace Tableau

/-! ### Equations and their solutions -/

/-- The left side of the equation in row `i`. -/
def rowSum (t : Tableau ℚ) (v : Nat → ℚ) (i : Nat) : ℚ :=
  ∑ j ∈ Finset.range (t.cols - 1), t.entry i j * v j

/-- The assignment satisfies the equation of every row. -/
def Solves (t : Tableau ℚ) (v : Nat → ℚ) : Prop := ∀ i < t.rows, t.rowSum v i = t.rhs i

/-- A row sum reads an assignment left of the right-hand side only. -/
theorem rowSum_congr {t : Tableau ℚ} {v w : Nat → ℚ} (h : ∀ j < t.cols - 1, v j = w j) (i : Nat) :
    t.rowSum v i = t.rowSum w i :=
  Finset.sum_congr rfl fun j hj => by rw [h j (Finset.mem_range.1 hj)]

theorem rowSum_add (t : Tableau ℚ) (v w : Nat → ℚ) (i : Nat) :
    t.rowSum (fun j => v j + w j) i = t.rowSum v i + t.rowSum w i := by
  simp only [rowSum, mul_add, Finset.sum_add_distrib]

/-- The assignment of one to a single column reads off its entries. -/
theorem rowSum_single (t : Tableau ℚ) {j : Nat} (hj : j < t.cols - 1) (i : Nat) :
    t.rowSum (fun k => if k = j then 1 else 0) i = t.entry i j := by
  simp only [rowSum, mul_ite, mul_one, mul_zero, Finset.sum_ite_eq', Finset.mem_range.2 hj, if_true]

theorem solves_congr {t : Tableau ℚ} {v w : Nat → ℚ} (h : ∀ j < t.cols - 1, v j = w j) :
    t.Solves v ↔ t.Solves w := by
  refine forall₂_congr fun i _ => ?_
  rw [rowSum_congr h]

/-! ### Elimination -/

/-- An entry that is not zero lies in the table. -/
theorem lt_of_entry_ne_zero {t : Tableau ℚ} {i j : Nat} (h : t.entry i j ≠ 0) :
    i < t.rows ∧ j < t.cols := by
  by_contra hout
  exact h (entry_of_not_lt hout)

/-- Over exact numbers an elimination step treats the column that it clears like any other. Outside
the table entries are zero, which is also what the formula makes of zeros. -/
theorem entry_eliminate_exact {t : Tableau ℚ} {r c : Nat} (hpivot : t.entry r c ≠ 0) (i j : Nat) :
    (t.eliminate r c).entry i j =
      if i = r then t.entry r j / t.entry r c
      else t.entry i j - t.entry i c * (t.entry r j / t.entry r c) := by
  obtain ⟨hr, -⟩ := lt_of_entry_ne_zero hpivot
  by_cases hij : i < t.rows ∧ j < t.cols
  · rw [entry_eliminate t r c hij.1 hij.2]
    by_cases hic : i = r
    · subst hic
      by_cases hjc : j = c
      · simp [hjc, hpivot]
      · simp [hjc]
    · by_cases hjc : j = c
      · simp [hjc, hic, hpivot]
      · by_cases hzero : t.entry i c = 0
        · simp [hjc, hic, hzero]
        · simp [hjc, hic, hzero]
  · rw [entry_of_not_lt (t := t.eliminate r c) hij, entry_of_not_lt hij]
    by_cases hi : i < t.rows
    · have hj : ¬(r < t.rows ∧ j < t.cols) := fun h => hij ⟨hi, h.2⟩
      rw [entry_of_not_lt hj, zero_div, mul_zero, sub_zero, ite_self]
    · rw [if_neg (by omega), entry_of_not_lt (t := t) (i := i) (j := c) (by omega), zero_mul,
        sub_zero]

theorem rhs_eliminate {t : Tableau ℚ} {r c : Nat} (hpivot : t.entry r c ≠ 0) (i : Nat) :
    (t.eliminate r c).rhs i =
      if i = r then t.rhs r / t.entry r c
      else t.rhs i - t.entry i c * (t.rhs r / t.entry r c) :=
  entry_eliminate_exact hpivot i _

/-- The left sides of the equations change like the entries. -/
theorem rowSum_eliminate {t : Tableau ℚ} {r c : Nat} (hpivot : t.entry r c ≠ 0) (v : Nat → ℚ)
    (i : Nat) :
    (t.eliminate r c).rowSum v i =
      if i = r then t.rowSum v r / t.entry r c
      else t.rowSum v i - t.entry i c * (t.rowSum v r / t.entry r c) := by
  have hentry : ∀ j ∈ Finset.range (t.cols - 1), (t.eliminate r c).entry i j * v j =
      if i = r then t.entry r j * v j / t.entry r c
      else t.entry i j * v j - t.entry i c * (t.entry r j * v j / t.entry r c) := by
    intro j _
    rw [entry_eliminate_exact hpivot]
    split <;> ring
  rw [rowSum, cols_eliminate, Finset.sum_congr rfl hentry]
  split
  · rw [rowSum, Finset.sum_div]
  · rw [rowSum, rowSum, Finset.sum_sub_distrib, ← Finset.mul_sum, Finset.sum_div]

/-- **An elimination step keeps the solutions.** -/
theorem solves_eliminate {t : Tableau ℚ} {r c : Nat} (hpivot : t.entry r c ≠ 0) (v : Nat → ℚ) :
    (t.eliminate r c).Solves v ↔ t.Solves v := by
  obtain ⟨hr, -⟩ := lt_of_entry_ne_zero hpivot
  constructor
  · intro h
    -- row `r` is divided back, and then the multiples of it in the other rows cancel
    have hrow : t.rowSum v r = t.rhs r := by
      have hr' := h r hr
      rw [rowSum_eliminate hpivot, rhs_eliminate hpivot, if_pos rfl, if_pos rfl] at hr'
      exact (div_left_inj' hpivot).1 hr'
    intro i hi
    have hi' := h i hi
    rw [rowSum_eliminate hpivot, rhs_eliminate hpivot, hrow] at hi'
    by_cases hir : i = r
    · rw [hir]
      exact hrow
    · rw [if_neg hir, if_neg hir] at hi'
      linarith
  · intro h i hi
    rw [rowSum_eliminate hpivot, rhs_eliminate hpivot, h r hr, h i hi]

/-- A step at a row whose right-hand side is zero changes no right-hand side. -/
theorem rhs_eliminate_of_zero {t : Tableau ℚ} {r c : Nat} (hpivot : t.entry r c ≠ 0)
    (hzero : t.rhs r = 0) (i : Nat) : (t.eliminate r c).rhs i = t.rhs i := by
  rw [rhs_eliminate hpivot, hzero, zero_div, mul_zero, sub_zero]
  split
  · next hir => rw [hir, hzero]
  · rfl

/-! ### Writing down a right-hand side -/

/-- Writing down the right-hand side that a row has already changes nothing. -/
theorem set_rhs_self {t : Tableau ℚ} {i : Nat} {x : ℚ} (h : t.rhs i = x) :
    t.set i (t.cols - 1) x = t := by
  refine ext_entry rfl rfl fun i' j hi hj => ?_
  rw [entry_set t i (t.cols - 1) x hi hj]
  split
  · next heq =>
    rw [heq.1, heq.2]
    exact h.symm
  · rfl

/-! ### Erasing a row -/

/-- The number that row `i` had before row `r` was erased. -/
def rowBefore (r i : Nat) : Nat := if i < r then i else i + 1

theorem rowBefore_of_lt {r i : Nat} (h : i < r) : rowBefore r i = i := if_pos h

theorem rowBefore_of_le {r i : Nat} (h : r ≤ i) : rowBefore r i = i + 1 := if_neg (by omega)

theorem rowBefore_lt {r i n : Nat} (hi : i < n - 1) : rowBefore r i < n := by
  unfold rowBefore
  split <;> omega

theorem rowBefore_ne (r i : Nat) : rowBefore r i ≠ r := by
  unfold rowBefore
  split <;> omega

theorem rowBefore_inj {r i k : Nat} : rowBefore r i = rowBefore r k ↔ i = k := by
  unfold rowBefore
  split <;> split <;> omega

/-- Every row but the erased one is still there. -/
theorem exists_rowBefore {r k n : Nat} (hk : k < n) (hkr : k ≠ r) (hr : r < n) :
    ∃ i < n - 1, rowBefore r i = k := by
  rcases lt_or_gt_of_ne hkr with hlt | hgt
  · exact ⟨k, by omega, rowBefore_of_lt hlt⟩
  · refine ⟨k - 1, by omega, ?_⟩
    rw [rowBefore_of_le (by omega), Nat.sub_add_cancel (by omega)]

theorem getD_eraseIdx (xs : List Nat) (r i : Nat) :
    (xs.eraseIdx r).getD i 0 = xs.getD (rowBefore r i) 0 := by
  simp only [rowBefore, List.getD_eq_getElem?_getD, List.getElem?_eraseIdx]
  split <;> rfl

theorem rhs_eraseRow {t : Tableau ℚ} {r i : Nat} (hr : r < t.rows) (hi : i < t.rows - 1)
    (hcols : 0 < t.cols) : (t.eraseRow r).rhs i = t.rhs (rowBefore r i) := by
  rw [rhs, cols_eraseRow, entry_eraseRow hr hi (by omega)]
  rfl

theorem rowSum_eraseRow {t : Tableau ℚ} {r i : Nat} (hr : r < t.rows) (hi : i < t.rows - 1)
    (v : Nat → ℚ) : (t.eraseRow r).rowSum v i = t.rowSum v (rowBefore r i) := by
  rw [rowSum, rowSum, cols_eraseRow]
  refine Finset.sum_congr rfl fun j hj => ?_
  have hj' : j < t.cols - 1 := Finset.mem_range.1 hj
  rw [entry_eraseRow hr hi (by omega)]
  rfl

/-- **Erasing a row** keeps the equations of the other rows. -/
theorem solves_eraseRow {t : Tableau ℚ} {r : Nat} (hr : r < t.rows) (hcols : 0 < t.cols)
    (v : Nat → ℚ) :
    (t.eraseRow r).Solves v ↔ ∀ k < t.rows, k ≠ r → t.rowSum v k = t.rhs k := by
  constructor
  · intro h k hk hkr
    obtain ⟨i, hi, rfl⟩ := exists_rowBefore hk hkr hr
    rw [← rowSum_eraseRow hr hi, ← rhs_eraseRow hr hi hcols]
    exact h i (by rw [rows_eraseRow hr]; exact hi)
  · intro h i hi
    rw [rows_eraseRow hr] at hi
    rw [rowSum_eraseRow hr hi, rhs_eraseRow hr hi hcols]
    exact h _ (rowBefore_lt hi) (rowBefore_ne r i)

/-! ### Dropping columns -/

/-- The table of the first `n` columns and the right-hand side. -/
def dropColumns (t : Tableau ℚ) (n : Nat) : Tableau ℚ :=
  (t.columnsBetween 0 n).appendColumn (t.column (t.cols - 1))

@[simp] theorem rows_dropColumns (t : Tableau ℚ) (n : Nat) : (t.dropColumns n).rows = t.rows := rfl

@[simp] theorem cols_dropColumns (t : Tableau ℚ) (n : Nat) : (t.dropColumns n).cols = n + 1 := rfl

theorem entry_dropColumns (t : Tableau ℚ) {n i j : Nat} (hi : i < t.rows) (hj : j < n) :
    (t.dropColumns n).entry i j = t.entry i j := by
  have hlt : j < (t.columnsBetween 0 n).cols := by simpa using hj
  rw [dropColumns, entry_appendColumn (t.columnsBetween 0 n) _ hi (by omega), if_pos hlt,
    entry_columnsBetween t hi (by simpa using hj), Nat.zero_add]

theorem rhs_dropColumns (t : Tableau ℚ) {n i : Nat} (hi : i < t.rows) :
    (t.dropColumns n).rhs i = t.rhs i := by
  rw [rhs, cols_dropColumns, Nat.add_sub_cancel, dropColumns,
    entry_appendColumn (t.columnsBetween 0 n) _ hi (by simp), if_neg (by simp)]
  simp [column, hi, rhs]

/-- **Dropping columns** keeps the solutions in which the dropped columns are zero. -/
theorem solves_dropColumns (t : Tableau ℚ) {n : Nat} (hn : n ≤ t.cols - 1) (v : Nat → ℚ) :
    (t.dropColumns n).Solves v ↔ t.Solves (upTo n v) := by
  refine forall₂_congr fun i hi => ?_
  rw [rhs_dropColumns t hi, rowSum, rowSum, sum_mul_upTo hn, cols_dropColumns, Nat.add_sub_cancel]
  rw [Finset.sum_congr rfl fun j hj => by rw [entry_dropColumns t hi (Finset.mem_range.1 hj)]]

end Tableau

end SimplexMethod
