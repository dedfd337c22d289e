import SimplexMethod.Proofs.CanonicalStates
import SimplexMethod.Proofs.Simulation

/-!
# SimplexMethod.Proofs.Widening

**A table beside a wider one.** `State.Widens gap s w` says that state `w` is state `s` with columns
and rows added that play no part: one column is put in at `gap` and others may follow after the last
one, rows may follow after the last one, the added columns are zero in the rows of `s`, and the
added rows are zero in the columns of `s` and on the right-hand side. What the added columns hold in
the added rows is left open.

Column `j` of `s` is column `Tableau.rowBefore gap j` of `w`: a place put in shifts the columns
after it in the way an erased row shifts the rows.

An exchange in the columns of `s` leaves the added rows and columns alone, so it can be made in both
(`Widens.exists_exchange`). That a pass over `w` never wants another one (`Widens.verdict_eq`) rests
on the reduced costs of the added columns, which must not improve the objective, and on the
tolerance, which is not negative, so that the zeros of the added rows limit nothing.
-/

namespace SimplexMethod

/-! ### Entries of whole tables

Outside a table entries are zero, which is also what the operations make of zeros. -/

namespace Tableau

variable {t : Tableau ℚ}

/-- The rows that are left inside and outside the table. -/
theorem entry_eraseRow_rowBefore {r : Nat} (hr : r < t.rows) (i j : Nat) :
    (t.eraseRow r).entry i j = t.entry (rowBefore r i) j := by
  by_cases hij : i < t.rows - 1 ∧ j < t.cols
  · exact entry_eraseRow hr hij.1 hij.2
  · have hrows := rows_eraseRow hr
    have hcols := cols_eraseRow t r
    rw [entry_of_not_lt (by omega), entry_of_not_lt]
    intro hinside
    unfold rowBefore at hinside
    split at hinside <;> omega

theorem rhs_eraseRow_rowBefore {r : Nat} (hr : r < t.rows) (i : Nat) :
    (t.eraseRow r).rhs i = t.rhs (rowBefore r i) := by
  rw [rhs, rhs, cols_eraseRow, entry_eraseRow_rowBefore hr]

/-- Rows outside the table have no right-hand side. -/
theorem rhs_of_le {i : Nat} (hi : t.rows ≤ i) : t.rhs i = 0 := entry_of_not_lt (by omega)

theorem entry_of_le {i : Nat} (hi : t.rows ≤ i) (j : Nat) : t.entry i j = 0 :=
  entry_of_not_lt (by omega)

/-- Columns after a place put in keep their order. -/
theorem rowBefore_lt_rowBefore {gap j k : Nat} : rowBefore gap j < rowBefore gap k ↔ j < k := by
  unfold rowBefore
  split <;> split <;> omega

end Tableau

namespace State

open Tableau (rowBefore)

/-! ### Writing down a right-hand side -/

theorem entry_withRhs (s : State ℚ) (row : Nat) (x : ℚ) {i j : Nat} (hj : j < s.objective.length) :
    (s.withRhs row x).tableau.entry i j = s.tableau.entry i j := by
  have hcols := s.cols_tableau
  by_cases hi : i < s.tableau.rows
  · exact (Tableau.entry_set s.tableau row _ x hi (by omega)).trans (if_neg (by omega))
  · rw [Tableau.entry_of_le (not_lt.1 hi)]
    exact Tableau.entry_of_le (t := (s.withRhs row x).tableau) (not_lt.1 hi) j

theorem rhs_withRhs {s : State ℚ} {row : Nat} (hrow : row < s.tableau.rows) (x : ℚ) (i : Nat) :
    (s.withRhs row x).rhs i = if i = row then x else s.rhs i := by
  by_cases hi : i < s.tableau.rows
  · refine (Tableau.entry_set s.tableau row _ x hi (Nat.sub_one_lt s.cols_pos.ne')).trans ?_
    exact if_congr (and_iff_left rfl) rfl rfl
  · rw [if_neg (by omega), State.rhs, State.rhs, Tableau.rhs_of_le (not_lt.1 hi)]
    exact Tableau.rhs_of_le (not_lt.1 hi)

/-! ### Two states -/

/-- The columns of the wide state that the narrow one does not have. -/
def Added (gap : Nat) (s : State ℚ) (j : Nat) : Prop := j = gap ∨ s.objective.length < j

/-- State `w` is state `s` with idle rows and columns added. -/
structure Widens (gap : Nat) (s w : State ℚ) : Prop where
  canonical : s.Canonical
  canonical_wide : w.Canonical
  iterations : w.iterations = s.iterations
  gap_le : gap ≤ s.objective.length
  length_lt : s.objective.length < w.objective.length
  rows_le : s.tableau.rows ≤ w.tableau.rows
  cost : ∀ j < s.objective.length, w.objective.getD (rowBefore gap j) 0 = s.objective.getD j 0
  basis : ∀ i < s.tableau.rows, w.basis.getD i 0 = rowBefore gap (s.basis.getD i 0)
  entry : ∀ i, ∀ j < s.objective.length,
    w.tableau.entry i (rowBefore gap j) = s.tableau.entry i j
  rhs : ∀ i, w.rhs i = s.rhs i
  idle : ∀ i < s.tableau.rows, ∀ j, Added gap s j → j < w.objective.length →
    w.tableau.entry i j = 0

namespace Widens

variable {gap : Nat} {s w : State ℚ}

theorem gap_lt (h : Widens gap s w) : gap < w.objective.length := h.gap_le.trans_lt h.length_lt

theorem tableau_rhs (h : Widens gap s w) (i : Nat) : w.tableau.rhs i = s.tableau.rhs i := h.rhs i

/-- The columns before the place put in keep their numbers. -/
theorem entry_of_lt (h : Widens gap s w) (i : Nat) {j : Nat} (hj : j < gap) :
    w.tableau.entry i j = s.tableau.entry i j := by
  have hentry := h.entry i j (hj.trans_le h.gap_le)
  rwa [Tableau.rowBefore_of_lt hj] at hentry

/-- An entry that can be exchanged at is one in both states. -/
theorem entry_ne_zero (h : Widens gap s w) {row col : Nat} (hcol : col < s.objective.length)
    (hpivot : s.tableau.entry row col ≠ 0) : w.tableau.entry row (rowBefore gap col) ≠ 0 := by
  rw [h.entry row col hcol]
  exact hpivot

theorem rowBefore_lt_length (h : Widens gap s w) {j : Nat} (hj : j < s.objective.length) :
    rowBefore gap j < w.objective.length := by
  have hlt := h.length_lt
  unfold rowBefore
  split <;> omega

/-- A column of the wide state is one of the narrow state or an added one. -/
theorem column_cases (h : Widens gap s w) (k : Nat) :
    (∃ j < s.objective.length, rowBefore gap j = k) ∨ Added gap s k := by
  have hgap := h.gap_le
  unfold Added
  rcases lt_trichotomy k gap with hlt | rfl | hgt
  · exact Or.inl ⟨k, by omega, Tableau.rowBefore_of_lt hlt⟩
  · exact Or.inr (Or.inl rfl)
  · by_cases hk : k ≤ s.objective.length
    · refine Or.inl ⟨k - 1, by omega, ?_⟩
      rw [Tableau.rowBefore_of_le (by omega), Nat.sub_add_cancel (by omega)]
    · exact Or.inr (Or.inr (by omega))

/-- What is zero in the added rows is added up over the rows of the narrow state. -/
theorem sum_rows (h : Widens gap s w) {f : Nat → ℚ} (hf : ∀ i, s.tableau.rows ≤ i → f i = 0) :
    ∑ i ∈ Finset.range w.tableau.rows, f i = ∑ i ∈ Finset.range s.tableau.rows, f i := by
  refine (Finset.sum_subset (Finset.range_subset_range.2 h.rows_le) fun i _ hi => ?_).symm
  exact hf i (not_lt.1 fun hlt => hi (Finset.mem_range.2 hlt))

theorem basicCost_eq (h : Widens gap s w) {i : Nat} (hi : i < s.tableau.rows) :
    w.basicCost i = s.basicCost i := by
  rw [basicCost, h.basis i hi, h.cost _ (s.basis_getD_lt hi), basicCost]

theorem reducedCost_eq (h : Widens gap s w) {j : Nat} (hj : j < s.objective.length) :
    w.reducedCost (rowBefore gap j) = s.reducedCost j := by
  rw [reducedCost_eq_sum, reducedCost_eq_sum, h.cost j hj, h.sum_rows fun i hi => by
    rw [h.entry i j hj, Tableau.entry_of_le hi, mul_zero]]
  refine congrArg (· - _) (Finset.sum_congr rfl fun i hi => ?_)
  rw [h.basicCost_eq (Finset.mem_range.1 hi), h.entry i j hj]

theorem objectiveValue_eq (h : Widens gap s w) : w.objectiveValue = s.objectiveValue := by
  rw [objectiveValue_eq_sum, objectiveValue_eq_sum, h.sum_rows fun i hi => by
    rw [h.rhs, State.rhs, Tableau.rhs_of_le hi, mul_zero]]
  refine Finset.sum_congr rfl fun i hi => ?_
  rw [h.basicCost_eq (Finset.mem_range.1 hi), h.rhs]

/-- The basic solutions agree in the columns of the narrow state. -/
theorem value_eq (h : Widens gap s w) (j : Nat) : w.value (rowBefore gap j) = s.value j := by
  rw [h.canonical.value_eq, h.canonical_wide.value_eq, basicAssignment, basicAssignment,
    h.sum_rows fun i hi => by rw [h.rhs, State.rhs, Tableau.rhs_of_le hi, ite_self]]
  refine Finset.sum_congr rfl fun i hi => ?_
  rw [h.basis i (Finset.mem_range.1 hi), h.rhs]
  exact if_congr Tableau.rowBefore_inj rfl rfl

/-- An added column that the narrow state has no place for is zero at the basic solution. -/
theorem value_gap (h : Widens gap s w) : w.value gap = 0 := by
  rw [h.canonical_wide.value_eq, basicAssignment,
    h.sum_rows fun i hi => by rw [h.rhs, State.rhs, Tableau.rhs_of_le hi, ite_self]]
  refine Finset.sum_eq_zero fun i hi => if_neg ?_
  rw [h.basis i (Finset.mem_range.1 hi)]
  exact Tableau.rowBefore_ne gap _

/-! ### Verdicts -/

section Verdict

variable {settings : Settings ℚ} {sign tolerance : ℚ}

/-- No added column improves the objective. -/
def Unpriced (gap : Nat) (sign : ℚ) (s w : State ℚ) : Prop :=
  ∀ j, Added gap s j → j < w.objective.length → 0 ≤ sign * w.reducedCost j

theorem price_eq (h : Widens gap s w) (htol : 0 ≤ tolerance) (hadded : Unpriced gap sign s w) :
    w.price sign tolerance = (s.price sign tolerance).map (rowBefore gap) := by
  cases hprice : s.price sign tolerance with
  | none =>
      rw [price_eq_none] at hprice
      refine price_eq_none.2 fun k hk => ?_
      rcases h.column_cases k with ⟨j, hj, rfl⟩ | hk'
      · rw [h.reducedCost_eq hj]
        exact hprice j hj
      · exact (neg_nonpos.2 htol).trans (hadded k hk' hk)
  | some col =>
      obtain ⟨hcol, himproves, hleast, hbefore⟩ := price_eq_some_iff.1 hprice
      -- the priced column improves the objective, which no added column does
      have hbelow : sign * s.reducedCost col < 0 := himproves.trans_le (neg_nonpos.2 htol)
      refine price_eq_some_iff.2 ⟨h.rowBefore_lt_length hcol, ?_, fun k hk => ?_, fun k hk => ?_⟩
      · rw [h.reducedCost_eq hcol]
        exact himproves
      · rw [h.reducedCost_eq hcol]
        rcases h.column_cases k with ⟨j, hj, rfl⟩ | hk'
        · rw [h.reducedCost_eq hj]
          exact hleast j hj
        · exact hbelow.le.trans (hadded k hk' hk)
      · rw [h.reducedCost_eq hcol]
        rcases h.column_cases k with ⟨j, hj, rfl⟩ | hk'
        · rw [h.reducedCost_eq hj]
          exact hbefore j (Tableau.rowBefore_lt_rowBefore.1 hk)
        · exact hbelow.trans_le (hadded k hk' (hk.trans (h.rowBefore_lt_length hcol)))

/-- **Added rows limit nothing**, since they are zero in the columns that are priced in. -/
theorem ratioTest_eq (h : Widens gap s w) (htol : 0 ≤ tolerance) {col : Nat}
    (hcol : col < s.objective.length) :
    w.tableau.ratioTest (rowBefore gap col) tolerance = s.tableau.ratioTest col tolerance := by
  have hratio : ∀ i, w.tableau.ratio (rowBefore gap col) tolerance i =
      s.tableau.ratio col tolerance i := by
    intro i
    rw [Tableau.ratio, h.entry i col hcol, h.tableau_rhs, Tableau.ratio]
  have hlimits : (List.range w.tableau.rows).filterMap (fun i =>
      (w.tableau.ratio (rowBefore gap col) tolerance i).map fun r => (i, r)) =
        (List.range s.tableau.rows).filterMap fun i =>
          (s.tableau.ratio col tolerance i).map fun r => (i, r) := by
    obtain ⟨more, hmore⟩ := Nat.exists_eq_add_of_le h.rows_le
    have hnone : ∀ i, s.tableau.ratio col tolerance (s.tableau.rows + i) = none := by
      intro i
      rw [Tableau.ratio, Tableau.entry_of_le (Nat.le_add_right _ i), if_neg (not_lt.2 htol)]
    simp only [hratio, hmore, List.range_add, List.filterMap_append, List.filterMap_map,
      Function.comp_def, hnone, Option.map_none, List.filterMap_none, List.append_nil]
  rw [Tableau.ratioTest, Tableau.ratioTest, hlimits]

/-- **The verdicts agree**, up to the numbers of columns. -/
theorem verdict_eq (h : Widens gap s w) (htol : 0 ≤ settings.tolerance)
    (hadded : Unpriced gap sign s w) :
    w.verdict settings sign = (s.verdict settings sign).mapColumn (rowBefore gap) := by
  unfold verdict
  rw [h.price_eq htol hadded, h.iterations]
  cases hprice : s.price sign settings.tolerance with
  | none => rfl
  | some col =>
      simp only [Option.map_some, h.ratioTest_eq htol (price_eq_some hprice).1]
      split
      · rfl
      · split <;> rfl

end Verdict

/-! ### Changes -/

theorem count (h : Widens gap s w) : Widens gap s.count w.count :=
  { h with iterations := congrArg (· + 1) h.iterations }

/-- **An exchange in the columns of the narrow state** is made in both states, and leaves the added
rows and columns as they are. -/
theorem exchanged (h : Widens gap s w) {row col : Nat} (hrow : row < s.tableau.rows)
    (hcol : col < s.objective.length) (hpivot : s.tableau.entry row col ≠ 0) {t u : State ℚ}
    (ht : s.Exchanged row col t) (htcanonical : t.Canonical)
    (hu : w.Exchanged row (rowBefore gap col) u) (hucanonical : u.Canonical) :
    Widens gap t u := by
  have hpivot' := h.entry_ne_zero hcol hpivot
  refine ⟨htcanonical, hucanonical, ?_, ?_, ?_, ?_, fun j hj => ?_, fun i hi => ?_,
    fun i j hj => ?_, fun i => ?_, fun i hi j hj hlt => ?_⟩
  · rw [hu.iterations, ht.iterations, h.iterations]
  · rw [ht.objective]
    exact h.gap_le
  · rw [ht.objective, hu.objective]
    exact h.length_lt
  · rw [ht.rows, hu.rows]
    exact h.rows_le
  · rw [ht.objective] at hj ⊢
    rw [hu.objective]
    exact h.cost j hj
  · rw [ht.rows] at hi
    rw [ht.basis, hu.basis, h.canonical.getD_set hi,
      h.canonical_wide.getD_set (hi.trans_le h.rows_le), h.basis i hi]
    split <;> rfl
  · rw [ht.objective] at hj
    rw [ht.tableau, hu.tableau, Tableau.entry_eliminate_exact hpivot,
      Tableau.entry_eliminate_exact hpivot']
    simp only [h.entry _ j hj, h.entry _ col hcol]
  · rw [State.rhs, State.rhs, ht.tableau, hu.tableau, Tableau.rhs_eliminate hpivot,
      Tableau.rhs_eliminate hpivot']
    simp only [h.tableau_rhs, h.entry _ col hcol]
  · rw [Added, ht.objective] at hj
    rw [ht.rows] at hi
    rw [hu.objective] at hlt
    rw [hu.tableau, Tableau.entry_eliminate_exact hpivot', h.idle row hrow j hj hlt,
      h.idle i hi j hj hlt, zero_div, mul_zero, sub_zero, ite_self]

/-- An added column has no entry in the row of the exchange, so its reduced cost stays. -/
theorem reducedCost_added (h : Widens gap s w) {row col : Nat} (hrow : row < s.tableau.rows)
    (hcol : col < s.objective.length) (hpivot : s.tableau.entry row col ≠ 0) {u : State ℚ}
    (hu : w.Exchanged row (rowBefore gap col) u) {j : Nat} (hj : Added gap s j)
    (hlt : j < w.objective.length) : u.reducedCost j = w.reducedCost j := by
  have hpivot' := h.entry_ne_zero hcol hpivot
  rw [hu.reducedCost_eq hpivot', h.idle row hrow j hj hlt, zero_div, mul_zero, sub_zero]

/-- Neither of the two exchanges fails. -/
theorem exists_exchange (h : Widens gap s w) {row col : Nat} (hrow : row < s.tableau.rows)
    (hcol : col < s.objective.length) (hpivot : s.tableau.entry row col ≠ 0) :
    ∃ t u, s.exchange row col = .ok t ∧ w.exchange row (rowBefore gap col) = .ok u ∧
      s.Exchanged row col t ∧ w.Exchanged row (rowBefore gap col) u ∧ Widens gap t u := by
  obtain ⟨t, ht, hexchanged, htcanonical⟩ := h.canonical.exists_exchange hrow hcol hpivot
  obtain ⟨u, hu, hexchanged', hucanonical⟩ :=
    h.canonical_wide.exists_exchange (hrow.trans_le h.rows_le) (h.rowBefore_lt_length hcol)
      (h.entry_ne_zero hcol hpivot)
  exact ⟨t, u, ht, hu, hexchanged, hexchanged',
    h.exchanged hrow hcol hpivot hexchanged htcanonical hexchanged' hucanonical⟩

/-- The same right-hand side is written down in both states. -/
theorem withRhs (h : Widens gap s w) {row : Nat} (hrow : row < s.tableau.rows) (x : ℚ) :
    Widens gap (s.withRhs row x) (w.withRhs row x) where
  canonical := h.canonical.setRhs row x
  canonical_wide := h.canonical_wide.setRhs row x
  iterations := h.iterations
  gap_le := h.gap_le
  length_lt := h.length_lt
  rows_le := h.rows_le
  cost := h.cost
  basis := h.basis
  entry := by
    intro i j hj
    have hj' := h.rowBefore_lt_length hj
    rw [entry_withRhs s row x hj, entry_withRhs w row x hj', h.entry i j hj]
  rhs := by
    intro i
    rw [rhs_withRhs hrow, rhs_withRhs (hrow.trans_le h.rows_le), h.rhs]
  idle := by
    intro i hi j hj hlt
    rw [entry_withRhs w row x hlt]
    exact h.idle i hi j hj hlt

/-- The same row is erased in both states. -/
theorem eraseRow (h : Widens gap s w) {row : Nat} (hrow : row < s.tableau.rows) :
    Widens gap (s.eraseRow row) (w.eraseRow row) := by
  have hrow' := hrow.trans_le h.rows_le
  have hrows := rows_eraseRow hrow
  refine ⟨h.canonical.eraseRow hrow, h.canonical_wide.eraseRow hrow', h.iterations, h.gap_le,
    h.length_lt, ?_, h.cost, fun i hi => ?_, fun i j hj => ?_, fun i => ?_,
    fun i hi j hj hlt => ?_⟩
  · rw [hrows, rows_eraseRow hrow']
    exact Nat.sub_le_sub_right h.rows_le 1
  · rw [hrows] at hi
    rw [getD_basis_eraseRow, getD_basis_eraseRow]
    exact h.basis _ (Tableau.rowBefore_lt hi)
  · exact (Tableau.entry_eraseRow_rowBefore hrow' i _).trans
      ((h.entry _ j hj).trans (Tableau.entry_eraseRow_rowBefore hrow i j).symm)
  · exact (Tableau.rhs_eraseRow_rowBefore hrow' i).trans
      ((h.rhs _).trans (Tableau.rhs_eraseRow_rowBefore hrow i).symm)
  · rw [hrows] at hi
    exact (Tableau.entry_eraseRow_rowBefore hrow' i j).trans
      (h.idle _ (Tableau.rowBefore_lt hi) j hj hlt)

/-! ### Passes -/

section Passes

variable {settings : Settings ℚ} {sign : ℚ} {price : Nat → ℚ} {Q : State ℚ → State ℚ → Prop}

/-- The added columns have the given reduced costs. -/
def AddedCosts (gap : Nat) (price : Nat → ℚ) (s w : State ℚ) : Prop :=
  ∀ j, Added gap s j → j < w.objective.length → w.reducedCost j = price j

/-- **Passes over a narrow and a wide state go the same way**, if the added columns do not improve
the objective to begin with. Whatever else the exchanges keep can be carried along. -/
theorem simulation (gap : Nat) (htol : 0 ≤ settings.tolerance) (hprice : ∀ j, 0 ≤ sign * price j)
    (hkeep : ∀ {s w t u row col}, Widens gap s w → Q s w → row < s.tableau.rows →
      col < s.objective.length → s.tableau.entry row col ≠ 0 → s.Exchanged row col t →
      w.Exchanged row (rowBefore gap col) u → Q t.count u.count) :
    Simulation settings sign (rowBefore gap) fun s w =>
      Widens gap s w ∧ AddedCosts gap price s w ∧ Q s w where
  iterations h := h.1.iterations
  verdict := by
    rintro s w ⟨h, hcosts, -⟩
    refine h.verdict_eq htol fun j hj hlt => ?_
    rw [hcosts j hj hlt]
    exact hprice j
  exchange := by
    rintro s w row col ⟨h, hcosts, hQ⟩ hverdict
    obtain ⟨hrow, hcol, hpivot⟩ := of_verdict_exchange htol hverdict
    obtain ⟨t, u, ht, hu, hexchanged, hexchanged', hnext⟩ := h.exists_exchange hrow hcol hpivot
    rw [ht, hu]
    refine .ok ⟨hnext.count, fun j hj hlt => ?_,
      hkeep h hQ hrow hcol hpivot hexchanged hexchanged'⟩
    have hj' : Added gap s j := by
      rw [Added, ← hexchanged.objective]
      exact hj
    have hlt' : j < w.objective.length := by
      rw [← hexchanged'.objective]
      exact hlt
    rw [← hcosts j hj' hlt']
    exact h.reducedCost_added hrow hcol hpivot hexchanged' hj' hlt'

end Passes

end Widens

end State

end SimplexMethod
