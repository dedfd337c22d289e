import Mathlib.Data.List.Find
import SimplexMethod.Proofs.Widening

/-!
# SimplexMethod.Proofs.IdleRow

**An idle row is expelled last and leaves no trace.** In the search for a feasible basis the wide
state has one row more than the narrow one. It holds `-1` in the column put in at `gap`, and an
artificial column, which is at zero, is basic in it (`State.Waiting`).

The artificial variables of the narrow state are expelled in the same way from both
(`Widens.exists_expelAt`), because the columns put in before them hold nothing in those rows. What
is left for the wide state is one more round, at the idle row: the column put in replaces the
artificial one, at an entry below zero, or the row is erased, if `-1` counts as zero
(`Widens.exists_expelAt_idle`). Either way the second phase begins at a wide and a narrow state
again (`Expelled.widens_handedOver`).
-/

namespace SimplexMethod

namespace Tableau

/-! ### Dropped columns inside and outside the table -/

theorem entry_dropColumns_of_lt (t : Tableau ℚ) {n i j : Nat} (hj : j < n) :
    (t.dropColumns n).entry i j = t.entry i j := by
  by_cases hi : i < t.rows
  · exact entry_dropColumns t hi hj
  · rw [entry_of_le (t := t) (not_lt.1 hi), entry_of_le (t := t.dropColumns n) (not_lt.1 hi)]

theorem rhs_dropColumns_eq (t : Tableau ℚ) (n i : Nat) : (t.dropColumns n).rhs i = t.rhs i := by
  by_cases hi : i < t.rows
  · exact rhs_dropColumns t hi
  · rw [rhs_of_le (t := t) (not_lt.1 hi), rhs_of_le (t := t.dropColumns n) (not_lt.1 hi)]

end Tableau

namespace State

open Tableau (rowBefore)

variable {gap : Nat} {s w : State ℚ} {tolerance : ℚ}

/-! ### The row that waits -/

/-- The wide state has one row more, with an artificial column in the basis and `-1` in the column
put in. -/
structure Waiting (gap : Nat) (s w : State ℚ) : Prop where
  rows : w.tableau.rows = s.tableau.rows + 1
  entry_gap : w.tableau.entry s.tableau.rows gap = -1
  basis_gt : gap < w.basis.getD s.tableau.rows 0

namespace Waiting

theorem count (h : Waiting gap s w) : Waiting gap s.count w.count :=
  ⟨h.rows, h.entry_gap, h.basis_gt⟩

/-- An exchange in the columns of the narrow state leaves the row alone. -/
theorem exchanged (h : Waiting gap s w) (hwide : Widens gap s w) {row col : Nat}
    (hrow : row < s.tableau.rows) (hcol : col < s.objective.length)
    (hpivot : s.tableau.entry row col ≠ 0) {t u : State ℚ} (ht : s.Exchanged row col t)
    (hu : w.Exchanged row (rowBefore gap col) u) : Waiting gap t u := by
  have hpivot' := hwide.entry_ne_zero hcol hpivot
  have hnone : w.tableau.entry s.tableau.rows (rowBefore gap col) = 0 := by
    rw [hwide.entry _ col hcol, Tableau.entry_of_le le_rfl]
  refine ⟨?_, ?_, ?_⟩
  · rw [hu.rows, ht.rows, h.rows]
  · rw [ht.rows, hu.tableau, Tableau.entry_eliminate_exact hpivot', if_neg hrow.ne', hnone,
      zero_mul, sub_zero, h.entry_gap]
  · rw [ht.rows, hu.basis, hwide.canonical_wide.getD_set (h.rows ▸ Nat.lt_succ_self _),
      if_neg hrow.ne']
    exact h.basis_gt

theorem withRhs (h : Waiting gap s w) (hwide : Widens gap s w) (row : Nat) (x : ℚ) :
    Waiting gap (s.withRhs row x) (w.withRhs row x) :=
  ⟨h.rows, (entry_withRhs w row x hwide.gap_lt).trans h.entry_gap, h.basis_gt⟩

/-- The row moves up when one before it is erased. -/
theorem eraseRow (h : Waiting gap s w) {row : Nat} (hrow : row < s.tableau.rows) :
    Waiting gap (s.eraseRow row) (w.eraseRow row) := by
  have hrow' : row < w.tableau.rows := h.rows ▸ Nat.lt_succ_of_lt hrow
  have hrows := rows_eraseRow hrow
  have hrows' := rows_eraseRow hrow'
  have hplace : rowBefore row (s.tableau.rows - 1) = s.tableau.rows := by
    rw [Tableau.rowBefore_of_le (by omega), Nat.sub_add_cancel (by omega)]
  have hentry : (w.eraseRow row).tableau.entry (s.tableau.rows - 1) gap =
      w.tableau.entry (rowBefore row (s.tableau.rows - 1)) gap :=
    Tableau.entry_eraseRow_rowBefore hrow' _ gap
  refine ⟨?_, ?_, ?_⟩
  · rw [hrows, hrows', h.rows]
    omega
  · rw [hrows, hentry, hplace, h.entry_gap]
  · rw [hrows, getD_basis_eraseRow, hplace]
    exact h.basis_gt

end Waiting

/-! ### Rows that both states have -/

namespace Widens

/-- The column put in holds nothing, so it replaces nothing. -/
theorem replacement_eq (h : Widens gap s w) (htol : 0 ≤ tolerance) {i : Nat}
    (hi : i < s.tableau.rows) :
    w.replacement (gap + 1) tolerance i = s.replacement gap tolerance i := by
  have hgap : w.tableau.entry i gap = 0 := h.idle i hi gap (Or.inl rfl) h.gap_lt
  have hnone : ¬tolerance < magnitude (w.tableau.entry i gap) := by
    rw [hgap, magnitude_eq_abs, abs_zero]
    exact not_lt.2 htol
  have hcommon : ∀ j ∈ List.range gap,
      decide (tolerance < magnitude (w.tableau.entry i j)) =
        decide (tolerance < magnitude (s.tableau.entry i j)) := by
    intro j hj
    rw [h.entry_of_lt i (List.mem_range.1 hj)]
  rw [replacement, replacement, List.range_succ, List.find?_append, List.find?_congr hcommon,
    List.find?_cons_of_neg (by rwa [decide_eq_true_eq]), List.find?_nil, Option.or_none]

theorem expulsion_eq (h : Widens gap s w) (htol : 0 ≤ tolerance) {i : Nat}
    (hi : i < s.tableau.rows) :
    w.expulsion (gap + 1) tolerance i = s.expulsion gap tolerance i := by
  have hbasic : w.basis.getD i 0 < gap + 1 ↔ s.basis.getD i 0 < gap := by
    rw [h.basis i hi]
    unfold rowBefore
    split <;> omega
  unfold expulsion
  rw [h.replacement_eq htol hi]
  exact if_congr hbasic rfl rfl

/-- **One round of the loop**, at a row that both states have. -/
theorem exists_expelAt (h : Widens gap s w) (hwait : Waiting gap s w) (htol : 0 ≤ tolerance)
    {i : Nat} (hi : i < s.tableau.rows) :
    ∃ next t u, s.expelAt gap tolerance i = .ok (next, t) ∧
      w.expelAt (gap + 1) tolerance i = .ok (next, u) ∧ Widens gap t u ∧ Waiting gap t u := by
  unfold expelAt
  rw [h.expulsion_eq htol hi]
  cases hexpulsion : s.expulsion gap tolerance i with
  | keep => exact ⟨i + 1, s, w, rfl, rfl, h, hwait⟩
  | exchange j =>
      obtain ⟨-, hj, hentry⟩ := expulsion_eq_exchange hexpulsion
      have hcol := hj.trans_le h.gap_le
      have hpivot : s.tableau.entry i j ≠ 0 := abs_pos.1 (htol.trans_lt hentry)
      obtain ⟨t, u, ht, hu, hexchanged, hexchanged', hnext⟩ := h.exists_exchange hi hcol hpivot
      have hwait' := hwait.exchanged h hi hcol hpivot hexchanged hexchanged'
      rw [Tableau.rowBefore_of_lt hj] at hu
      refine ⟨i + 1, t.withRhs i 0, u.withRhs i 0, ?_, ?_, ?_, hwait'.withRhs hnext i 0⟩
      · simp only [ht]
        rfl
      · simp only [hu]
        rfl
      · exact hnext.withRhs (hexchanged.rows ▸ hi) 0
  | erase =>
      exact ⟨i, s.eraseRow i, w.eraseRow i, rfl, rfl, h.eraseRow hi, hwait.eraseRow hi⟩

/-! ### The row that only the wide state has -/

/-- The column put in becomes basic in the idle row, which moves nothing else. -/
theorem exchanged_idle (h : Widens gap s w) (hwait : Waiting gap s w) {u : State ℚ}
    (hu : w.Exchanged s.tableau.rows gap u) (hucanonical : u.Canonical) : Widens gap s u := by
  have hpivot : w.tableau.entry s.tableau.rows gap ≠ 0 := by
    rw [hwait.entry_gap]
    exact neg_ne_zero.2 one_ne_zero
  refine ⟨h.canonical, hucanonical, ?_, h.gap_le, ?_, ?_, ?_, fun i hi => ?_, fun i j hj => ?_,
    fun i => ?_, fun i hi j hj hlt => ?_⟩
  · rw [hu.iterations]
    exact h.iterations
  · rw [hu.objective]
    exact h.length_lt
  · rw [hu.rows]
    exact h.rows_le
  · rw [hu.objective]
    exact h.cost
  · rw [hu.basis, h.canonical_wide.getD_set (hi.trans_le h.rows_le), if_neg hi.ne]
    exact h.basis i hi
  · have hnone := h.entry s.tableau.rows j hj
    rw [Tableau.entry_of_le le_rfl] at hnone
    rw [hu.tableau, Tableau.entry_eliminate_exact hpivot, hnone, zero_div, mul_zero, sub_zero,
      h.entry i j hj]
    split
    · next hi => rw [hi, Tableau.entry_of_le le_rfl]
    · rfl
  · rw [State.rhs, State.rhs, hu.tableau, Tableau.rhs_eliminate hpivot, h.tableau_rhs,
      h.tableau_rhs, Tableau.rhs_of_le le_rfl, zero_div, mul_zero, sub_zero]
    split
    · next hi => rw [hi, Tableau.rhs_of_le le_rfl]
    · rfl
  · rw [hu.objective] at hlt
    rw [hu.tableau, Tableau.entry_eliminate_exact hpivot, if_neg hi.ne, h.idle i hi j hj hlt,
      h.idle i hi gap (Or.inl rfl) h.gap_lt, zero_mul, sub_zero]

/-- The idle row is erased. -/
theorem erased_idle (h : Widens gap s w) (hwait : Waiting gap s w) :
    Widens gap s (w.eraseRow s.tableau.rows) := by
  have hrow : s.tableau.rows < w.tableau.rows := hwait.rows ▸ Nat.lt_succ_self _
  -- the rows after the erased one lie outside the narrow table before and after
  have hafter : ∀ {i}, ¬i < s.tableau.rows →
      s.tableau.rows ≤ rowBefore s.tableau.rows i ∧ s.tableau.rows ≤ i := by
    intro i hi
    rw [Tableau.rowBefore_of_le (not_lt.1 hi)]
    omega
  refine ⟨h.canonical, h.canonical_wide.eraseRow hrow, h.iterations, h.gap_le, h.length_lt, ?_,
    h.cost, fun i hi => ?_, fun i j hj => ?_, fun i => ?_, fun i hi j hj hlt => ?_⟩
  · rw [rows_eraseRow hrow, hwait.rows, Nat.add_sub_cancel]
  · rw [getD_basis_eraseRow, Tableau.rowBefore_of_lt hi]
    exact h.basis i hi
  · refine (Tableau.entry_eraseRow_rowBefore hrow i _).trans ((h.entry _ j hj).trans ?_)
    by_cases hi : i < s.tableau.rows
    · rw [Tableau.rowBefore_of_lt hi]
    · rw [Tableau.entry_of_le (hafter hi).1, Tableau.entry_of_le (hafter hi).2]
  · refine (Tableau.rhs_eraseRow_rowBefore hrow i).trans ((h.rhs _).trans ?_)
    by_cases hi : i < s.tableau.rows
    · rw [Tableau.rowBefore_of_lt hi]
    · rw [State.rhs, State.rhs, Tableau.rhs_of_le (hafter hi).1, Tableau.rhs_of_le (hafter hi).2]
  · refine (Tableau.entry_eraseRow_rowBefore hrow i j).trans ?_
    rw [Tableau.rowBefore_of_lt hi]
    exact h.idle i hi j hj hlt

/-- **One more round for the wide state**, at its idle row. -/
theorem exists_expelAt_idle (h : Widens gap s w) (hwait : Waiting gap s w) (htol : 0 ≤ tolerance) :
    ∃ next u, w.expelAt (gap + 1) tolerance s.tableau.rows = .ok (next, u) ∧ Widens gap s u ∧
      ∀ i, s.tableau.rows ≤ i → i < u.tableau.rows → u.basis.getD i 0 = gap := by
  have hrow : s.tableau.rows < w.tableau.rows := hwait.rows ▸ Nat.lt_succ_self _
  rcases h.canonical_wide.expelAt_cases htol hrow h.gap_lt with ⟨hbasic, -⟩ |
    ⟨j, u, -, hj, hpivot, -, hexchanged, hcanonical, hround⟩ | ⟨-, -, hround⟩
  · exact absurd hwait.basis_gt (Nat.not_lt.2 (Nat.lt_succ_iff.1 hbasic))
  · -- the row has no other entry among the columns that may replace the artificial one
    have hjgap : j = gap := by
      by_contra hne
      have hlt : j < gap := by omega
      exact hpivot (by rw [h.entry_of_lt _ hlt, Tableau.entry_of_le le_rfl])
    rw [hjgap] at hexchanged
    have hnext := h.exchanged_idle hwait hexchanged hcanonical
    have hzero : u.rhs s.tableau.rows = 0 := (hnext.rhs _).trans (Tableau.rhs_of_le le_rfl)
    rw [withRhs_self hzero] at hround
    refine ⟨_, u, hround, hnext, fun i hi hlt => ?_⟩
    have hi' : i = s.tableau.rows := by
      rw [hexchanged.rows, hwait.rows] at hlt
      omega
    rw [hi', hexchanged.basis, h.canonical_wide.getD_set hrow, if_pos rfl]
  · refine ⟨_, w.eraseRow s.tableau.rows, hround, h.erased_idle hwait, fun i hi hlt => ?_⟩
    rw [rows_eraseRow hrow, hwait.rows] at hlt
    omega

end Widens

/-! ### The loop -/

/-- No artificial column is left in the basis of either state, and in an added row the column put in
is basic. -/
structure Expelled (gap : Nat) (s w : State ℚ) : Prop where
  widens : Widens gap s w
  emptied : Emptied gap s.tableau.rows s
  emptied_wide : Emptied (gap + 1) w.tableau.rows w
  basis_idle : ∀ i, s.tableau.rows ≤ i → i < w.tableau.rows → w.basis.getD i 0 = gap

/-- **The loop goes the same way**, with one more round for the wide state. -/
theorem Widens.exists_expelArtificials (h : Widens gap s w) (hwait : Waiting gap s w)
    (htol : 0 ≤ tolerance) {i left : Nat} (hs : Emptied gap i s) (hw : Emptied (gap + 1) i w)
    (hrows : s.tableau.rows = i + left) :
    ∃ t u, s.expelArtificials gap tolerance left i = .ok t ∧
      w.expelArtificials (gap + 1) tolerance (left + 1) i = .ok u ∧ Expelled gap t u := by
  induction left generalizing i s w with
  | zero =>
      obtain ⟨next, u, hround, hnext, hidle⟩ := h.exists_expelAt_idle hwait htol
      obtain rfl : s.tableau.rows = i := hrows
      have hlast : w.tableau.rows = s.tableau.rows + (0 + 1) := hwait.rows
      obtain ⟨hdone, hrows'⟩ := hw.expelAt htol hlast hround
      rw [← Nat.add_zero next, ← hrows'] at hdone
      refine ⟨s, u, rfl, ?_, hnext, hs, hdone, hidle⟩
      unfold expelArtificials
      rw [hround]
      rfl
  | succ left ih =>
      have hi : i < s.tableau.rows := by omega
      have hrowsWide : w.tableau.rows = i + (left + 1 + 1) := by rw [hwait.rows, hrows]; rfl
      obtain ⟨next, t, u, hround, hround', hnext, hwait'⟩ := h.exists_expelAt hwait htol hi
      obtain ⟨hs', hrows'⟩ := hs.expelAt htol hrows hround
      obtain ⟨hw', -⟩ := hw.expelAt htol hrowsWide hround'
      obtain ⟨t', u', ht', hu', hend⟩ := ih hnext hwait' hs' hw' hrows'
      refine ⟨t', u', ?_, ?_, hend⟩
      · unfold expelArtificials
        rw [hround]
        exact ht'
      · unfold expelArtificials
        rw [hround']
        exact hu'

/-! ### The second phase -/

/-- The second phase begins at `t` with the columns of `s` before `first`. -/
structure HandedOver (first : Nat) (costs : List ℚ) (s t : State ℚ) : Prop where
  objective : t.objective = costs
  tableau : t.tableau = s.tableau.dropColumns first
  basis : t.basis = s.basis
  iterations : t.iterations = 0
  canonical : t.Canonical

/-- Without artificial columns in the basis the artificial columns can be dropped. -/
theorem Emptied.exists_handedOver {first : Nat} (h : Emptied first s.tableau.rows s)
    {costs : List ℚ} (hcosts : costs.length = first) :
    ∃ t, ofTableau costs (s.tableau.dropColumns first) s.basis = .ok t ∧
      HandedOver first costs s t := by
  have hbasis := h.canonical.dropColumns h.done
  obtain ⟨t, ht, hobjective, htableau, hset, hiterations⟩ :=
    exists_ofTableau (by rw [Tableau.cols_dropColumns, hcosts]) hbasis
  refine ⟨t, ht, hobjective, htableau, hset, hiterations, ?_⟩
  rw [Canonical, htableau, hset]
  exact hbasis

/-- The column put in is the last one of the wide state. -/
structure Last (gap : Nat) (s w : State ℚ) : Prop where
  length : s.objective.length = gap
  length_wide : w.objective.length = gap + 1

namespace Last

theorem count (h : Last gap s w) : Last gap s.count w.count := ⟨h.length, h.length_wide⟩

theorem exchanged (h : Last gap s w) {row col col' : Nat} {t u : State ℚ}
    (ht : s.Exchanged row col t) (hu : w.Exchanged row col' u) : Last gap t u :=
  ⟨ht.objective ▸ h.length, hu.objective ▸ h.length_wide⟩

theorem eq_of_added (h : Last gap s w) {j : Nat} (hj : Added gap s j)
    (hlt : j < w.objective.length) : j = gap := by
  rw [h.length_wide] at hlt
  rw [Added, h.length] at hj
  omega

end Last

namespace Expelled

variable {costs : List ℚ} {t u : State ℚ}

/-- Nothing is added after the last column any more. -/
theorem last_handedOver (hcosts : costs.length = gap) (ht : HandedOver gap costs s t)
    (hu : HandedOver (gap + 1) (costs ++ [0]) w u) : Last gap t u :=
  ⟨by rw [ht.objective, hcosts],
    by rw [hu.objective, List.length_append, hcosts, List.length_singleton]⟩

/-- The column put in holds nothing in the rows of the narrow state. -/
theorem entry_gap (h : Expelled gap s w) (hu : HandedOver (gap + 1) (costs ++ [0]) w u) {i : Nat}
    (hi : i < s.tableau.rows) : u.tableau.entry i gap = 0 := by
  rw [hu.tableau, Tableau.entry_dropColumns_of_lt _ (Nat.lt_succ_self gap)]
  exact h.widens.idle i hi gap (Or.inl rfl) h.widens.gap_lt

/-- **The second phase begins at a wide and a narrow state** again. -/
theorem widens_handedOver (h : Expelled gap s w) (hcosts : costs.length = gap)
    (ht : HandedOver gap costs s t) (hu : HandedOver (gap + 1) (costs ++ [0]) w u) :
    Widens gap t u := by
  have hrows : t.tableau.rows = s.tableau.rows := by rw [ht.tableau, Tableau.rows_dropColumns]
  have hlast := last_handedOver hcosts ht hu
  have hlength := hlast.length
  have hlength' := hlast.length_wide
  refine ⟨ht.canonical, hu.canonical, ?_, hlength.ge, by omega, ?_, fun j hj => ?_,
    fun i hi => ?_, fun i j hj => ?_, fun i => ?_, fun i hi j hj hlt => ?_⟩
  · rw [ht.iterations, hu.iterations]
  · rw [hrows, hu.tableau]
    exact h.widens.rows_le
  · rw [hlength] at hj
    rw [Tableau.rowBefore_of_lt hj, ht.objective, hu.objective,
      List.getD_append _ _ _ _ (hcosts.symm ▸ hj)]
  · rw [ht.basis, hu.basis]
    exact h.widens.basis i (hrows ▸ hi)
  · rw [hlength] at hj
    rw [Tableau.rowBefore_of_lt hj, ht.tableau, hu.tableau,
      Tableau.entry_dropColumns_of_lt _ (Nat.lt_succ_of_lt hj),
      Tableau.entry_dropColumns_of_lt _ hj, h.widens.entry_of_lt i hj]
  · rw [State.rhs, State.rhs, ht.tableau, hu.tableau, Tableau.rhs_dropColumns_eq,
      Tableau.rhs_dropColumns_eq]
    exact h.widens.rhs i
  · rw [hlast.eq_of_added hj hlt]
    exact h.entry_gap hu (hrows ▸ hi)

/-- The column put in has no reduced cost: it costs nothing, also in the rows that it is basic in,
and holds nothing in the others. -/
theorem addedCosts_handedOver (h : Expelled gap s w) (hcosts : costs.length = gap)
    (ht : HandedOver gap costs s t) (hu : HandedOver (gap + 1) (costs ++ [0]) w u) :
    Widens.AddedCosts gap 0 t u := by
  have hcost : u.objective.getD gap 0 = 0 := by
    rw [hu.objective, List.getD_append_right _ _ _ _ hcosts.le, hcosts, Nat.sub_self]
    rfl
  intro j hj hlt
  rw [(last_handedOver hcosts ht hu).eq_of_added hj hlt, reducedCost_eq_sum, hcost, sub_zero]
  refine Finset.sum_eq_zero fun i hi => ?_
  by_cases hrow : i < s.tableau.rows
  · rw [h.entry_gap hu hrow, mul_zero]
  · have hi' : i < w.tableau.rows := by
      rw [hu.tableau] at hi
      exact Finset.mem_range.1 hi
    rw [basicCost, hu.basis, h.basis_idle i (not_lt.1 hrow) hi', hcost, zero_mul]

end Expelled

end State

end SimplexMethod
