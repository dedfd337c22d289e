import SimplexMethod.Proofs.Pivots

/-!
# SimplexMethod.Proofs.CostRow

**Reduced costs kept in the table.** Every state prices its columns anew from its basis. The
textbook writes the reduced costs below the table instead, as one more row with the objective value
at its end, and from then on eliminates in that row as in any other.

`State.bordered` is the table with that row. The two ways agree: an exchange in a canonical state is
one elimination step of the bordered table (`Exchanged.bordered`), hence any number of them are as
many steps, and the basis is never asked for a cost again (`Canonical.bordered_of_pivotsAt`).

A canonical basis is needed because of the repair. Were it to negate a row or record another
column, the costs would be computed from a basis that the row operations know nothing of.
-/

namespace SimplexMethod.State

variable {s t : State ℚ} {row col : Nat}

/-! ### The row of reduced costs -/

/-- The table with one more row below: the reduced costs, and the objective value below the
right-hand sides. -/
def bordered (s : State ℚ) : Tableau ℚ :=
  Tableau.ofFn (s.tableau.rows + 1) s.tableau.cols fun i j =>
    if i < s.tableau.rows then s.tableau.entry i j
    else (s.reducedCosts ++ [s.objectiveValue]).getD j 0

@[simp] theorem rows_bordered (s : State ℚ) : s.bordered.rows = s.tableau.rows + 1 := rfl

@[simp] theorem cols_bordered (s : State ℚ) : s.bordered.cols = s.tableau.cols := rfl

theorem entry_bordered (s : State ℚ) {i : Nat} (hi : i < s.tableau.rows) (j : Nat) :
    s.bordered.entry i j = s.tableau.entry i j := by
  by_cases hj : j < s.tableau.cols
  · rw [bordered, Tableau.entry_ofFn _ (by omega) hj, if_pos hi]
  · rw [Tableau.entry_of_not_lt (t := s.bordered) fun h => hj h.2,
      Tableau.entry_of_not_lt fun h => hj h.2]

/-- The last row is one formula throughout, since the right-hand side is priced at the objective
value. -/
theorem entry_bordered_last (s : State ℚ) {j : Nat} (hj : j < s.tableau.cols) :
    s.bordered.entry s.tableau.rows j = s.reducedCost j := by
  rw [bordered, Tableau.entry_ofFn _ (Nat.lt_succ_self _) hj, if_neg (lt_irrefl _)]
  have hcols := s.cols_tableau
  by_cases hlast : j < s.objective.length
  · simp [reducedCosts, List.getD_eq_getElem?_getD, List.getElem?_append_left, hlast]
  · obtain rfl : j = s.objective.length := by omega
    simp [reducedCosts, reducedCost_length]

/-- **An exchange is an elimination step of the bordered table.** -/
theorem Exchanged.bordered (h : s.Exchanged row col t) (hpivot : s.tableau.entry row col ≠ 0) :
    t.bordered = s.bordered.eliminate row col := by
  obtain ⟨hrow, hcol⟩ := Tableau.lt_of_entry_ne_zero hpivot
  have hcols : t.tableau.cols = s.tableau.cols := by rw [h.tableau, Tableau.cols_eliminate]
  have hpivot' : s.bordered.entry row col ≠ 0 := by rwa [s.entry_bordered hrow]
  refine Tableau.ext_entry (by simp [h.rows]) (by simp [hcols]) fun i j hi hj => ?_
  have hj' : j < s.tableau.cols := hcols ▸ hj
  rw [Tableau.entry_eliminate_exact hpivot', s.entry_bordered hrow, s.entry_bordered hrow]
  by_cases hlt : i < s.tableau.rows
  · rw [t.entry_bordered (h.rows.symm ▸ hlt), s.entry_bordered hlt, s.entry_bordered hlt,
      h.tableau, Tableau.entry_eliminate_exact hpivot]
  · have hlast : i = s.tableau.rows := by
      have hi' : i < t.tableau.rows + 1 := hi
      rw [h.rows] at hi'
      omega
    rw [if_neg (by omega), hlast, s.entry_bordered_last hj', s.entry_bordered_last hcol,
      ← h.rows, t.entry_bordered_last hj, h.reducedCost_eq hpivot]

/-! ### Pivots at given places -/

/-- Exchanges at the given places, row and column, each at an entry that is not zero, lead from `s`
to `t`. -/
inductive PivotsAt : State ℚ → List (Nat × Nat) → State ℚ → Prop where
  | nil (s : State ℚ) : PivotsAt s [] s
  | cons {s t u : State ℚ} {row col : Nat} {places : List (Nat × Nat)} :
      s.tableau.entry row col ≠ 0 → s.exchange row col = .ok t → PivotsAt t places u →
        PivotsAt s ((row, col) :: places) u

variable {places : List (Nat × Nat)}

theorem PivotsAt.pivots (h : s.PivotsAt places t) : s.Pivots t := by
  induction h with
  | nil => exact .refl
  | cons hpivot hexchange _ ih => exact .head (.exchange hpivot hexchange) ih

theorem PivotsAt.append {u : State ℚ} {more : List (Nat × Nat)} (h : s.PivotsAt places t)
    (hmore : t.PivotsAt more u) : s.PivotsAt (places ++ more) u := by
  induction h with
  | nil => exact hmore
  | cons hpivot hexchange _ ih => exact .cons hpivot hexchange (ih hmore)

/-- **Pivots are elimination steps of the bordered table**, in the same order. -/
theorem Canonical.bordered_of_pivotsAt (hs : s.Canonical) (h : s.PivotsAt places t) :
    t.bordered = places.foldl (fun table place => table.eliminate place.1 place.2) s.bordered := by
  induction h with
  | nil => rfl
  | cons hpivot hexchange _ ih =>
      obtain ⟨hexchanged, hcanonical⟩ := hs.of_pivot hpivot hexchange
      rw [ih hcanonical, hexchanged.bordered hpivot, List.foldl_cons]

/-- **Repricing is pivoting in the row of reduced costs.** However many pivots lead from a canonical
state to another, the table of the last one, with its reduced costs and its objective value below,
is what row operations alone make of that of the first. And one more pivot can be made at every
entry that is not zero and not on the right-hand side: each reduced cost loses the multiple of the
entry in the row of the pivot that clears the entering column, and so does the objective value. -/
theorem Canonical.repriced_of_pivotsAt (hs : s.Canonical) (h : s.PivotsAt places t) :
    t.bordered =
        places.foldl (fun table place => table.eliminate place.1 place.2) s.bordered ∧
      ∀ row < t.tableau.rows, ∀ col < t.tableau.cols - 1, t.tableau.entry row col ≠ 0 →
        ∃ u, t.exchange row col = .ok u ∧ s.PivotsAt (places ++ [(row, col)]) u ∧
          u.reducedCosts = (List.range t.objective.length).map (fun j =>
            t.reducedCost j -
              t.reducedCost col * t.tableau.entry row j / t.tableau.entry row col) ∧
          u.objectiveValue =
            t.objectiveValue - t.reducedCost col * t.rhs row / t.tableau.entry row col := by
  refine ⟨hs.bordered_of_pivotsAt h, fun row hrow col hcol hpivot => ?_⟩
  have hcost : col < t.objective.length := t.cols_sub_one ▸ hcol
  obtain ⟨u, hu, hexchanged, -⟩ := (hs.pivots h.pivots).1.exists_exchange hrow hcost hpivot
  refine ⟨u, hu, h.append (.cons hpivot hu (.nil u)), ?_, ?_⟩
  · rw [reducedCosts, hexchanged.objective]
    refine List.map_congr_left fun j _ => ?_
    rw [hexchanged.reducedCost_eq hpivot, mul_div_assoc]
  · rw [hexchanged.objectiveValue_eq hpivot, mul_div_assoc]

/-- Two pivots, the first at a negative entry, and a third that takes the objective value down
from `34 / 5` to `4`. -/
theorem Canonical.repriced_of_pivotsAt_three :
    let s : State ℚ := ⟨[1, 2, 0, 0], ⟨2, 5, #[1, 1, 1, 0, 4, -2, 3, 0, 1, 6], rfl⟩, [2, 3], 0, rfl,
      rfl, by decide⟩
    let t : State ℚ := ⟨[1, 2, 0, 0],
      ⟨2, 5, #[0, 1, 2 / 5, 1 / 5, 14 / 5, 1, 0, 3 / 5, -1 / 5, 6 / 5], rfl⟩, [1, 0], 0, rfl, rfl,
      by decide⟩
    s.Canonical ∧ s.PivotsAt [(1, 0), (0, 1)] t ∧
      t.bordered = (s.bordered.eliminate 1 0).eliminate 0 1 ∧ t.tableau.entry 0 3 = 1 / 5 ∧
      t.reducedCosts = [0, 0, 7 / 5, 1 / 5] ∧ t.objectiveValue = 34 / 5 ∧
      ∃ u, t.exchange 0 3 = .ok u ∧ s.PivotsAt [(1, 0), (0, 1), (0, 3)] u ∧
        u.reducedCosts = [0, -1, 1, 0] ∧ u.objectiveValue = 4 := by
  intro s t
  have hs : s.Canonical := ⟨rfl, by decide, by decide +kernel⟩
  have hfirst : s.exchange 1 0 = .ok ⟨[1, 2, 0, 0],
      ⟨2, 5, #[0, 5 / 2, 1, 1 / 2, 7, 1, -3 / 2, 0, -1 / 2, -3], rfl⟩, [2, 0], 0, rfl, rfl,
      by decide⟩ := by decide +kernel
  have hpivots : s.PivotsAt [(1, 0), (0, 1)] t :=
    .cons (by decide +kernel) hfirst
      (.cons (by decide +kernel) (show State.exchange _ 0 1 = .ok t by decide +kernel) (.nil t))
  have hentry : t.tableau.entry 0 3 = 1 / 5 := by decide +kernel
  obtain ⟨hbordered, hnext⟩ := Canonical.repriced_of_pivotsAt hs hpivots
  obtain ⟨u, hu, hpivots', hcosts, hvalue⟩ := hnext 0 (by decide) 3 (by decide)
    (by rw [hentry]; norm_num)
  refine ⟨hs, hpivots, hbordered, hentry, by decide +kernel, by decide +kernel, u, hu, hpivots',
    hcosts.trans (by decide +kernel), hvalue.trans (by decide +kernel)⟩

end SimplexMethod.State
