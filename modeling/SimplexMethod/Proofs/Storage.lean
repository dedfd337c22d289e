import Mathlib.Data.List.Basic
import Mathlib.Data.List.Flatten
import Mathlib.Data.List.GetD
import Mathlib.Data.List.OfFn
import SimplexMethod.Proofs.Grid

/-!
# SimplexMethod.Proofs.Storage

**One array, read as rows.** A table keeps its entries in one array, and where an entry is in it
depends on the number of columns. `Tableau.grid` forgets the array and keeps the rows. For every
operation there is one lemma `grid_…` that says what it makes of the rows, and these are put
together in `perform_cases`: a change that is not refused, and that there is room for, does to a
table what `Grid.after` does to the list of its rows, and every other change fails.

What is read of the table is read of the list as well (`Tableau.Stores`).
-/

namespace SimplexMethod

variable {K : Type}

namespace Tableau

/-! ### Rows of one length -/

/-- Rows are as long as the first one exactly if no two of them differ. -/
theorem exists_ragged_iff {rows : List (List K)} :
    (∃ r ∈ rows, ∃ r' ∈ rows, r.length ≠ r'.length) ↔
      firstRagged rows (rows.headD []).length ≠ none := by
  rw [Ne, firstRagged_eq_none, not_iff_not.symm, not_not]
  push Not
  constructor
  · intro h r hr
    cases rows with
    | nil => cases hr
    | cons first rest => exact h r hr first (List.mem_cons_self ..)
  · intro h r hr r' hr'
    rw [h r hr, h r' hr']

/-- Rows of different lengths make no table, and neither do more rows than there is room for. -/
theorem exists_fault_of_ragged {rows : List (List K)}
    (h : firstRagged rows (rows.headD []).length ≠ none ∨
      ¬HasRoom rows.length (rows.headD []).length) :
    ∃ fault, (ofRows rows : Except Fault (Tableau K)) = .error fault := by
  simp only [ofRows]
  split
  · next hroom =>
    split
    · exact ⟨_, rfl⟩
    · next hnone => exact absurd hnone (h.resolve_right (not_not.2 hroom))
  · exact ⟨_, rfl⟩

section Zero

variable [Zero K]

/-! ### The rows of a table -/

/-- The table as the list of its rows. -/
def grid (t : Tableau K) : Grid K := ⟨t.cols, t.toRows⟩

@[simp] theorem cols_grid (t : Tableau K) : t.grid.cols = t.cols := rfl

@[simp] theorem rows_grid (t : Tableau K) : t.grid.rows = t.toRows := rfl

theorem getElem?_toRows {t : Tableau K} {i : Nat} (hi : i < t.rows) :
    t.toRows[i]? = some (t.row i) := by
  rw [toRows, List.getElem?_map, List.getElem?_range hi, Option.map_some]

theorem getElem?_row {t : Tableau K} (i : Nat) {j : Nat} (hj : j < t.cols) :
    (t.row i)[j]? = some (t.entry i j) := by
  rw [row, List.getElem?_map, List.getElem?_range hj, Option.map_some]

theorem hasRoom_grid (t : Tableau K) : t.grid.HasRoom ↔ HasRoom t.rows t.cols := by
  rw [Grid.HasRoom, rows_grid, length_toRows, cols_grid]

theorem isRectangular_grid (t : Tableau K) : t.grid.IsRectangular := by
  intro r hr
  obtain ⟨i, -, rfl⟩ := List.mem_map.1 hr
  exact t.length_row i

/-- **The array holds the rows one after the other.** -/
theorem toList_cells (t : Tableau K) : t.cells.toList = t.toRows.flatten := by
  have hcells : t.cells.toList = List.ofFn fun k : Fin (t.rows * t.cols) =>
      t.cells.toList.get ⟨k, by simp [t.size_cells]⟩ :=
    List.ext_getElem (by simp [t.size_cells]) fun k hk hk' => by simp
  rw [hcells, List.ofFn_mul, toRows]
  congr 1
  refine List.ext_getElem (by simp) fun i hi hi' => ?_
  rw [List.getElem_ofFn, List.getElem_map, List.getElem_range]
  refine List.ext_getElem (by simp) fun j hj hj' => ?_
  have hcell := getElem?_cells (t := t) (by simpa using hi) (by simpa using hj)
  rw [Array.getElem?_eq_getElem, ← getElem?_row i (by simpa using hj),
    List.getElem?_eq_getElem hj', Option.some.injEq] at hcell
  rw [List.getElem_ofFn]
  exact hcell

/-- A table with the cells of some rows of its width has these rows. -/
theorem toRows_eq_of_cells {t : Tableau K} {rows : List (List K)} (hrows : rows.length = t.rows)
    (hcols : ∀ r ∈ rows, r.length = t.cols) (hcells : t.cells.toList = rows.flatten) :
    t.toRows = rows := by
  rw [List.eq_iff_flatten_eq, ← toList_cells, hcells, and_iff_right rfl]
  refine List.ext_getElem (by simp [hrows]) fun i hi hi' => ?_
  rw [List.getElem_map, List.getElem_map, hcols _ (List.getElem_mem _)]
  exact t.isRectangular_grid _ (List.getElem_mem _)

/-- The rows of a table in terms of its entries. -/
theorem grid_eq {u : Tableau K} {g : Grid K} (hcols : u.cols = g.cols)
    (hrows : u.rows = g.rows.length) (h : ∀ i < u.rows, g.rows[i]? = some (u.row i)) :
    u.grid = g := by
  obtain ⟨cols, rows⟩ := g
  refine congrArg₂ Grid.mk hcols (List.ext_getElem? fun i => ?_)
  by_cases hi : i < u.rows
  · rw [getElem?_toRows hi]
    exact (h i hi).symm
  · rw [List.getElem?_eq_none (by simpa using hi), List.getElem?_eq_none (by simp at hrows; omega)]

/-- A row in terms of its entries. -/
theorem row_eq {u : Tableau K} {i : Nat} {r : List K} (hlength : r.length = u.cols)
    (h : ∀ j < u.cols, r[j]? = some (u.entry i j)) : u.row i = r := by
  refine List.ext_getElem? fun j => ?_
  by_cases hj : j < u.cols
  · rw [getElem?_row i hj, h j hj]
  · rw [List.getElem?_eq_none (by simpa using hj), List.getElem?_eq_none (by omega)]

/-- A table that differs from another one in row `i` only. -/
theorem grid_eq_modifyRow {t u : Tableau K} {i : Nat} {f : List K → List K}
    (hrows : u.rows = t.rows) (hcols : u.cols = t.cols) (hrow : u.row i = f (t.row i))
    (hrest : ∀ k j, k < t.rows → j < t.cols → k ≠ i → u.entry k j = t.entry k j) :
    u.grid = t.grid.modifyRow i f := by
  refine grid_eq hcols (by simpa [Grid.modifyRow] using hrows) fun k hk => ?_
  rw [hrows] at hk
  rw [Grid.modifyRow, List.getElem?_modify, rows_grid, getElem?_toRows hk]
  by_cases hki : k = i
  · subst hki
    simp [hrow]
  · have hsame : u.row k = t.row k := by
      rw [row, row, hcols]
      exact List.map_congr_left fun j hj => hrest k j hk (List.mem_range.1 hj) hki
    simp [Ne.symm hki, hsame]

/-! ### What each operation makes of the rows -/

/-- Rows of one length make the table with these rows. -/
theorem exists_ofRows {rows : List (List K)}
    (h : firstRagged rows (rows.headD []).length = none)
    (hroom : HasRoom rows.length (rows.headD []).length) :
    ∃ u, ofRows rows = .ok u ∧ u.grid = ⟨(rows.headD []).length, rows⟩ := by
  simp only [ofRows, if_pos hroom]
  split
  · next hragged => rw [h] at hragged; cases hragged
  · refine ⟨_, rfl, congrArg (Grid.mk _) (toRows_eq_of_cells rfl ?_ (by simp))⟩
    exact firstRagged_eq_none.1 h

theorem grid_zeros (rows cols : Nat) (g : Grid K) [Sub K] [Mul K] [Div K] :
    (zeros rows cols : Tableau K).grid = g.after (.zeros rows cols) := by
  refine grid_eq rfl (by simp [Grid.after]) fun i hi => ?_
  have hi' : i < rows := hi
  simp [Grid.after, row, hi', List.map_const']

theorem grid_set {t : Tableau K} {i : Nat} (hi : i < t.rows) (j : Nat) (x : K) :
    (t.set i j x).grid = t.grid.modifyRow i (·.set j x) := by
  refine grid_eq_modifyRow rfl rfl (row_eq (by simp) fun l hl => ?_) fun k l hk hl hki => ?_
  · have hl' : l < t.cols := hl
    rw [entry_set t i j x hi hl', List.getElem?_set, getElem?_row i hl', length_row]
    by_cases hlj : l = j
    · subst hlj
      simp [hl']
    · simp [hlj, Ne.symm hlj]
  · rw [entry_set t i j x hk hl, if_neg fun h => hki h.1]

theorem grid_divideRow [Div K] {t : Tableau K} {i : Nat} (hi : i < t.rows) (d : K) :
    (t.divideRow i d).grid = t.grid.modifyRow i (·.map (· / d)) := by
  refine grid_eq_modifyRow rfl rfl ?_ fun k j hk hj hki => ?_
  · rw [row, row, List.map_map]
    refine List.map_congr_left fun j hj => ?_
    rw [entry_divideRow t i d hi (List.mem_range.1 hj), if_pos rfl]
    rfl
  · rw [entry_divideRow t i d hk hj, if_neg hki]

theorem grid_subtractMultiple [Sub K] [Mul K] {t : Tableau K} {target source : Nat}
    (htarget : target < t.rows) (hsource : source < t.rows) (factor : K) :
    (t.subtractMultiple target source factor).grid = t.grid.modifyRow target fun r =>
      r.zipWith (fun x y => x - factor * y) (t.toRows.getD source []) := by
  have hrow : t.toRows.getD source [] = t.row source := by
    rw [List.getD_eq_getElem?_getD, getElem?_toRows hsource, Option.getD_some]
  refine grid_eq_modifyRow rfl rfl ?_ fun k j hk hj hki => ?_
  · rw [hrow, row, row, row, List.zipWith_map, List.zipWith_self]
    refine List.map_congr_left fun j hj => ?_
    rw [entry_subtractMultiple t target source factor htarget (List.mem_range.1 hj), if_pos rfl]
  · rw [entry_subtractMultiple t target source factor hk hj, if_neg hki]

theorem grid_eraseRow {t : Tableau K} {i : Nat} (hi : i < t.rows) :
    (t.eraseRow i).grid = { t.grid with rows := t.toRows.eraseIdx i } := by
  have hrows := rows_eraseRow hi
  refine grid_eq (t.cols_eraseRow i) (by simp [hrows, List.length_eraseIdx, hi]) fun k hk => ?_
  rw [hrows] at hk
  have hentry := fun j => entry_eraseRow (j := j) hi hk
  by_cases hki : k < i
  · rw [List.getElem?_eraseIdx_of_lt hki, getElem?_toRows (by omega)]
    refine congrArg some (row_eq (by simp) fun j hj => ?_).symm
    rw [cols_eraseRow] at hj
    rw [hentry j hj, if_pos hki, getElem?_row k hj]
  · rw [List.getElem?_eraseIdx_of_ge (by omega), getElem?_toRows (by omega)]
    refine congrArg some (row_eq (by simp) fun j hj => ?_).symm
    rw [cols_eraseRow] at hj
    rw [hentry j hj, if_neg hki, getElem?_row (k + 1) hj]

theorem grid_columnsBetween {t : Tableau K} {start stop : Nat} (hstop : stop ≤ t.cols) :
    (t.columnsBetween start stop).grid =
      ⟨stop - start, t.toRows.map fun r => (r.take stop).drop start⟩ := by
  refine grid_eq rfl (by simp) fun i hi => ?_
  have hi' : i < t.rows := hi
  rw [List.getElem?_map, getElem?_toRows hi', Option.map_some]
  refine congrArg some (row_eq (by simp [hstop]) fun j hj => ?_).symm
  have hj' : j < stop - start := hj
  rw [entry_columnsBetween t hi' hj', List.getElem?_drop, List.getElem?_take_of_lt (by omega),
    getElem?_row i (by omega)]

theorem grid_appendColumn {t : Tableau K} {xs : List K} (hxs : xs.length = t.rows) :
    (t.appendColumn xs).grid = ⟨t.cols + 1, t.toRows.zipWith (fun r x => r ++ [x]) xs⟩ := by
  refine grid_eq rfl (by simp [hxs]) fun i hi => ?_
  have hi' : i < t.rows := hi
  have hxi : xs[i]? = some (xs.getD i 0) := by
    rw [List.getElem?_eq_getElem (by omega), List.getD_eq_getElem xs 0 (by omega)]
  rw [List.getElem?_zipWith, getElem?_toRows hi', hxi]
  refine congrArg some (row_eq (by simp) fun j hj => ?_).symm
  rw [entry_appendColumn t xs hi' hj]
  by_cases hlast : j < t.cols
  · rw [List.getElem?_append_left (by simpa using hlast), getElem?_row i hlast, if_pos hlast]
  · obtain rfl : j = t.cols := by rw [cols_appendColumn] at hj; omega
    simp

theorem column_grid (t : Tableau K) {j : Nat} (hj : j < t.cols) : t.grid.column j = t.column j := by
  rw [Grid.column, rows_grid, toRows, List.filterMap_map, column, ← List.filterMap_eq_map]
  exact List.filterMap_congr fun i _ => getElem?_row i hj

theorem grid_transpose (t : Tableau K) :
    t.transpose.grid = ⟨t.rows, (List.range t.cols).map t.grid.column⟩ := by
  refine grid_eq rfl (by simp) fun j hj => ?_
  have hj' : j < t.cols := hj
  rw [List.getElem?_map, List.getElem?_range hj', Option.map_some, column_grid t hj', row]
  simp only [entry_transpose]
  rfl

/-! ### Reading a table -/

/-- The array of a table holds the rows of a list one after the other, and whatever is read of the
table is read of the list. -/
structure Stores (t : Tableau K) (g : Grid K) : Prop where
  rows : t.rows = g.rows.length
  cols : t.cols = g.cols
  size : t.cells.size = t.rows * t.cols
  cells : t.cells.toList = g.rows.flatten
  rectangular : g.IsRectangular
  rowAt : ∀ i, (t.rowAt i).toOption = g.rows[i]?
  columnAt : ∀ j, (t.columnAt j).toOption = if j < g.cols then some (g.column j) else none
  cell : ∀ i j, (t.cell i j).toOption = g.cell? i j
  getCell : ∀ i j, (t.getCell i j).toOption =
    if 1 ≤ i ∧ 1 ≤ j then g.cell? (i - 1) (j - 1) else none

theorem cell_toOption (t : Tableau K) (i j : Nat) : (t.cell i j).toOption = t.grid.cell? i j := by
  rw [Tableau.cell, Grid.cell?, rows_grid]
  by_cases hi : i < t.rows
  · rw [getElem?_toRows hi, Option.bind_some]
    by_cases hj : j < t.cols
    · rw [if_pos ⟨hi, hj⟩, getElem?_row i hj]
      rfl
    · rw [if_neg fun h => hj h.2, List.getElem?_eq_none (by simpa using hj)]
      rfl
  · rw [if_neg fun h => hi h.1, List.getElem?_eq_none (by simpa using hi)]
    rfl

theorem stores_grid (t : Tableau K) : t.Stores t.grid where
  rows := t.length_toRows.symm
  cols := rfl
  size := t.size_cells
  cells := t.toList_cells
  rectangular := t.isRectangular_grid
  rowAt i := by
    rw [Tableau.rowAt, rows_grid]
    by_cases hi : i < t.rows
    · rw [if_pos hi, getElem?_toRows hi]
      rfl
    · rw [if_neg hi, List.getElem?_eq_none (by simpa using hi)]
      rfl
  columnAt j := by
    rw [Tableau.columnAt, cols_grid]
    by_cases hj : j < t.cols
    · rw [if_pos hj, if_pos hj, column_grid t hj]
      rfl
    · rw [if_neg hj, if_neg hj]
      rfl
  cell := t.cell_toOption
  getCell i j := by
    rw [Tableau.getCell]
    by_cases h : 1 ≤ i ∧ 1 ≤ j
    · rw [if_pos h, if_pos h]
      exact t.cell_toOption (i - 1) (j - 1)
    · rw [if_neg h, if_neg h]
      rfl

/-! ### Changes, one at a time -/

section Changes

variable [Sub K] [Mul K] [Div K]

/-- A change of a table, or the fault that it fails with. -/
def perform (t : Tableau K) : Change K → Except Fault (Tableau K)
  | .zeros rows cols => zerosAt rows cols
  | .ofRows rows => ofRows rows
  | .setCell i j x => t.setCell i j x
  | .withCell i j x => t.withCell i j x
  | .divideRow i d => t.divideRowAt i d
  | .subtractMultiple target source factor => t.subtractMultipleAt target source factor
  | .eraseRow i => t.eraseRowAt i
  | .columnsBetween start stop => t.columnsBetweenAt start stop
  | .appendColumn xs => t.appendColumnAt xs
  | .transpose => .ok t.transpose

/-- **A change does to a table what it does to its rows**, or fails because it is refused or because
there is no room. -/
theorem perform_cases (t : Tableau K) (c : Change K) :
    (∃ u, t.perform c = .ok u ∧ ¬t.grid.Refuses c ∧ ¬t.grid.LacksRoom c ∧
        u.grid = t.grid.after c) ∨
      ∃ fault, t.perform c = .error fault ∧ (t.grid.Refuses c ∨ t.grid.LacksRoom c) := by
  cases c with
  | zeros rows cols =>
      by_cases hroom : HasRoom rows cols
      · exact Or.inl ⟨_, if_pos hroom, id, not_not.2 hroom, grid_zeros rows cols t.grid⟩
      · exact Or.inr ⟨_, if_neg hroom, Or.inr hroom⟩
  | ofRows rows =>
      by_cases hfails : t.grid.Refuses (.ofRows rows) ∨ t.grid.LacksRoom (.ofRows rows)
      · obtain ⟨fault, hfault⟩ := exists_fault_of_ragged (hfails.imp_left exists_ragged_iff.1)
        exact Or.inr ⟨fault, hfault, hfails⟩
      · obtain ⟨hregular, hroom⟩ := not_or.1 hfails
        obtain ⟨u, hu, hgrid⟩ :=
          exists_ofRows (not_not.1 fun h => hregular (exists_ragged_iff.2 h)) (not_not.1 hroom)
        exact Or.inl ⟨u, hu, hregular, hroom, hgrid⟩
  | setCell i j x =>
      by_cases hpos : 1 ≤ i ∧ 1 ≤ j
      · by_cases hinside : i - 1 < t.rows ∧ j - 1 < t.cols
        · refine Or.inl ⟨_, (if_pos hpos).trans (if_pos hinside), ?_, id,
            grid_set hinside.1 (j - 1) x⟩
          simp only [Grid.Refuses, rows_grid, cols_grid, length_toRows]
          omega
        · refine Or.inr ⟨_, (if_pos hpos).trans (if_neg hinside), Or.inl ?_⟩
          simp only [Grid.Refuses, rows_grid, cols_grid, length_toRows]
          omega
      · refine Or.inr ⟨_, if_neg hpos, Or.inl ?_⟩
        simp only [Grid.Refuses]
        omega
  | withCell i j x =>
      by_cases hinside : i < t.rows ∧ j < t.cols
      · refine Or.inl ⟨_, if_pos hinside, ?_, id, grid_set hinside.1 j x⟩
        simp only [Grid.Refuses, rows_grid, cols_grid, length_toRows]
        omega
      · refine Or.inr ⟨_, if_neg hinside, Or.inl ?_⟩
        simp only [Grid.Refuses, rows_grid, cols_grid, length_toRows]
        omega
  | divideRow i d =>
      by_cases hi : i < t.rows
      · exact Or.inl ⟨_, if_pos hi, by simpa [Grid.Refuses] using hi, id, grid_divideRow hi d⟩
      · exact Or.inr ⟨_, if_neg hi, Or.inl (by simpa [Grid.Refuses] using hi)⟩
  | subtractMultiple target source factor =>
      by_cases hsame : target = source
      · exact Or.inr ⟨_, if_pos hsame, Or.inl (Or.inl hsame)⟩
      · by_cases hinside : target < t.rows ∧ source < t.rows
        · refine Or.inl ⟨_, (if_neg hsame).trans (if_pos hinside), ?_, id,
            grid_subtractMultiple hinside.1 hinside.2 factor⟩
          simp only [Grid.Refuses, rows_grid, length_toRows]
          omega
        · refine Or.inr ⟨_, (if_neg hsame).trans (if_neg hinside), Or.inl ?_⟩
          simp only [Grid.Refuses, rows_grid, length_toRows]
          omega
  | eraseRow i =>
      by_cases hi : i < t.rows
      · exact Or.inl ⟨_, if_pos hi, by simpa [Grid.Refuses] using hi, id, grid_eraseRow hi⟩
      · exact Or.inr ⟨_, if_neg hi, Or.inl (by simpa [Grid.Refuses] using hi)⟩
  | columnsBetween start stop =>
      by_cases hpast : t.cols < stop
      · exact Or.inr ⟨_, if_pos hpast, Or.inl (Or.inl hpast)⟩
      · by_cases hback : stop < start ∧ 0 < t.rows
        · exact Or.inr ⟨_, (if_neg hpast).trans (if_pos hback),
            Or.inl (Or.inr (by rwa [rows_grid, length_toRows]))⟩
        · refine Or.inl ⟨_, (if_neg hpast).trans (if_neg hback), ?_, id,
            grid_columnsBetween (not_lt.1 hpast)⟩
          simp only [Grid.Refuses, rows_grid, cols_grid, length_toRows]
          omega
  | appendColumn xs =>
      have hrows : t.grid.rows.length = t.rows := t.length_toRows
      by_cases hxs : xs.length = t.rows
      · by_cases hroom : HasRoom t.rows (t.cols + 1)
        · exact Or.inl ⟨_, (if_pos hxs).trans (if_pos hroom), not_not.2 (hxs.trans hrows.symm),
            not_not.2 (hrows.symm ▸ hroom), grid_appendColumn hxs⟩
        · exact Or.inr ⟨_, (if_pos hxs).trans (if_neg hroom), Or.inr fun h => hroom (hrows ▸ h)⟩
      · exact Or.inr ⟨_, if_neg hxs, Or.inl fun h => hxs (h.trans hrows)⟩
  | transpose =>
      refine Or.inl ⟨_, rfl, id, id, t.grid_transpose.trans ?_⟩
      rw [Grid.after, rows_grid, length_toRows]
      rfl

end Changes

end Zero

end Tableau

end SimplexMethod
