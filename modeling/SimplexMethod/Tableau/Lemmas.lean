import SimplexMethod.Tableau.Basic

/-!
# SimplexMethod.Tableau.Lemmas

**What each table operation does to the entries.** For every operation there is its shape and one
lemma `entry_…`, and `Tableau.ext_entry` says that shape and entries are all there is. After these,
no proof needs to look at the array of cells.
-/

namespace SimplexMethod.Tableau

variable {K : Type}

/-! ### The two ways to build a table -/

@[simp] theorem rows_ofFn (rows cols : Nat) (f : Nat → Nat → K) :
    (ofFn rows cols f).rows = rows := rfl

@[simp] theorem cols_ofFn (rows cols : Nat) (f : Nat → Nat → K) :
    (ofFn rows cols f).cols = cols := rfl

@[simp] theorem rows_mapIdx (t : Tableau K) (f : Nat → Nat → K → K) :
    (t.mapIdx f).rows = t.rows := rfl

@[simp] theorem cols_mapIdx (t : Tableau K) (f : Nat → Nat → K → K) :
    (t.mapIdx f).cols = t.cols := rfl

@[simp] theorem rows_set (t : Tableau K) (i j : Nat) (x : K) : (t.set i j x).rows = t.rows := rfl

@[simp] theorem cols_set (t : Tableau K) (i j : Nat) (x : K) : (t.set i j x).cols = t.cols := rfl

@[simp] theorem rows_divideRow [Div K] (t : Tableau K) (i : Nat) (d : K) :
    (t.divideRow i d).rows = t.rows := rfl

@[simp] theorem cols_divideRow [Div K] (t : Tableau K) (i : Nat) (d : K) :
    (t.divideRow i d).cols = t.cols := rfl

/-- The place of a cell lies in the array. -/
theorem place_lt {i j rows cols : Nat} (hi : i < rows) (hj : j < cols) :
    i * cols + j < rows * cols := by
  calc i * cols + j < i * cols + cols := by omega
    _ = (i + 1) * cols := (Nat.succ_mul i cols).symm
    _ ≤ rows * cols := Nat.mul_le_mul_right cols hi

theorem place_div {i j cols : Nat} (hj : j < cols) : (i * cols + j) / cols = i := by
  rw [Nat.add_comm, Nat.add_mul_div_right _ _ (by omega), Nat.div_eq_of_lt hj, Nat.zero_add]

theorem place_mod {i j cols : Nat} (hj : j < cols) : (i * cols + j) % cols = j := by
  rw [Nat.add_comm, Nat.add_mul_mod_self_right, Nat.mod_eq_of_lt hj]

section Zero

variable [Zero K]

/-- Outside the table entries are zero. -/
theorem entry_of_not_lt {t : Tableau K} {i j : Nat} (h : ¬(i < t.rows ∧ j < t.cols)) :
    t.entry i j = 0 := if_neg h

/-- Inside the table the entry is the cell of its place. -/
theorem getElem?_cells {t : Tableau K} {i j : Nat} (hi : i < t.rows) (hj : j < t.cols) :
    t.cells[i * t.cols + j]? = some (t.entry i j) := by
  have hk : i * t.cols + j < t.cells.size := by rw [t.size_cells]; exact place_lt hi hj
  rw [entry, if_pos ⟨hi, hj⟩, Array.getD_eq_getD_getElem?, Array.getElem?_eq_getElem hk,
    Option.getD_some]

theorem entry_ofFn {rows cols : Nat} (f : Nat → Nat → K) {i j : Nat} (hi : i < rows)
    (hj : j < cols) : (ofFn rows cols f).entry i j = f i j := by
  have hcell := getElem?_cells (t := ofFn rows cols f) hi hj
  simp only [ofFn, Array.getElem?_ofFn, place_lt hi hj, dite_true, place_div hj,
    place_mod hj] at hcell
  exact (Option.some.inj hcell).symm

theorem entry_mapIdx (t : Tableau K) (f : Nat → Nat → K → K) {i j : Nat} (hi : i < t.rows)
    (hj : j < t.cols) : (t.mapIdx f).entry i j = f i j (t.entry i j) := by
  have hcell := getElem?_cells (t := t.mapIdx f) hi hj
  simp only [mapIdx, Array.getElem?_mapIdx, getElem?_cells hi hj, Option.map_some, place_div hj,
    place_mod hj] at hcell
  exact (Option.some.inj hcell).symm

/-- **A table is its shape and its entries.** -/
theorem ext_entry {t u : Tableau K} (hrows : t.rows = u.rows) (hcols : t.cols = u.cols)
    (h : ∀ i j, i < t.rows → j < t.cols → t.entry i j = u.entry i j) : t = u := by
  obtain ⟨rows, cols, cells, hsize⟩ := t
  obtain ⟨rows', cols', cells', hsize'⟩ := u
  obtain rfl : rows = rows' := hrows
  obtain rfl : cols = cols' := hcols
  have hcells : cells = cells' := by
    apply Array.ext (by rw [hsize, hsize'])
    intro k hk hk'
    have hpos : 0 < cols := by
      rcases Nat.eq_zero_or_pos cols with h0 | h0
      · rw [hsize, h0, Nat.mul_zero] at hk
        omega
      · exact h0
    have hi : k / cols < rows := Nat.div_lt_of_lt_mul (by rw [Nat.mul_comm]; omega)
    have hj : k % cols < cols := Nat.mod_lt _ hpos
    have hkeq : k / cols * cols + k % cols = k := by rw [Nat.mul_comm]; exact Nat.div_add_mod k cols
    have hentry := h (k / cols) (k % cols) hi hj
    have hcell := getElem?_cells (t := ⟨rows, cols, cells, hsize⟩) hi hj
    rw [hentry, ← getElem?_cells (t := ⟨rows, cols, cells', hsize'⟩) hi hj] at hcell
    simpa only [hkeq, Array.getElem?_eq_getElem hk, Array.getElem?_eq_getElem hk',
      Option.some.injEq] using hcell
  subst hcells
  rfl

/-! ### Reading -/

@[simp] theorem length_row (t : Tableau K) (i : Nat) : (t.row i).length = t.cols := by simp [row]

@[simp] theorem length_column (t : Tableau K) (j : Nat) : (t.column j).length = t.rows := by
  simp [column]

@[simp] theorem length_toRows (t : Tableau K) : t.toRows.length = t.rows := by simp [toRows]

/-! ### Changing entries -/

@[simp] theorem rows_zeros (rows cols : Nat) : (zeros rows cols : Tableau K).rows = rows := rfl

@[simp] theorem cols_zeros (rows cols : Nat) : (zeros rows cols : Tableau K).cols = cols := rfl

@[simp] theorem entry_zeros (rows cols i j : Nat) :
    (zeros rows cols : Tableau K).entry i j = 0 := by
  by_cases h : i < rows ∧ j < cols
  · exact entry_ofFn _ h.1 h.2
  · exact entry_of_not_lt h

theorem entry_set (t : Tableau K) (i j : Nat) (x : K) {i' j' : Nat} (hi : i' < t.rows)
    (hj : j' < t.cols) :
    (t.set i j x).entry i' j' = if i' = i ∧ j' = j then x else t.entry i' j' :=
  entry_mapIdx t _ hi hj

theorem entry_divideRow [Div K] (t : Tableau K) (i : Nat) (d : K) {i' j : Nat} (hi : i' < t.rows)
    (hj : j < t.cols) :
    (t.divideRow i d).entry i' j = if i' = i then t.entry i' j / d else t.entry i' j :=
  entry_mapIdx t _ hi hj

@[simp] theorem rows_subtractMultiple [Sub K] [Mul K] (t : Tableau K) (target source : Nat)
    (factor : K) : (t.subtractMultiple target source factor).rows = t.rows := rfl

@[simp] theorem cols_subtractMultiple [Sub K] [Mul K] (t : Tableau K) (target source : Nat)
    (factor : K) : (t.subtractMultiple target source factor).cols = t.cols := rfl

theorem entry_subtractMultiple [Sub K] [Mul K] (t : Tableau K) (target source : Nat) (factor : K)
    {i j : Nat} (hi : i < t.rows) (hj : j < t.cols) :
    (t.subtractMultiple target source factor).entry i j =
      if i = target then t.entry i j - factor * t.entry source j else t.entry i j :=
  entry_mapIdx t _ hi hj

section Eliminate

variable [One K] [Sub K] [Mul K] [Div K] [BEq K]

@[simp] theorem rows_eliminate (t : Tableau K) (r c : Nat) : (t.eliminate r c).rows = t.rows := rfl

@[simp] theorem cols_eliminate (t : Tableau K) (r c : Nat) : (t.eliminate r c).cols = t.cols := rfl

theorem entry_eliminate (t : Tableau K) (r c : Nat) {i j : Nat} (hi : i < t.rows)
    (hj : j < t.cols) : (t.eliminate r c).entry i j =
      if j = c then if i = r then 1 else 0
      else if i = r then t.entry i j / t.entry r c
      else if t.entry i c == 0 then t.entry i j
      else t.entry i j - t.entry i c * (t.entry r j / t.entry r c) :=
  entry_mapIdx t _ hi hj

end Eliminate

/-! ### Changing the shape -/

theorem rows_eraseRow {t : Tableau K} {i : Nat} (hi : i < t.rows) :
    (t.eraseRow i).rows = t.rows - 1 := by simp [eraseRow, hi]

@[simp] theorem cols_eraseRow (t : Tableau K) (i : Nat) : (t.eraseRow i).cols = t.cols := by
  unfold eraseRow
  split <;> rfl

theorem entry_eraseRow {t : Tableau K} {i i' j : Nat} (hi : i < t.rows) (hi' : i' < t.rows - 1)
    (hj : j < t.cols) :
    (t.eraseRow i).entry i' j = t.entry (if i' < i then i' else i' + 1) j := by
  rw [eraseRow, if_pos hi]
  exact entry_ofFn _ hi' hj

@[simp] theorem rows_columnsBetween (t : Tableau K) (start stop : Nat) :
    (t.columnsBetween start stop).rows = t.rows := rfl

@[simp] theorem cols_columnsBetween (t : Tableau K) (start stop : Nat) :
    (t.columnsBetween start stop).cols = stop - start := rfl

theorem entry_columnsBetween (t : Tableau K) {start stop i j : Nat} (hi : i < t.rows)
    (hj : j < stop - start) : (t.columnsBetween start stop).entry i j = t.entry i (start + j) :=
  entry_ofFn _ hi hj

@[simp] theorem rows_appendColumn (t : Tableau K) (xs : List K) :
    (t.appendColumn xs).rows = t.rows := rfl

@[simp] theorem cols_appendColumn (t : Tableau K) (xs : List K) :
    (t.appendColumn xs).cols = t.cols + 1 := rfl

theorem entry_appendColumn (t : Tableau K) (xs : List K) {i j : Nat} (hi : i < t.rows)
    (hj : j < t.cols + 1) :
    (t.appendColumn xs).entry i j = if j < t.cols then t.entry i j else xs.getD i 0 :=
  entry_ofFn _ hi hj

@[simp] theorem rows_transpose (t : Tableau K) : t.transpose.rows = t.cols := rfl

@[simp] theorem cols_transpose (t : Tableau K) : t.transpose.cols = t.rows := rfl

@[simp] theorem entry_transpose (t : Tableau K) (i j : Nat) :
    t.transpose.entry i j = t.entry j i := by
  by_cases h : i < t.cols ∧ j < t.rows
  · exact entry_ofFn _ h.1 h.2
  · rw [entry_of_not_lt h, entry_of_not_lt fun hout => h ⟨hout.2, hout.1⟩]

end Zero

end SimplexMethod.Tableau
