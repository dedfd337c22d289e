import SimplexMethod.Fault
import SimplexMethod.Tableau.Basic

/-!
# SimplexMethod.Tableau.Checked

**Table operations that refuse meaningless requests.** Each function here tests its preconditions,
in a fixed order, and either answers with the first `Fault` found or does what the total operation
of the same purpose in `SimplexMethod.Tableau.Basic` does.

Rows and columns count from 0, apart from `getCell` and `setCell`, which count from 1 as tables on
paper do.

A table that is made from nothing or grows has to have room (`HasRoom`). Nothing else is ever too
large: the other operations keep the shape, make it smaller or turn it over, and every place that
they compute is one of the cells.
-/

namespace SimplexMethod.Tableau

variable {K : Type}

/-! ### Room -/

/-- Rows and columns are counted in words of 64 bits. -/
def countLimit : Nat := UInt64.size

/-- The cells of a table are one array. An array has less than half as many bytes as a word can
count, and a number takes eight of them. -/
def cellLimit : Nat := UInt64.size / 2 / 8

/-- There is room for a table of `rows` by `cols` cells: its rows, its columns and its cells can be
counted. How much memory a machine has is not asked. -/
structure HasRoom (rows cols : Nat) : Prop where
  rows_lt : rows < countLimit
  cols_lt : cols < countLimit
  cells_lt : rows * cols < cellLimit

theorem hasRoom_iff {rows cols : Nat} :
    HasRoom rows cols ↔ rows < countLimit ∧ cols < countLimit ∧ rows * cols < cellLimit :=
  ⟨fun h => ⟨h.rows_lt, h.cols_lt, h.cells_lt⟩, fun h => ⟨h.1, h.2.1, h.2.2⟩⟩

instance (rows cols : Nat) : Decidable (HasRoom rows cols) := decidable_of_iff' _ hasRoom_iff

/-- Where there is room for a table there is room for a smaller one. -/
theorem HasRoom.mono {rows cols rows' cols' : Nat} (h : HasRoom rows cols) (hrows : rows' ≤ rows)
    (hcols : cols' ≤ cols) : HasRoom rows' cols' where
  rows_lt := Nat.lt_of_le_of_lt hrows h.rows_lt
  cols_lt := Nat.lt_of_le_of_lt hcols h.cols_lt
  cells_lt := Nat.lt_of_le_of_lt (Nat.mul_le_mul hrows hcols) h.cells_lt

theorem HasRoom.symm {rows cols : Nat} (h : HasRoom rows cols) : HasRoom cols rows where
  rows_lt := h.cols_lt
  cols_lt := h.rows_lt
  cells_lt := Nat.mul_comm rows cols ▸ h.cells_lt

/-! ### From rows -/

/-- The first row, with its position, that has not `cols` entries. -/
def firstRagged (rows : List (List K)) (cols : Nat) : Option (List K × Nat) :=
  rows.zipIdx.find? fun r => r.1.length != cols

theorem firstRagged_eq_none {rows : List (List K)} {cols : Nat} :
    firstRagged rows cols = none ↔ ∀ r ∈ rows, r.length = cols := by
  simp only [firstRagged, List.find?_eq_none, bne_iff_ne, ne_eq, Decidable.not_not]
  constructor
  · intro h r hr
    obtain ⟨i, hi⟩ := List.mem_iff_getElem?.1 hr
    exact h (r, i) (List.mem_zipIdx_iff_getElem?.2 hi)
  · intro h r hr
    exact h r.1 (List.mem_of_getElem? (List.mem_zipIdx_iff_getElem?.1 hr))

theorem length_flatten_of_firstRagged {rows : List (List K)} {cols : Nat}
    (h : firstRagged rows cols = none) : rows.flatten.length = rows.length * cols := by
  have hall := firstRagged_eq_none.1 h
  clear h
  induction rows with
  | nil => simp
  | cons r rest ih =>
    rw [List.flatten_cons, List.length_append, hall r (by simp),
      ih fun r' hr' => hall r' (by simp [hr']), List.length_cons, Nat.succ_mul, Nat.add_comm]

/-- The table with the given rows, which must be of one length. Without a row it has no column. Room
is made before the rows are looked at. -/
def ofRows (rows : List (List K)) : Except Fault (Tableau K) :=
  let cols := (rows.headD []).length
  if HasRoom rows.length cols then
    match h : firstRagged rows cols with
    | some (r, i) => .error (.raggedRow i r.length cols)
    | none => .ok ⟨rows.length, cols, rows.flatten.toArray, by
        simpa using length_flatten_of_firstRagged h⟩
  else .error .noRoom

section Zero

variable [Zero K]

/-- The table of zeros, if there is room for it. -/
def zerosAt (rows cols : Nat) : Except Fault (Tableau K) :=
  if HasRoom rows cols then .ok (.zeros rows cols) else .error .noRoom

/-! ### Cells -/

/-- The fault of a cell outside the table. -/
def cellOutside (t : Tableau K) (i j : Nat) : Fault := .cellOutside i j t.rows t.cols

/-- The entry in row `i` and column `j`. -/
def cell (t : Tableau K) (i j : Nat) : Except Fault K :=
  if i < t.rows ∧ j < t.cols then .ok (t.entry i j) else .error (t.cellOutside i j)

/-- The table with `x` in row `i` and column `j`. -/
def withCell (t : Tableau K) (i j : Nat) (x : K) : Except Fault (Tableau K) :=
  if i < t.rows ∧ j < t.cols then .ok (t.set i j x) else .error (t.cellOutside i j)

/-- The entry in row `i` and column `j`, both counted from 1. -/
def getCell (t : Tableau K) (i j : Nat) : Except Fault K :=
  if 1 ≤ i ∧ 1 ≤ j then t.cell (i - 1) (j - 1) else .error .zeroCoordinate

/-- The table with `x` in row `i` and column `j`, both counted from 1. -/
def setCell (t : Tableau K) (i j : Nat) (x : K) : Except Fault (Tableau K) :=
  if 1 ≤ i ∧ 1 ≤ j then t.withCell (i - 1) (j - 1) x else .error .zeroCoordinate

/-! ### Rows and columns -/

/-- The entries of row `i`. -/
def rowAt (t : Tableau K) (i : Nat) : Except Fault (List K) :=
  if i < t.rows then .ok (t.row i) else .error (.rowOutside i t.rows)

/-- The entries of column `j`. -/
def columnAt (t : Tableau K) (j : Nat) : Except Fault (List K) :=
  if j < t.cols then .ok (t.column j) else .error (.columnOutside j t.cols)

/-- The table with row `i` divided by `d`. -/
def divideRowAt [Div K] (t : Tableau K) (i : Nat) (d : K) : Except Fault (Tableau K) :=
  if i < t.rows then .ok (t.divideRow i d) else .error (.rowOutside i t.rows)

/-- The table with `factor` times row `source` subtracted from row `target`. That the two rows
differ is tested before they are known to exist. -/
def subtractMultipleAt [Sub K] [Mul K] (t : Tableau K) (target source : Nat) (factor : K) :
    Except Fault (Tableau K) :=
  if target = source then .error .sameRow
  else if target < t.rows ∧ source < t.rows then .ok (t.subtractMultiple target source factor)
  else .error .rowPairOutside

/-- The table without row `i`. -/
def eraseRowAt (t : Tableau K) (i : Nat) : Except Fault (Tableau K) :=
  if i < t.rows then .ok (t.eraseRow i) else .error (.rowOutside i t.rows)

/-- The columns from `start` up to but not including `stop`. A range that ends before it starts is
refused when there is a row to take it from. -/
def columnsBetweenAt (t : Tableau K) (start stop : Nat) : Except Fault (Tableau K) :=
  if t.cols < stop then .error (.rangeOutside start stop t.cols)
  else if stop < start ∧ 0 < t.rows then .error .indexPastEnd
  else .ok (t.columnsBetween start stop)

/-- The table with one more column on the right, which must have one entry per row. There must be
room for it as well. -/
def appendColumnAt (t : Tableau K) (xs : List K) : Except Fault (Tableau K) :=
  if xs.length = t.rows then
    if HasRoom t.rows (t.cols + 1) then .ok (t.appendColumn xs) else .error .noRoom
  else .error .columnLength

end Zero

end SimplexMethod.Tableau
