/-!
# SimplexMethod.Tableau.Basic

**A rectangular table of numbers**, stored row after row in one array.

The view of a tableau is `Tableau.entry`: its rows, its columns and every operation are described by
the entries, and two tableaux of one shape with the same entries are equal. Operations are total:
outside the shape an entry reads as zero and a change changes nothing. The operations that refuse
such requests are in `SimplexMethod.Tableau.Checked`.

Design points:

- **Two ways to build a table.** `ofFn` fills a new shape from a function of the coordinates and
  `mapIdx` changes entries in place; everything else is one of the two, so that one lemma on each
  (in `SimplexMethod.Tableau.Lemmas`) describes all operations.
- **One elimination step is one pass over the table** (`eliminate`). It reads the entries before the
  step only, hence does not depend on an order of rows.
-/

namespace SimplexMethod

variable {K : Type}

/-- A table of `rows` by `cols` entries. -/
structure Tableau (K : Type) where
  /-- The number of rows. -/
  rows : Nat
  /-- The number of columns. -/
  cols : Nat
  /-- The entries, row after row. -/
  cells : Array K
  /-- There is one cell for each place of the table. -/
  size_cells : cells.size = rows * cols
  deriving DecidableEq

namespace Tableau

/-! ### Building tables -/

/-- The table with entry `f i j` in row `i` and column `j`. -/
def ofFn (rows cols : Nat) (f : Nat → Nat → K) : Tableau K where
  rows := rows
  cols := cols
  cells := Array.ofFn fun k : Fin (rows * cols) => f (k / cols) (k % cols)
  size_cells := Array.size_ofFn

/-- The table with each entry changed by a function of its row, its column and itself. -/
def mapIdx (t : Tableau K) (f : Nat → Nat → K → K) : Tableau K where
  rows := t.rows
  cols := t.cols
  cells := t.cells.mapIdx fun k x => f (k / t.cols) (k % t.cols) x
  size_cells := by rw [Array.size_mapIdx, t.size_cells]

section Zero

variable [Zero K]

/-- The table of zeros. Whether there is room for it is for `zerosAt` to ask. -/
def zeros (rows cols : Nat) : Tableau K := ofFn rows cols fun _ _ => 0

/-! ### Reading -/

/-- The entry in row `i` and column `j`, zero outside the table. -/
def entry (t : Tableau K) (i j : Nat) : K :=
  if i < t.rows ∧ j < t.cols then t.cells.getD (i * t.cols + j) 0 else 0

/-- The entries of row `i`, from left to right. -/
def row (t : Tableau K) (i : Nat) : List K := (List.range t.cols).map fun j => t.entry i j

/-- The entries of column `j`, from top to bottom. -/
def column (t : Tableau K) (j : Nat) : List K := (List.range t.rows).map fun i => t.entry i j

/-- All rows, from top to bottom. -/
def toRows (t : Tableau K) : List (List K) := (List.range t.rows).map t.row

/-- The entry of row `i` in the last column, where a simplex tableau keeps its right-hand side. -/
def rhs (t : Tableau K) (i : Nat) : K := t.entry i (t.cols - 1)

/-! ### Changing entries -/

/-- The table with `x` in row `i` and column `j`. -/
def set (t : Tableau K) (i j : Nat) (x : K) : Tableau K :=
  t.mapIdx fun i' j' y => if i' = i ∧ j' = j then x else y

/-- The table with every entry of row `i` divided by `d`. -/
def divideRow [Div K] (t : Tableau K) (i : Nat) (d : K) : Tableau K :=
  t.mapIdx fun i' _ x => if i' = i then x / d else x

/-- The table with `factor` times row `source` subtracted from row `target`. -/
def subtractMultiple [Sub K] [Mul K] (t : Tableau K) (target source : Nat) (factor : K) :
    Tableau K :=
  t.mapIdx fun i j x => if i = target then x - factor * t.entry source j else x

/-- One step of Gauss–Jordan elimination at row `r` and column `c`: row `r` is divided by the entry
there, and the multiple of it that clears column `c` is subtracted from every other row.

Column `c` is then written down as the unit column it should be, so that no rounding is left in it.
A row whose entry in column `c` is zero already is not touched. -/
def eliminate [One K] [Sub K] [Mul K] [Div K] [BEq K] (t : Tableau K) (r c : Nat) : Tableau K :=
  t.mapIdx fun i j x =>
    if j = c then if i = r then 1 else 0
    else if i = r then x / t.entry r c
    else if t.entry i c == 0 then x
    else x - t.entry i c * (t.entry r j / t.entry r c)

/-! ### Changing the shape -/

/-- The table without row `i`; the rows below it move up by one. -/
def eraseRow (t : Tableau K) (i : Nat) : Tableau K :=
  if i < t.rows then
    ofFn (t.rows - 1) t.cols fun i' j => t.entry (if i' < i then i' else i' + 1) j
  else t

/-- The columns from `start` up to but not including `stop`, in order. -/
def columnsBetween (t : Tableau K) (start stop : Nat) : Tableau K :=
  ofFn t.rows (stop - start) fun i j => t.entry i (start + j)

/-- The table with one more column on the right. -/
def appendColumn (t : Tableau K) (xs : List K) : Tableau K :=
  ofFn t.rows (t.cols + 1) fun i j => if j < t.cols then t.entry i j else xs.getD i 0

/-- The table with rows and columns exchanged. -/
def transpose (t : Tableau K) : Tableau K := ofFn t.cols t.rows fun i j => t.entry j i

end Zero

end Tableau

end SimplexMethod
