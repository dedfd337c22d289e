import SimplexMethod.Tableau.Checked
import SimplexMethod.Tableau.Lemmas

/-!
# SimplexMethod.Proofs.Grid

**A table as the list of its rows, and the changes that can be made to it.** A `Change` is one of
the operations that write to a table or put another one in its place. `Grid.after` says on lists of
rows what each of them does, by operations on lists only and without an array of cells, and
`Grid.Refuses` says which of them make no sense.

A change that makes sense can still ask for too much. `Grid.LacksRoom` says which changes make a
table too large to be counted (`Tableau.HasRoom`), and `Grid.hasRoom_perform` that no other change
does, so that whatever grows out of a table of a possible size has a possible size.

What the changes do to the array is in `SimplexMethod.Proofs.Storage`.
-/

namespace SimplexMethod

/-! ### Changes -/

/-- A change of a table, or a table that takes its place. -/
inductive Change (K : Type) where
  /-- The table of zeros. -/
  | zeros (rows cols : Nat)
  /-- The table with the given rows. -/
  | ofRows (rows : List (List K))
  /-- An entry in row `i` and column `j`, both counted from 1. -/
  | setCell (i j : Nat) (x : K)
  /-- An entry in row `i` and column `j`. -/
  | withCell (i j : Nat) (x : K)
  /-- Row `i`, divided by `d`. -/
  | divideRow (i : Nat) (d : K)
  /-- Row `target`, less `factor` times row `source`. -/
  | subtractMultiple (target source : Nat) (factor : K)
  /-- Row `i`, taken out. -/
  | eraseRow (i : Nat)
  /-- The columns from `start` up to but not including `stop` only. -/
  | columnsBetween (start stop : Nat)
  /-- One more column on the right. -/
  | appendColumn (xs : List K)
  /-- Rows and columns, exchanged. -/
  | transpose

/-! ### Lists of rows -/

/-- A table as the list of its rows. The number of columns stands beside them, because there may be
no row to tell it. -/
structure Grid (K : Type) where
  /-- The number of columns. -/
  cols : Nat
  /-- The rows, from top to bottom. -/
  rows : List (List K)
  deriving DecidableEq

namespace Grid

variable {K : Type}

/-- All rows have one entry for each column. -/
def IsRectangular (g : Grid K) : Prop := ∀ r ∈ g.rows, r.length = g.cols

/-- The entries of column `j`, from top to bottom. -/
def column (g : Grid K) (j : Nat) : List K := g.rows.filterMap (·[j]?)

/-- The entry in row `i` and column `j`, if there is one. -/
def cell? (g : Grid K) (i j : Nat) : Option K := g.rows[i]?.bind (·[j]?)

/-- The grid with row `i` changed. -/
def modifyRow (g : Grid K) (i : Nat) (f : List K → List K) : Grid K :=
  { g with rows := g.rows.modify i f }

/-- The grid has no use for the change: it names a row, a column or a cell that is not there, rows
of different lengths, a range of columns that ends after the last one or before it starts, a column
of another length than there are rows, or one row where two are needed. A range that ends before it
starts asks nothing of a grid without rows. -/
def Refuses (g : Grid K) : Change K → Prop
  | .zeros _ _ => False
  | .ofRows rows => ∃ r ∈ rows, ∃ r' ∈ rows, r.length ≠ r'.length
  | .setCell i j _ => i = 0 ∨ j = 0 ∨ g.rows.length < i ∨ g.cols < j
  | .withCell i j _ => g.rows.length ≤ i ∨ g.cols ≤ j
  | .divideRow i _ => g.rows.length ≤ i
  | .subtractMultiple target source _ =>
      target = source ∨ g.rows.length ≤ target ∨ g.rows.length ≤ source
  | .eraseRow i => g.rows.length ≤ i
  | .columnsBetween start stop => g.cols < stop ∨ stop < start ∧ 0 < g.rows.length
  | .appendColumn xs => xs.length ≠ g.rows.length
  | .transpose => False

instance (g : Grid K) : DecidablePred g.Refuses
  | .zeros _ _ => inferInstanceAs (Decidable False)
  | .ofRows rows => inferInstanceAs (Decidable (∃ r ∈ rows, ∃ r' ∈ rows, r.length ≠ r'.length))
  | .setCell i j _ =>
      inferInstanceAs (Decidable (i = 0 ∨ j = 0 ∨ g.rows.length < i ∨ g.cols < j))
  | .withCell i j _ => inferInstanceAs (Decidable (g.rows.length ≤ i ∨ g.cols ≤ j))
  | .divideRow i _ => inferInstanceAs (Decidable (g.rows.length ≤ i))
  | .subtractMultiple target source _ => inferInstanceAs
      (Decidable (target = source ∨ g.rows.length ≤ target ∨ g.rows.length ≤ source))
  | .eraseRow i => inferInstanceAs (Decidable (g.rows.length ≤ i))
  | .columnsBetween start stop =>
      inferInstanceAs (Decidable (g.cols < stop ∨ stop < start ∧ 0 < g.rows.length))
  | .appendColumn xs => inferInstanceAs (Decidable (xs.length ≠ g.rows.length))
  | .transpose => inferInstanceAs (Decidable False)

/-- The change makes a table of more rows, columns or cells than can be counted. -/
def LacksRoom (g : Grid K) : Change K → Prop
  | .zeros rows cols => ¬Tableau.HasRoom rows cols
  | .ofRows rows => ¬Tableau.HasRoom rows.length (rows.headD []).length
  | .appendColumn _ => ¬Tableau.HasRoom g.rows.length (g.cols + 1)
  | _ => False

instance (g : Grid K) : DecidablePred g.LacksRoom
  | .zeros rows cols => inferInstanceAs (Decidable ¬Tableau.HasRoom rows cols)
  | .ofRows rows =>
      inferInstanceAs (Decidable ¬Tableau.HasRoom rows.length (rows.headD []).length)
  | .appendColumn _ => inferInstanceAs (Decidable ¬Tableau.HasRoom g.rows.length (g.cols + 1))
  | .setCell _ _ _ => inferInstanceAs (Decidable False)
  | .withCell _ _ _ => inferInstanceAs (Decidable False)
  | .divideRow _ _ => inferInstanceAs (Decidable False)
  | .subtractMultiple _ _ _ => inferInstanceAs (Decidable False)
  | .eraseRow _ => inferInstanceAs (Decidable False)
  | .columnsBetween _ _ => inferInstanceAs (Decidable False)
  | .transpose => inferInstanceAs (Decidable False)

/-- There is room for a table of this many rows and columns. -/
def HasRoom (g : Grid K) : Prop := Tableau.HasRoom g.rows.length g.cols

theorem HasRoom.modifyRow {g : Grid K} (h : g.HasRoom) (i : Nat) (f : List K → List K) :
    (g.modifyRow i f).HasRoom := by
  rw [HasRoom, Grid.modifyRow, List.length_modify]
  exact h

variable [Zero K] [Sub K] [Mul K] [Div K]

/-- What a change makes of the list of rows. -/
def after (g : Grid K) : Change K → Grid K
  | .zeros rows cols => ⟨cols, List.replicate rows (List.replicate cols 0)⟩
  | .ofRows rows => ⟨(rows.headD []).length, rows⟩
  | .setCell i j x => g.modifyRow (i - 1) (·.set (j - 1) x)
  | .withCell i j x => g.modifyRow i (·.set j x)
  | .divideRow i d => g.modifyRow i (·.map (· / d))
  | .subtractMultiple target source factor => g.modifyRow target fun r =>
      r.zipWith (fun x y => x - factor * y) (g.rows.getD source [])
  | .eraseRow i => { g with rows := g.rows.eraseIdx i }
  | .columnsBetween start stop => ⟨stop - start, g.rows.map fun r => (r.take stop).drop start⟩
  | .appendColumn xs => ⟨g.cols + 1, g.rows.zipWith (fun r x => r ++ [x]) xs⟩
  | .transpose => ⟨g.rows.length, (List.range g.cols).map g.column⟩

/-- The grid after a change, the same as before if it refuses the change or there is no room. -/
def perform (g : Grid K) (c : Change K) : Grid K :=
  if g.Refuses c ∨ g.LacksRoom c then g else g.after c

/-! ### Room -/

/-- **A change that does not lack room makes a table that there is room for.** What it makes from
nothing or adds to has been asked about, and everything else is no larger than before. -/
theorem HasRoom.after {g : Grid K} (h : g.HasRoom) {c : Change K} (hmade : ¬g.Refuses c)
    (hroom : ¬g.LacksRoom c) : (g.after c).HasRoom := by
  cases c with
  | zeros rows cols =>
      rw [HasRoom, Grid.after, List.length_replicate]
      exact Decidable.not_not.1 hroom
  | ofRows rows =>
      have hshape : Tableau.HasRoom rows.length (rows.headD []).length :=
        Decidable.not_not.1 hroom
      exact hshape
  | setCell i j x => exact h.modifyRow _ _
  | withCell i j x => exact h.modifyRow _ _
  | divideRow i d => exact h.modifyRow _ _
  | subtractMultiple target source factor => exact h.modifyRow _ _
  | eraseRow i => exact h.mono (List.length_eraseIdx_le ..) (Nat.le_refl _)
  | columnsBetween start stop =>
      have hstop : stop ≤ g.cols := Nat.not_lt.1 fun hpast => hmade (Or.inl hpast)
      rw [HasRoom, Grid.after, List.length_map]
      exact h.mono (Nat.le_refl _) (Nat.le_trans (Nat.sub_le stop start) hstop)
  | appendColumn xs =>
      have hlength : xs.length = g.rows.length := Decidable.not_not.1 hmade
      rw [HasRoom, Grid.after, List.length_zipWith, hlength, Nat.min_self]
      exact Decidable.not_not.1 hroom
  | transpose =>
      rw [HasRoom, Grid.after, List.length_map, List.length_range]
      exact h.symm

theorem hasRoom_perform {g : Grid K} (h : g.HasRoom) (c : Change K) : (g.perform c).HasRoom := by
  rw [perform]
  split
  · exact h
  · next hdone => exact h.after (fun hc => hdone (Or.inl hc)) fun hc => hdone (Or.inr hc)

/-- Whatever is made of a table that there is room for, there is room for it. -/
theorem hasRoom_foldl_perform {g : Grid K} (h : g.HasRoom) (changes : List (Change K)) :
    (changes.foldl perform g).HasRoom := by
  induction changes generalizing g with
  | nil => exact h
  | cons c rest ih => exact ih (hasRoom_perform h c)

end Grid

end SimplexMethod
