/-!
# SimplexMethod.Fault

**The ways in which a request can be meaningless.** Operations on tableaux and on simplex states
have preconditions: a row exists, a list has the right length. A call that breaks one gets no result
but a `Fault`, which names the precondition and the numbers that broke it. Nothing is changed by
such a call, since values are never modified in place.

Three faults have no text of their own: the reading of a list past its end, the overflow of an
iteration counter, and a table too large to be made. They stand for requests that no precondition of
the interface describes.
-/

namespace SimplexMethod

/-- A broken precondition. Rows and columns are counted from 0. -/
inductive Fault where
  /-- A row of a table has not as many entries as the first one. -/
  | raggedRow (row found expected : Nat)
  /-- A coordinate counted from 1 is 0. -/
  | zeroCoordinate
  /-- A cell outside a `rows` by `cols` table. -/
  | cellOutside (row col rows cols : Nat)
  /-- A row outside a table of `rows` rows. -/
  | rowOutside (row rows : Nat)
  /-- A column outside a table of `cols` columns. -/
  | columnOutside (col cols : Nat)
  /-- A row is to be subtracted from itself. -/
  | sameRow
  /-- One of the two rows of a row subtraction is outside the table. -/
  | rowPairOutside
  /-- A range of columns that ends after the last column. -/
  | rangeOutside (start stop cols : Nat)
  /-- A new column has not one entry per row. -/
  | columnLength
  /-- The costs do not cover the columns left of the right-hand side. -/
  | objectiveLength
  /-- The basis has not one column per row. -/
  | basisLength
  /-- An entry past the end of a list: a range of columns that ends before it starts, or a basic
  column without a cost. -/
  | indexPastEnd
  /-- An iteration counter has no next value. -/
  | counterOverflow
  /-- A table of more rows or columns than can be counted, or of more cells than an array can
  have. -/
  | noRoom
  deriving DecidableEq, Repr

/-- The text of a fault, if it has one. -/
def Fault.message : Fault → Option String
  | .raggedRow row found expected => some s!"row {row} has {found} columns, expected {expected}"
  | .zeroCoordinate => some "matrix coordinates are 1-based"
  | .cellOutside row col rows cols =>
    some s!"index ({row}, {col}) out of bounds for {rows}x{cols} matrix"
  | .rowOutside row rows => some s!"row {row} out of bounds ({rows} rows)"
  | .columnOutside col cols => some s!"column {col} out of bounds ({cols} columns)"
  | .sameRow => some "cannot subtract a row from itself"
  | .rowPairOutside => some "row out of bounds"
  | .rangeOutside start stop cols =>
    some s!"column range {start}..{stop} out of bounds ({cols} columns)"
  | .columnLength => some "column length must match row count"
  | .objectiveLength => some "objective must cover every non-RHS column"
  | .basisLength => some "one basic column per row"
  | .indexPastEnd => none
  | .counterOverflow => none
  | .noRoom => none

/-- Two requests in a row have a result exactly if each of them has. -/
theorem Fault.bind_eq_ok {α β : Type} {x : Except Fault α} {f : α → Except Fault β} {b : β} :
    (x >>= f) = .ok b ↔ ∃ a, x = .ok a ∧ f a = .ok b := by
  cases x with
  | error e => exact ⟨nofun, fun ⟨_, hx, _⟩ => nomatch hx⟩
  | ok a => exact ⟨fun h => ⟨a, rfl, h⟩, fun ⟨_, hx, hf⟩ => Except.ok.inj hx ▸ hf⟩

/-- Two requests in a row fail with the first one, or with the second one after it. -/
theorem Fault.bind_eq_error {α β : Type} {x : Except Fault α} {f : α → Except Fault β}
    {fault : Fault} :
    (x >>= f) = .error fault ↔ x = .error fault ∨ ∃ a, x = .ok a ∧ f a = .error fault := by
  cases x with
  | error e =>
    constructor
    · intro h
      cases h
      exact Or.inl rfl
    · rintro (h | ⟨_, hx, -⟩)
      · cases h
        rfl
      · cases hx
  | ok a =>
    constructor
    · exact fun h => Or.inr ⟨a, rfl, h⟩
    · rintro (h | ⟨_, hx, hf⟩)
      · cases h
      · cases hx
        exact hf

end SimplexMethod
