import SimplexMethod.Tableau.Lemmas

/-!
# SimplexMethod.State.Repair

**Bringing the record of the basis in line with the tableau.** A column is basic in a row if it is
that row's unit column: one in the row and zero in all others. A recorded basis may disagree with
the tableau, because a caller wrote it down so or because a row came out negated.

Row by row from the top, `Tableau.rowRepair` decides between

1. keeping the recorded column, if it is the row's unit column;
2. keeping it and negating the row, if it is a negated unit column and the right-hand side is not
   positive (so negation does not make it negative);
3. taking the rightmost unit column of the row;
4. taking the rightmost negated unit column and negating the row, under the same condition;
5. leaving all as it is.

The right-hand side is no candidate in 3 and 4.
-/

namespace SimplexMethod

variable {K : Type}

namespace Tableau

section Search

variable [Zero K] [BEq K]

/-- Whether column `j` holds `v` in row `i` and zero in every other row. -/
def isUnitAt (t : Tableau K) (i j : Nat) (v : K) : Bool :=
  t.entry i j == v && (List.range t.rows).all fun k => k == i || t.entry k j == 0

/-- The rightmost column, the right-hand side excluded, that holds `v` in row `i` and zero in every
other row. -/
def rightmostUnit (t : Tableau K) (i : Nat) (v : K) : Option Nat :=
  (List.range (t.cols - 1)).reverse.find? fun j => t.isUnitAt i j v

end Search

/-- What is done to one row: the column recorded as basic, and whether the row is negated. -/
structure RowRepair where
  column : Nat
  negated : Bool
  deriving DecidableEq, Repr

variable [Zero K] [One K] [Neg K] [Div K] [LE K] [DecidableLE K] [BEq K]

/-- The repair of row `i`, in which `recorded` is said to be basic. -/
def rowRepair (t : Tableau K) (i recorded : Nat) : RowRepair :=
  if t.isUnitAt i recorded 1 then ⟨recorded, false⟩
  else if t.isUnitAt i recorded (-1) && decide (t.rhs i ≤ 0) then ⟨recorded, true⟩
  else
    match t.rightmostUnit i 1 with
    | some j => ⟨j, false⟩
    | none =>
      match if t.rhs i ≤ 0 then t.rightmostUnit i (-1) else none with
      | some j => ⟨j, true⟩
      | none => ⟨recorded, false⟩

/-- The tableau and the basis after the repair of row `i`. -/
def repairRow (tb : Tableau K × List Nat) (i : Nat) : Tableau K × List Nat :=
  let repair := tb.1.rowRepair i (tb.2.getD i 0)
  (if repair.negated then tb.1.divideRow i (-1) else tb.1, tb.2.set i repair.column)

/-- The tableau and the basis after the repair of every row from the top. -/
def repair (t : Tableau K) (basis : List Nat) : Tableau K × List Nat :=
  (List.range t.rows).foldl repairRow (t, basis)

/-! ### What a repair keeps -/

@[simp] theorem rows_repairRow (tb : Tableau K × List Nat) (i : Nat) :
    (repairRow tb i).1.rows = tb.1.rows := by
  simp only [repairRow]
  split <;> simp

@[simp] theorem cols_repairRow (tb : Tableau K × List Nat) (i : Nat) :
    (repairRow tb i).1.cols = tb.1.cols := by
  simp only [repairRow]
  split <;> simp

@[simp] theorem length_basis_repairRow (tb : Tableau K × List Nat) (i : Nat) :
    (repairRow tb i).2.length = tb.2.length := by simp [repairRow]

/-- Repairs of any rows keep the shape of the tableau and the length of the basis. -/
theorem shape_foldl_repairRow (rows : List Nat) (tb : Tableau K × List Nat) :
    (rows.foldl repairRow tb).1.rows = tb.1.rows ∧ (rows.foldl repairRow tb).1.cols = tb.1.cols ∧
      (rows.foldl repairRow tb).2.length = tb.2.length := by
  induction rows generalizing tb with
  | nil => exact ⟨rfl, rfl, rfl⟩
  | cons i rest ih => simpa using ih (repairRow tb i)

/-- Rows that have not been looked at keep their recorded column. -/
theorem getD_foldl_repairRow (tb : Tableau K × List Nat) {k i : Nat} (hki : k ≤ i) :
    ((List.range k).foldl repairRow tb).2.getD i 0 = tb.2.getD i 0 := by
  induction k with
  | zero => rfl
  | succ k ih =>
      rw [List.range_succ, List.foldl_append, ← ih (by omega)]
      show (List.set _ k _).getD i 0 = _
      rw [List.getD_eq_getElem?_getD, List.getElem?_set_ne (by omega),
        ← List.getD_eq_getElem?_getD]

@[simp] theorem rows_repair (t : Tableau K) (basis : List Nat) : (t.repair basis).1.rows = t.rows :=
  (shape_foldl_repairRow _ (t, basis)).1

@[simp] theorem cols_repair (t : Tableau K) (basis : List Nat) : (t.repair basis).1.cols = t.cols :=
  (shape_foldl_repairRow _ (t, basis)).2.1

@[simp] theorem length_basis_repair (t : Tableau K) (basis : List Nat) :
    (t.repair basis).2.length = basis.length :=
  (shape_foldl_repairRow _ (t, basis)).2.2

/-- What the repair of one row keeps, the repair of all rows keeps. -/
theorem repair_induction {motive : Tableau K × List Nat → Prop} {t : Tableau K} {basis : List Nat}
    (start : motive (t, basis))
    (step : ∀ tb i, i < t.rows → motive tb → motive (repairRow tb i)) : motive (t.repair basis) :=
  List.foldlRecOn (List.range t.rows) repairRow start fun tb htb i hi =>
    step tb i (List.mem_range.1 hi) htb

end Tableau

end SimplexMethod
