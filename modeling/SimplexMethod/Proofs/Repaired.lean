import Mathlib.Data.List.Find
import SimplexMethod.Proofs.Repair

/-!
# SimplexMethod.Proofs.Repaired

**What a repair decides, row by row.** Rows are repaired one after another, in a tableau that the
repairs of the rows above have changed already. All that those have changed is the sign of their own
rows, so row `i` is as it was given, and an entry of another row is zero if it was
(`Tableau.AgreesAt`). This is as much as a decision looks at. So every decision is the one the given
tableau calls for, which gives a repair a closed form in the number of rows done
(`Tableau.foldl_repairRow`), and the repaired tableau calls for no further repair
(`Tableau.Repaired.rowRepair_eq`).

`Tableau.Decides` spells a decision out without the searches that find it.

Nothing is assumed of the numbers but how they are divided by `-1`.
-/

namespace SimplexMethod

variable {K : Type}

/-- **Numbers that division by `-1` negates**: it turns nothing else into zero, and only minus one
into one, and what is not positive into what is not negative. This is true of exact numbers and of
floating-point numbers, where neither infinity nor a zero with a sign is an exception, and no number
at all stays none, which equals nothing. -/
class DivisionNegates (K : Type) [Zero K] [One K] [Neg K] [Div K] [LE K] [BEq K] : Prop where
  beq_zero (x : K) : (x / -1 == 0) = (x == 0)
  beq_one (x : K) : (x / -1 == 1) = (x == -1)
  nonneg {x : K} (h : x ≤ 0) : 0 ≤ x / -1

instance : DivisionNegates ℚ where
  beq_zero x := by rw [div_neg, div_one, Bool.eq_iff_iff, beq_iff_eq, beq_iff_eq, neg_eq_zero]
  beq_one x := by
    rw [div_neg, div_one, Bool.eq_iff_iff, beq_iff_eq, beq_iff_eq, neg_eq_iff_eq_neg]
  nonneg h := by rw [div_neg, div_one]; exact neg_nonneg.2 h

namespace Tableau

variable [Zero K] [BEq K]

/-! ### Isolated entries -/

section Isolated

variable {t : Tableau K} {i j : Nat} {v : K}

/-- Column `j` holds `v` in row `i` and zero in every other row. -/
structure Isolated (t : Tableau K) (i j : Nat) (v : K) : Prop where
  here : t.entry i j == v
  elsewhere : ∀ k < t.rows, k ≠ i → t.entry k j == 0

/-- Column `j` is the last one left of the right-hand side that holds `v` in row `i` and zero in
every other row. -/
structure RightmostIsolated (t : Tableau K) (i j : Nat) (v : K) : Prop where
  isolated : t.Isolated i j v
  left : j < t.cols - 1
  rightmost : ∀ k < t.cols - 1, t.Isolated i k v → k ≤ j

theorem isUnitAt_iff_isolated : t.isUnitAt i j v = true ↔ t.Isolated i j v := by
  simp only [isUnitAt, Bool.and_eq_true, List.all_eq_true, List.mem_range, Bool.or_eq_true,
    or_iff_not_imp_left, beq_iff_eq]
  exact ⟨fun h => ⟨h.1, h.2⟩, fun h => ⟨h.here, h.elsewhere⟩⟩

/-- A search through the numbers below `n` from the greatest one down. -/
theorem find?_reverse_range_eq_some {p : Nat → Bool} {n : Nat} :
    (List.range n).reverse.find? p = some j ↔ p j = true ∧ j < n ∧ ∀ k < n, p k = true → k ≤ j := by
  induction n with
  | zero => simp
  | succ n ih =>
      rw [List.range_succ, List.reverse_append, List.reverse_singleton, List.singleton_append,
        List.find?_cons]
      cases hn : p n with
      | true =>
          rw [Option.some_inj]
          refine ⟨?_, fun ⟨_, hj, hlast⟩ => ?_⟩
          · rintro rfl
            exact ⟨hn, n.lt_succ_self, fun k hk _ => Nat.le_of_lt_succ hk⟩
          · exact le_antisymm (hlast n n.lt_succ_self hn) (Nat.le_of_lt_succ hj)
      | false =>
          have hne : ∀ k, p k = true → k ≠ n := fun k hk hkn => by simp [hkn, hn] at hk
          rw [ih]
          refine and_congr_right fun hj => and_congr ?_ (forall_congr' fun k => ?_)
          · have := hne j hj
            omega
          · refine ⟨fun h hk hpk => h ?_ hpk, fun h hk hpk => h (by omega) hpk⟩
            have := hne k hpk
            omega

theorem rightmostUnit_eq_some_iff :
    t.rightmostUnit i v = some j ↔ t.RightmostIsolated i j v := by
  rw [rightmostUnit, find?_reverse_range_eq_some, isUnitAt_iff_isolated]
  simp only [isUnitAt_iff_isolated]
  exact ⟨fun ⟨h, hleft, hlast⟩ => ⟨h, hleft, hlast⟩, fun h => ⟨h.isolated, h.left, h.rightmost⟩⟩

theorem rightmostUnit_eq_none_iff :
    t.rightmostUnit i v = none ↔ ∀ j < t.cols - 1, ¬t.Isolated i j v := by
  simp only [rightmostUnit, List.find?_eq_none, List.mem_reverse, List.mem_range,
    isUnitAt_iff_isolated]

end Isolated

/-! ### Decisions -/

variable [One K] [Neg K] [LE K]

/-- What is to be done to row `i`, in which column `recorded` is said to be basic. -/
inductive Decides (t : Tableau K) (i recorded : Nat) : RowRepair → Prop
  /-- The recorded column is the row's unit column. -/
  | keep (unit : t.Isolated i recorded 1) : Decides t i recorded ⟨recorded, false⟩
  /-- It is a negated unit column, and the right-hand side allows to negate the row. -/
  | negate (stale : ¬t.Isolated i recorded 1) (unit : t.Isolated i recorded (-1))
      (rhs : t.rhs i ≤ 0) : Decides t i recorded ⟨recorded, true⟩
  /-- Another column is the row's unit column. -/
  | take {j : Nat} (stale : ¬t.Isolated i recorded 1)
      (kept : ¬(t.Isolated i recorded (-1) ∧ t.rhs i ≤ 0)) (unit : t.RightmostIsolated i j 1) :
      Decides t i recorded ⟨j, false⟩
  /-- Another column is a negated unit column, and the right-hand side allows to negate the row. -/
  | takeNegated {j : Nat} (stale : ¬t.Isolated i recorded 1)
      (kept : ¬(t.Isolated i recorded (-1) ∧ t.rhs i ≤ 0))
      (none : ∀ k < t.cols - 1, ¬t.Isolated i k 1) (unit : t.RightmostIsolated i j (-1))
      (rhs : t.rhs i ≤ 0) : Decides t i recorded ⟨j, true⟩
  /-- No column will do. -/
  | leave (stale : ¬t.Isolated i recorded 1)
      (kept : ¬(t.Isolated i recorded (-1) ∧ t.rhs i ≤ 0))
      (none : ∀ k < t.cols - 1, ¬t.Isolated i k 1)
      (noneNegated : ¬(t.rhs i ≤ 0 ∧ ∃ k < t.cols - 1, t.Isolated i k (-1))) :
      Decides t i recorded ⟨recorded, false⟩

namespace Decides

variable {t : Tableau K} {i recorded : Nat} {r : RowRepair}

theorem rhs_nonpos (h : t.Decides i recorded r) (hnegated : r.negated = true) : t.rhs i ≤ 0 := by
  cases h with
  | keep _ | take _ _ _ | leave _ _ _ _ => cases hnegated
  | negate _ _ hrhs | takeNegated _ _ _ _ hrhs => exact hrhs

theorem column_lt (h : t.Decides i recorded r) (hrecorded : recorded < t.cols - 1) :
    r.column < t.cols - 1 := by
  cases h with
  | keep _ | negate _ _ _ | leave _ _ _ _ => exact hrecorded
  | take _ _ hunit | takeNegated _ _ _ hunit _ => exact hunit.left

/-- A negated row has a negated unit column. -/
theorem isolated_of_negated (h : t.Decides i recorded r) (hnegated : r.negated = true) :
    t.Isolated i r.column (-1) := by
  cases h with
  | keep _ | take _ _ _ | leave _ _ _ _ => cases hnegated
  | negate _ hunit _ => exact hunit
  | takeNegated _ _ _ hunit _ => exact hunit.isolated

/-- A row that is not negated has a unit column if it has one anywhere. -/
theorem isolated_of_not_negated (h : t.Decides i recorded r) (hnegated : r.negated = false)
    {j : Nat} (hj : j < t.cols - 1)
    (hunit : t.Isolated i j 1 ∨ t.Isolated i j (-1) ∧ t.rhs i ≤ 0) :
    t.Isolated i r.column 1 := by
  cases h with
  | keep hkeep => exact hkeep
  | take _ _ htake => exact htake.isolated
  | negate _ _ _ | takeNegated _ _ _ _ _ => cases hnegated
  | leave _ _ hnone hnoneNegated =>
    rcases hunit with hunit | ⟨hunit, hrhs⟩
    · exact absurd hunit (hnone j hj)
    · exact absurd ⟨hrhs, j, hj, hunit⟩ hnoneNegated

/-- A row that is not negated would be kept as it is recorded now. -/
theorem again (h : t.Decides i recorded r) (hnegated : r.negated = false) :
    t.Decides i r.column r := by
  cases h with
  | keep hkeep => exact keep hkeep
  | take _ _ htake => exact keep htake.isolated
  | negate _ _ _ | takeNegated _ _ _ _ _ => cases hnegated
  | leave hstale hkept hnone hnoneNegated => exact leave hstale hkept hnone hnoneNegated

end Decides

/-- **The decision that a repair finds** is the one that is to be taken. -/
theorem rowRepair_eq_iff [DecidableLE K] {t : Tableau K} {i recorded : Nat} {r : RowRepair} :
    t.rowRepair i recorded = r ↔ t.Decides i recorded r := by
  have hnegates : (t.isUnitAt i recorded (-1) && decide (t.rhs i ≤ 0)) = true ↔
      t.Isolated i recorded (-1) ∧ t.rhs i ≤ 0 := by
    rw [Bool.and_eq_true, decide_eq_true_iff, isUnitAt_iff_isolated]
  constructor
  · rintro rfl
    unfold rowRepair
    split
    · next hunit => exact .keep (isUnitAt_iff_isolated.1 hunit)
    next hstale =>
    rw [isUnitAt_iff_isolated] at hstale
    split
    · next hnegate => exact .negate hstale (hnegates.1 hnegate).1 (hnegates.1 hnegate).2
    next hkept =>
    rw [hnegates] at hkept
    split
    · next hunit => exact .take hstale hkept (rightmostUnit_eq_some_iff.1 hunit)
    next hnone =>
    rw [rightmostUnit_eq_none_iff] at hnone
    by_cases hrhs : t.rhs i ≤ 0
    · rw [if_pos hrhs]
      split
      · next hunit =>
        exact .takeNegated hstale hkept hnone (rightmostUnit_eq_some_iff.1 hunit) hrhs
      · next hnoneNegated =>
        rw [rightmostUnit_eq_none_iff] at hnoneNegated
        exact .leave hstale hkept hnone fun ⟨_, j, hj, hunit⟩ => hnoneNegated j hj hunit
    · rw [if_neg hrhs]
      exact .leave hstale hkept hnone fun h => hrhs h.1
  · intro h
    unfold rowRepair
    cases h with
    | keep hunit => rw [if_pos (isUnitAt_iff_isolated.2 hunit)]
    | negate hstale hunit hrhs =>
      rw [if_neg (mt isUnitAt_iff_isolated.1 hstale), if_pos (hnegates.2 ⟨hunit, hrhs⟩)]
    | take hstale hkept hunit =>
      rw [if_neg (mt isUnitAt_iff_isolated.1 hstale), if_neg (mt hnegates.1 hkept),
        rightmostUnit_eq_some_iff.2 hunit]
    | takeNegated hstale hkept hnone hunit hrhs =>
      rw [if_neg (mt isUnitAt_iff_isolated.1 hstale), if_neg (mt hnegates.1 hkept),
        rightmostUnit_eq_none_iff.2 hnone, if_pos hrhs, rightmostUnit_eq_some_iff.2 hunit]
    | leave hstale hkept hnone hnoneNegated =>
      rw [if_neg (mt isUnitAt_iff_isolated.1 hstale), if_neg (mt hnegates.1 hkept),
        rightmostUnit_eq_none_iff.2 hnone]
      by_cases hrhs : t.rhs i ≤ 0
      · rw [if_pos hrhs, rightmostUnit_eq_none_iff.2 fun j hj hunit =>
          hnoneNegated ⟨hrhs, j, hj, hunit⟩]
      · rw [if_neg hrhs]

/-! ### What a decision looks at -/

/-- Row `i` is the same in two tables of one shape, and so are the places of the zeros. -/
structure AgreesAt (t u : Tableau K) (i : Nat) : Prop where
  rows : u.rows = t.rows
  cols : u.cols = t.cols
  row : ∀ j < t.cols, u.entry i j = t.entry i j
  zeros : ∀ k < t.rows, ∀ j < t.cols, (u.entry k j == 0) = (t.entry k j == 0)

namespace AgreesAt

variable {t u : Tableau K} {i j : Nat}

omit [One K] [Neg K] [LE K] in
theorem isolated_iff (h : AgreesAt t u i) (hj : j < t.cols) {v : K} :
    u.Isolated i j v ↔ t.Isolated i j v := by
  have hzeros : (∀ k < t.rows, k ≠ i → u.entry k j == 0) ↔
      ∀ k < t.rows, k ≠ i → t.entry k j == 0 :=
    forall₂_congr fun k hk => by rw [h.zeros k hk j hj]
  constructor
  · intro hunit
    exact ⟨h.row j hj ▸ hunit.here, hzeros.1 (h.rows ▸ hunit.elsewhere)⟩
  · intro hunit
    exact ⟨(h.row j hj).symm ▸ hunit.here, h.rows.symm ▸ hzeros.2 hunit.elsewhere⟩

omit [One K] [Neg K] [LE K] in
theorem rhs_eq (h : AgreesAt t u i) (hcols : 0 < t.cols) : u.rhs i = t.rhs i := by
  rw [rhs, h.cols]
  exact h.row _ (by omega)

/-- **Where two tables agree, the decision is the same.** -/
theorem rowRepair_eq [DecidableLE K] (h : AgreesAt t u i) {recorded : Nat}
    (hrecorded : recorded < t.cols - 1) : u.rowRepair i recorded = t.rowRepair i recorded := by
  have hunit : ∀ j < t.cols, ∀ v, u.isUnitAt i j v = t.isUnitAt i j v := fun j hj v => by
    rw [Bool.eq_iff_iff, isUnitAt_iff_isolated, isUnitAt_iff_isolated, h.isolated_iff hj]
  have hrightmost : ∀ v, u.rightmostUnit i v = t.rightmostUnit i v := fun v => by
    rw [rightmostUnit, rightmostUnit, h.cols]
    refine List.find?_congr fun j hj => hunit j ?_ v
    have hj' := List.mem_range.1 (List.mem_reverse.1 hj)
    omega
  rw [rowRepair, rowRepair, hunit recorded (by omega), hunit recorded (by omega),
    h.rhs_eq (by omega), hrightmost, hrightmost]

end AgreesAt

/-! ### Row after row -/

variable [Div K]

section Rows

variable [DecidableLE K]

/-- What is done to row `i`, seen from the tableau as it was given. -/
def decision (t : Tableau K) (basis : List Nat) (i : Nat) : RowRepair :=
  t.rowRepair i (basis.getD i 0)

theorem entry_repairRow (tb : Tableau K × List Nat) (n : Nat) {i j : Nat} (hi : i < tb.1.rows)
    (hj : j < tb.1.cols) :
    (repairRow tb n).1.entry i j = if i = n ∧ (tb.1.decision tb.2 n).negated = true then
      tb.1.entry i j / -1 else tb.1.entry i j := by
  show (if (tb.1.decision tb.2 n).negated then tb.1.divideRow n (-1) else tb.1).entry i j = _
  by_cases hnegated : (tb.1.decision tb.2 n).negated = true
  · rw [if_pos hnegated, entry_divideRow tb.1 n (-1) hi hj]
    simp only [hnegated, and_true]
  · rw [if_neg hnegated, if_neg fun h => hnegated h.2]

theorem getD_repairRow (tb : Tableau K × List Nat) (n : Nat) {i : Nat} (hi : i < tb.2.length) :
    (repairRow tb n).2.getD i 0 =
      if i = n then (tb.1.decision tb.2 n).column else tb.2.getD i 0 := by
  rw [repairRow, ← decision, List.getD_eq_getElem _ _ (by simpa using hi), List.getElem_set,
    List.getD_eq_getElem _ _ hi]
  simp only [eq_comm]

variable [DivisionNegates K] {t : Tableau K} {basis : List Nat} {n : Nat}

/-- **Row `i` and its record after the repair of the rows above row `n`.** -/
theorem foldl_repairRow (hlength : basis.length = t.rows)
    (hbasis : ∀ i < t.rows, basis.getD i 0 < t.cols - 1) (hn : n ≤ t.rows) {i : Nat}
    (hi : i < t.rows) :
    (∀ j < t.cols, ((List.range n).foldl repairRow (t, basis)).1.entry i j =
      if i < n ∧ (t.decision basis i).negated = true then t.entry i j / -1 else t.entry i j) ∧
    ((List.range n).foldl repairRow (t, basis)).2.getD i 0 =
      if i < n then (t.decision basis i).column else basis.getD i 0 := by
  induction n generalizing i with
  | zero => simp
  | succ n ih =>
      have hbefore := fun k (hk : k < t.rows) => ih (Nat.le_of_succ_le hn) hk
      obtain ⟨hrows, hcols, hlength'⟩ := shape_foldl_repairRow (List.range n) (t, basis)
      rw [List.range_succ, List.foldl_append, List.foldl_cons, List.foldl_nil]
      generalize (List.range n).foldl repairRow (t, basis) = tb at *
      -- the row to be repaired has not been touched, and no row has lost or gained a zero
      have hagrees : AgreesAt t tb.1 n := by
        refine ⟨hrows, hcols, fun j hj => ?_, fun k hk j hj => ?_⟩
        · rw [(hbefore n hn).1 j hj, if_neg fun h => n.lt_irrefl h.1]
        · rw [(hbefore k hk).1 j hj]
          split
          · exact DivisionNegates.beq_zero _
          · rfl
      have hdecision : tb.1.decision tb.2 n = t.decision basis n := by
        rw [decision, (hbefore n hn).2, if_neg n.lt_irrefl, hagrees.rowRepair_eq (hbasis n hn),
          decision]
      have hentry : ∀ j < t.cols, (repairRow tb n).1.entry i j =
          if i = n ∧ (t.decision basis n).negated = true then tb.1.entry i j / -1
          else tb.1.entry i j := fun j hj => by
        rw [entry_repairRow tb n (hrows ▸ hi) (hcols ▸ hj), hdecision]
      have hcolumn : (repairRow tb n).2.getD i 0 =
          if i = n then (t.decision basis n).column else tb.2.getD i 0 := by
        rw [getD_repairRow tb n (by rw [hlength', hlength]; exact hi), hdecision]
      obtain ⟨hentry', hcolumn'⟩ := hbefore i hi
      rw [hcolumn, hcolumn']
      rcases Nat.lt_trichotomy i n with hlt | rfl | hgt
      · simp +contextual [hentry, hentry', hlt.ne, hlt, Nat.lt_succ_of_lt hlt]
      · simp +contextual [hentry, hentry']
      · simp +contextual [hentry, hentry', hgt.ne', hgt.not_gt,
          Nat.not_lt.2 (Nat.succ_le_of_lt hgt)]

end Rows

/-! ### A repaired tableau -/

/-- **What a repair makes of a tableau and the record of its basis**: for each row there is the
decision that the tableau as it was given calls for, and only if that is to negate the row are its
entries divided by `-1`, all of them. -/
structure Repaired (t : Tableau K) (basis : List Nat) (u : Tableau K) (after : List Nat) :
    Prop where
  rows : u.rows = t.rows
  cols : u.cols = t.cols
  length : after.length = t.rows
  row : ∀ i < t.rows, ∃ r, t.Decides i (basis.getD i 0) r ∧ after.getD i 0 = r.column ∧
    ∀ j < t.cols, u.entry i j = if r.negated then t.entry i j / -1 else t.entry i j

variable {t u : Tableau K} {basis after : List Nat}

theorem repaired_repair [DecidableLE K] [DivisionNegates K] (hlength : basis.length = t.rows)
    (hbasis : ∀ i < t.rows, basis.getD i 0 < t.cols - 1) :
    t.Repaired basis (t.repair basis).1 (t.repair basis).2 := by
  refine ⟨rows_repair t basis, cols_repair t basis, by rw [length_basis_repair, hlength],
    fun i hi => ⟨t.decision basis i, rowRepair_eq_iff.1 rfl, ?_, fun j hj => ?_⟩⟩
  · rw [repair, (foldl_repairRow hlength hbasis le_rfl hi).2, if_pos hi]
  · rw [repair, (foldl_repairRow hlength hbasis le_rfl hi).1 j hj]
    simp only [hi, true_and]

namespace Repaired

/-- A row comes out as it was, or divided by `-1` from end to end where its right-hand side was not
positive. -/
theorem row_eq_or (h : t.Repaired basis u after) {i : Nat} (hi : i < t.rows) :
    (∀ j < t.cols, u.entry i j = t.entry i j) ∨
      t.rhs i ≤ 0 ∧ ∀ j < t.cols, u.entry i j = t.entry i j / -1 := by
  obtain ⟨r, hr, -, hentry⟩ := h.row i hi
  cases hnegated : r.negated with
  | false => exact Or.inl fun j hj => by rw [hentry j hj, hnegated, if_neg Bool.false_ne_true]
  | true =>
    exact Or.inr ⟨hr.rhs_nonpos hnegated, fun j hj => by rw [hentry j hj, hnegated, if_pos rfl]⟩

variable [DivisionNegates K]

theorem entry_beq_zero (h : t.Repaired basis u after) {i j : Nat} (hi : i < t.rows)
    (hj : j < t.cols) : (u.entry i j == 0) = (t.entry i j == 0) := by
  rcases h.row_eq_or hi with hsame | ⟨-, hnegated⟩
  · rw [hsame j hj]
  · rw [hnegated j hj, DivisionNegates.beq_zero]

theorem rhs_nonneg (h : t.Repaired basis u after) (hcols : 0 < t.cols) {i : Nat} (hi : i < t.rows)
    (hrhs : 0 ≤ t.rhs i) : 0 ≤ u.rhs i := by
  rw [rhs, h.cols]
  rcases h.row_eq_or hi with hsame | ⟨hnonpos, hnegated⟩
  · rw [hsame _ (by omega)]
    exact hrhs
  · rw [hnegated _ (by omega)]
    exact DivisionNegates.nonneg hnonpos

/-- A row that was to be negated now has the unit column recorded for it; a row that was not is the
row that it was. -/
theorem isolated_or_agreesAt (h : t.Repaired basis u after) {i : Nat} (hi : i < t.rows)
    (hrecorded : basis.getD i 0 < t.cols - 1) :
    u.Isolated i (after.getD i 0) 1 ∨
      t.Decides i (basis.getD i 0) ⟨after.getD i 0, false⟩ ∧ AgreesAt t u i := by
  obtain ⟨⟨column, negated⟩, hr, hcolumn, hentry⟩ := h.row i hi
  obtain rfl : after.getD i 0 = column := hcolumn
  have hlt : after.getD i 0 < t.cols - 1 := hr.column_lt hrecorded
  have hzeros : ∀ k < t.rows, ∀ j < t.cols, (u.entry k j == 0) = (t.entry k j == 0) :=
    fun k hk j hj => h.entry_beq_zero hk hj
  cases negated with
  | false => exact Or.inr ⟨hr, h.rows, h.cols, hentry, hzeros⟩
  | true =>
    obtain ⟨hhere, helsewhere⟩ := hr.isolated_of_negated rfl
    refine Or.inl ⟨?_, fun k hk hki => ?_⟩
    · rw [hentry _ (by omega), if_pos rfl, DivisionNegates.beq_one]
      exact hhere
    · rw [h.rows] at hk
      rw [hzeros k hk _ (by omega)]
      exact helsewhere k hk hki

/-- **A row that can have a unit column has one.** -/
theorem isolated (h : t.Repaired basis u after) {i : Nat} (hi : i < t.rows)
    (hrecorded : basis.getD i 0 < t.cols - 1) {j : Nat} (hj : j < t.cols - 1)
    (hunit : t.Isolated i j 1 ∨ t.Isolated i j (-1) ∧ t.rhs i ≤ 0) :
    u.Isolated i (after.getD i 0) 1 := by
  rcases h.isolated_or_agreesAt hi hrecorded with hdone | ⟨hdecides, hagrees⟩
  · exact hdone
  · have hlt : after.getD i 0 < t.cols - 1 := hdecides.column_lt hrecorded
    exact (hagrees.isolated_iff (by omega)).2 (hdecides.isolated_of_not_negated rfl hj hunit)

/-- **A repaired row is to be kept as it is recorded.** -/
theorem rowRepair_eq [DecidableLE K] (h : t.Repaired basis u after) {i : Nat} (hi : i < t.rows)
    (hrecorded : basis.getD i 0 < t.cols - 1) :
    u.rowRepair i (after.getD i 0) = ⟨after.getD i 0, false⟩ := by
  rcases h.isolated_or_agreesAt hi hrecorded with hdone | ⟨hdecides, hagrees⟩
  · exact rowRepair_eq_iff.2 (.keep hdone)
  · rw [hagrees.rowRepair_eq (hdecides.column_lt hrecorded)]
    exact rowRepair_eq_iff.2 (hdecides.again rfl)

end Repaired

/-- **The repair of a basis.** The record may be any columns left of the right-hand side. Each row
is dealt with as `Decides` says of the tableau as it was given, whatever was done to the rows above.
So a row with a unit column, or with a negated one and a right-hand side that is not positive, has
its unit column recorded afterwards, no right-hand side becomes negative, and a second repair has
nothing to do, which is to say that a state made from the result is the result. -/
theorem repair_row_by_row [DecidableLE K] [DivisionNegates K] (t : Tableau K) (basis : List Nat)
    (hcols : 0 < t.cols) (hlength : basis.length = t.rows) (hbasis : ∀ b ∈ basis, b < t.cols - 1) :
    t.Repaired basis (t.repair basis).1 (t.repair basis).2 ∧
    (∀ i < t.rows, (∀ j < t.cols, (t.repair basis).1.entry i j = t.entry i j) ∨
      t.rhs i ≤ 0 ∧ ∀ j < t.cols, (t.repair basis).1.entry i j = t.entry i j / -1) ∧
    (∀ i < t.rows, (∃ j < t.cols - 1, t.Isolated i j 1 ∨ t.Isolated i j (-1) ∧ t.rhs i ≤ 0) →
      (t.repair basis).1.Isolated i ((t.repair basis).2.getD i 0) 1) ∧
    (∀ i < t.rows, 0 ≤ t.rhs i → 0 ≤ (t.repair basis).1.rhs i) ∧
    (t.repair basis).1.repair (t.repair basis).2 = t.repair basis ∧
    ∀ objective : List K, t.cols = objective.length + 1 →
      ∃ s, State.ofTableau objective t basis = .ok s ∧ (s.tableau, s.basis) = t.repair basis ∧
        State.ofTableau objective s.tableau s.basis = .ok s := by
  have hrecorded : ∀ i < t.rows, basis.getD i 0 < t.cols - 1 := fun i hi => by
    rw [List.getD_eq_getElem _ _ (hlength ▸ hi)]
    exact hbasis _ (List.getElem_mem _)
  have hrepaired := repaired_repair hlength hrecorded
  have hagain : (t.repair basis).1.repair (t.repair basis).2 = t.repair basis :=
    repair_eq_self (hrepaired.length.trans hrepaired.rows.symm) fun i hi =>
      hrepaired.rowRepair_eq (hrepaired.rows ▸ hi) (hrecorded i (hrepaired.rows ▸ hi))
  refine ⟨hrepaired, fun i hi => hrepaired.row_eq_or hi,
    fun i hi ⟨j, hj, hunit⟩ => hrepaired.isolated hi (hrecorded i hi) hj hunit,
    fun i hi => hrepaired.rhs_nonneg hcols hi, hagain, fun objective hobjective => ?_⟩
  have hwidth : t.cols - 1 = objective.length := by rw [hobjective, Nat.add_sub_cancel]
  obtain ⟨s, hs⟩ := State.exists_ofTableau_of_lt hobjective hlength (hwidth ▸ hbasis)
  obtain ⟨hcosts, hparts, hcount⟩ := State.ofTableau_eq_ok hs
  obtain ⟨s', hs'⟩ := State.exists_ofTableau_of_lt s.cols_tableau s.length_basis s.basis_lt
  obtain ⟨hcosts', hparts', hcount'⟩ := State.ofTableau_eq_ok hs'
  have htableau : s.tableau = (t.repair basis).1 := congrArg Prod.fst hparts
  have hcolumns : s.basis = (t.repair basis).2 := congrArg Prod.snd hparts
  rw [htableau, hcolumns, hagain, ← hparts] at hparts'
  have hsame : s' = s := State.ext hcosts' (congrArg Prod.fst hparts') (congrArg Prod.snd hparts')
    (hcount'.trans hcount.symm)
  exact ⟨s, hs, hparts, by rw [← hcosts, hs', hsame]⟩

/-- Rows that are kept, negated, given another column, both, and left alone, in this order. -/
def fiveDecisions : Tableau ℚ :=
  ⟨5, 7, #[1, 0, 0, 0, 0, 0, 4,
           0, -1, 0, 0, 0, 0, -2,
           0, 0, 1, 1, 0, 0, 3,
           0, 0, 0, 0, -1, 0, 0,
           0, 0, 0, 0, 0, -1, 5], rfl⟩

/-- Negated rows have lost their negative right-hand sides, and a second repair changes nothing. -/
theorem repair_fiveDecisions :
    (0 < fiveDecisions.cols ∧ [0, 1, 0, 0, 0].length = fiveDecisions.rows ∧
      ∀ b ∈ [0, 1, 0, 0, 0], b < fiveDecisions.cols - 1) ∧
    (fiveDecisions.repair [0, 1, 0, 0, 0]).2 = [0, 1, 3, 4, 0] ∧
    (fiveDecisions.repair [0, 1, 0, 0, 0]).1.column 6 = [4, 2, 3, 0, 5] ∧
    (fiveDecisions.repair [0, 1, 0, 0, 0]).1.Isolated 3 4 1 ∧
    (fiveDecisions.repair [0, 1, 0, 0, 0]).1.repair (fiveDecisions.repair [0, 1, 0, 0, 0]).2 =
      fiveDecisions.repair [0, 1, 0, 0, 0] := by
  have hcols : 0 < fiveDecisions.cols := by decide
  have hlength : [0, 1, 0, 0, 0].length = fiveDecisions.rows := rfl
  have hbasis : ∀ b ∈ [0, 1, 0, 0, 0], b < fiveDecisions.cols - 1 := by decide
  have hafter : (fiveDecisions.repair [0, 1, 0, 0, 0]).2 = [0, 1, 3, 4, 0] := by decide +kernel
  obtain ⟨-, -, hisolated, -, hagain, -⟩ :=
    repair_row_by_row fiveDecisions [0, 1, 0, 0, 0] hcols hlength hbasis
  refine ⟨⟨hcols, hlength, hbasis⟩, hafter, by decide +kernel, ?_, hagain⟩
  have hunit : fiveDecisions.Isolated 3 4 (-1) := isUnitAt_iff_isolated.1 (by decide +kernel)
  have hdone := hisolated 3 (by decide) ⟨4, by decide, Or.inr ⟨hunit, by decide +kernel⟩⟩
  rw [hafter] at hdone
  exact hdone

end Tableau

end SimplexMethod
