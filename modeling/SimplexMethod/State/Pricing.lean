import SimplexMethod.State.Basic

/-!
# SimplexMethod.State.Pricing

**Which exchange comes next.** Pricing names the column to enter the basis and the ratio test the
row it enters at. Both take the first of several equally good candidates.

- `firstImproving` takes the column whose reduced cost, multiplied by the sign of the direction, is
  least, provided that it is below minus the tolerance.
- `Tableau.ratioTest` takes the row in which the entering column, as it grows from zero, first
  brings the basic column down to zero: the least quotient of right-hand side and entry over the
  rows with an entry above the tolerance. A negative quotient is passed over.

The first depends on the reduced costs alone and the second on the tableau alone, so each is a
function of just that.
-/

namespace SimplexMethod

variable {K : Type}

/-! ### Pricing -/

/-- The first column with the most improving one of the given reduced costs, if that improves by
more than the tolerance. -/
def firstImproving [Neg K] [Mul K] [LT K] [DecidableLT K] [Selectable K] (reducedCosts : List K)
    (sign tolerance : K) : Option Nat :=
  match firstLeast (reducedCosts.zipIdx.map fun c => (c.2, sign * c.1)) with
  | some (j, least) => if least < -tolerance then some j else none
  | none => none

/-- A column to enter is one that has a reduced cost. -/
theorem lt_of_firstImproving [Neg K] [Mul K] [LT K] [DecidableLT K] [Selectable K]
    {reducedCosts : List K} {sign tolerance : K} {j : Nat}
    (h : firstImproving reducedCosts sign tolerance = some j) : j < reducedCosts.length := by
  unfold firstImproving at h
  split at h
  · next k least hleast =>
    split at h
    · cases h
      obtain ⟨⟨x, i⟩, hmem, heq⟩ := List.mem_map.1 (mem_of_firstLeast hleast)
      cases heq
      exact (List.mem_zipIdx' hmem).1
    · cases h
  · cases h

/-- The column to enter the basis, if one improves the objective by more than the tolerance. -/
def State.price [Zero K] [Neg K] [Add K] [Mul K] [LT K] [DecidableLT K] [Selectable K] (s : State K)
    (sign tolerance : K) : Option Nat :=
  firstImproving s.reducedCosts sign tolerance

/-! ### The ratio test -/

section RatioTest

variable [Zero K] [Div K] [LT K] [DecidableLT K]

/-- How far column `col` can grow before the basic column of row `i` reaches zero, if that row
limits it at all. -/
def Tableau.ratio (t : Tableau K) (col : Nat) (tolerance : K) (i : Nat) : Option K :=
  if tolerance < t.entry i col then
    let quotient := t.rhs i / t.entry i col
    if quotient < 0 then none else some quotient
  else none

/-- The row at which column `col` enters, or `none` if no row limits it. -/
def Tableau.ratioTest [Selectable K] (t : Tableau K) (col : Nat) (tolerance : K) : Option Nat :=
  let limits := (List.range t.rows).filterMap fun i => (t.ratio col tolerance i).map fun r => (i, r)
  (firstLeast limits).map (·.1)

/-- The row at which a column enters exists, and its entry there is above the tolerance. -/
theorem Tableau.lt_of_ratioTest [Selectable K] {t : Tableau K} {col : Nat} {tolerance : K} {i : Nat}
    (h : t.ratioTest col tolerance = some i) : i < t.rows ∧ tolerance < t.entry i col := by
  unfold ratioTest at h
  obtain ⟨c, hc, rfl⟩ := Option.map_eq_some_iff.1 h
  obtain ⟨k, hk, hlimit⟩ := List.mem_filterMap.1 (mem_of_firstLeast hc)
  obtain ⟨r, hr, rfl⟩ := Option.map_eq_some_iff.1 hlimit
  refine ⟨List.mem_range.1 hk, ?_⟩
  unfold ratio at hr
  split at hr
  · assumption
  · cases hr

/-- The row at which column `col` enters, where the column must be in the tableau unless that has no
row. -/
def Tableau.ratioTestAt [Selectable K] (t : Tableau K) (col : Nat) (tolerance : K) :
    Except Fault (Option Nat) :=
  if col < t.cols ∨ t.rows = 0 then .ok (t.ratioTest col tolerance)
  else .error (.cellOutside 0 col t.rows t.cols)

end RatioTest

end SimplexMethod
