import SimplexMethod.Proofs.Pivots

/-!
# SimplexMethod.Proofs.Reversal

**A pivot can be undone.** After a pivot in a canonical state the column that has left the basis
holds, in the row of the pivot, the inverse of the entry that was pivoted at. So there is a pivot
that brings it back, and that pivot gives back the state as it was (`Canonical.exchange_back`).

Two things could lose what the first pivot started from, and neither does. Writing down the entering
column as a unit column forgets its entries, but the column that leaves was a unit column and now
holds them, divided by the pivot (`Tableau.entry_eliminate_unit`). And the repair of the basis could
change further rows, but from a canonical basis it has nothing to do.

So pivots lead from one canonical state to another exactly if they lead back (`Canonical.pivots_symm`).
-/

namespace SimplexMethod

namespace Tableau

variable {t : Tableau ℚ} {r b c : Nat}

/-- **What a step makes of the column that was the unit column of its row**: the entries of the
column that has become one, divided by the pivot. -/
theorem entry_eliminate_unit (hpivot : t.entry r c ≠ 0)
    (hunit : ∀ k < t.rows, t.entry k b = if k = r then 1 else 0) {i : Nat} (hi : i < t.rows) :
    (t.eliminate r c).entry i b =
      if i = r then 1 / t.entry r c else -(t.entry i c / t.entry r c) := by
  obtain ⟨hr, -⟩ := lt_of_entry_ne_zero hpivot
  rw [entry_eliminate_exact hpivot, hunit r hr, hunit i hi, if_pos rfl]
  split
  · rfl
  · rw [zero_sub, mul_one_div]

/-- **A step at the former unit column gives the table back.** -/
theorem eliminate_eliminate (hpivot : t.entry r c ≠ 0)
    (hunit : ∀ k < t.rows, t.entry k b = if k = r then 1 else 0) :
    (t.eliminate r c).eliminate r b = t := by
  obtain ⟨hr, -⟩ := lt_of_entry_ne_zero hpivot
  have hinverse : (t.eliminate r c).entry r b = 1 / t.entry r c := by
    rw [entry_eliminate_unit hpivot hunit hr, if_pos rfl]
  have hback : (t.eliminate r c).entry r b ≠ 0 := hinverse ▸ one_div_ne_zero hpivot
  -- row `r` is multiplied by the pivot again
  have hrow : ∀ j, (t.eliminate r c).entry r j / (t.eliminate r c).entry r b = t.entry r j := by
    intro j
    rw [hinverse, entry_eliminate_exact hpivot, if_pos rfl]
    field_simp
  refine ext_entry rfl rfl fun i j hi _ => ?_
  rw [entry_eliminate_exact hback, hrow]
  split
  · next hir => rw [hir]
  · next hir =>
    -- every other row gets back the multiple of row `r` that it has lost
    have hi' : i < t.rows := hi
    rw [entry_eliminate_unit hpivot hunit hi', entry_eliminate_exact hpivot, if_neg hir, if_neg hir]
    ring

end Tableau

namespace State

variable {s t : State ℚ} {row col : Nat}

/-- **The exchange that undoes an exchange**, at the column that has left the basis. -/
theorem Canonical.exchange_back (hs : s.Canonical) (hpivot : s.tableau.entry row col ≠ 0)
    (ht : s.exchange row col = .ok t) :
    t.tableau.entry row (s.basis.getD row 0) = 1 / s.tableau.entry row col ∧
      t.exchange row (s.basis.getD row 0) = .ok s := by
  obtain ⟨hrow, -⟩ := Tableau.lt_of_entry_ne_zero hpivot
  obtain ⟨hexchanged, hcanonical⟩ := hs.of_pivot hpivot ht
  have hlength : row < s.basis.length := s.length_basis ▸ hrow
  have hentry : t.tableau.entry row (s.basis.getD row 0) = 1 / s.tableau.entry row col := by
    rw [hexchanged.tableau, Tableau.entry_eliminate_unit hpivot (hs.unit row hrow) hrow, if_pos rfl]
  obtain ⟨u, hu, hback, -⟩ := hcanonical.exists_exchange (hexchanged.rows.symm ▸ hrow)
    (hexchanged.objective.symm ▸ s.basis_getD_lt hrow) (hentry ▸ one_div_ne_zero hpivot)
  have hsame : u = s := by
    refine State.ext (hback.objective.trans hexchanged.objective) ?_ ?_
      (hback.iterations.trans hexchanged.iterations)
    · rw [hback.tableau, hexchanged.tableau,
        Tableau.eliminate_eliminate hpivot (hs.unit row hrow)]
    · rw [hback.basis, hexchanged.basis, List.set_set, List.getD_eq_getElem _ _ hlength,
        List.set_getElem_self]
  exact ⟨hentry, hsame ▸ hu⟩

theorem Canonical.pivot_symm (hs : s.Canonical) (h : Pivot s t) : Pivot t s := by
  cases h with
  | exchange hpivot ht =>
      obtain ⟨hentry, hback⟩ := hs.exchange_back hpivot ht
      exact .exchange (hentry ▸ one_div_ne_zero hpivot) hback

/-- **Any number of pivots can be undone.** -/
theorem Canonical.pivots_symm (hs : s.Canonical) (h : s.Pivots t) : t.Pivots s := by
  induction h with
  | refl => exact .refl
  | tail hbefore hstep ih => exact .head ((hs.pivots hbefore).1.pivot_symm hstep) ih

/-- **A pivot is reversible.** A pivot of a canonical state, in any row and at any entry of it that
is not zero and not on the right-hand side, leaves an entry other than zero in the column that it
takes out of the basis. The pivot there results in the state that the first one was made in, with
its table and its basis and therefore its reduced costs and its objective value. -/
theorem Canonical.reversible (hs : s.Canonical) (hrow : row < s.tableau.rows)
    (hcol : col < s.tableau.cols - 1) (hpivot : s.tableau.entry row col ≠ 0) :
    ∃ t, s.exchange row col = .ok t ∧ t.tableau.entry row (s.basis.getD row 0) ≠ 0 ∧
      t.exchange row (s.basis.getD row 0) = .ok s := by
  have hcost : col < s.objective.length := s.cols_sub_one ▸ hcol
  obtain ⟨t, ht⟩ := s.exists_exchange hrow hcost
  obtain ⟨hentry, hback⟩ := hs.exchange_back hpivot ht
  exact ⟨t, ht, hentry ▸ one_div_ne_zero hpivot, hback⟩

/-- A pivot at a negative entry, which leaves a negative right-hand side, and the way back. -/
theorem Canonical.reversible_negative_entry :
    let s : State ℚ := ⟨[1, 2, 0, 0], ⟨2, 5, #[1, 1, 1, 0, 4, -2, 3, 0, 1, 6], rfl⟩, [2, 3], 0, rfl,
      rfl, by decide⟩
    let t : State ℚ := ⟨[1, 2, 0, 0],
      ⟨2, 5, #[0, 5 / 2, 1, 1 / 2, 7, 1, -3 / 2, 0, -1 / 2, -3], rfl⟩, [2, 0], 0, rfl, rfl,
      by decide⟩
    s.Canonical ∧ s.tableau.entry 1 0 = -2 ∧ s.exchange 1 0 = .ok t ∧
      s.basis.getD 1 0 = 3 ∧ t.tableau.entry 1 3 ≠ 0 ∧ t.exchange 1 3 = .ok s := by
  intro s t
  have hs : s.Canonical := ⟨rfl, by decide, by decide +kernel⟩
  have hpivot : s.tableau.entry 1 0 = -2 := by decide +kernel
  have ht : s.exchange 1 0 = .ok t := by decide +kernel
  obtain ⟨u, hu, hentry, hback⟩ := hs.reversible (show 1 < s.tableau.rows by decide)
    (show 0 < s.tableau.cols - 1 by decide) (by rw [hpivot]; norm_num)
  rw [ht] at hu
  cases hu
  exact ⟨hs, hpivot, ht, rfl, hentry, hback⟩

end State

end SimplexMethod
