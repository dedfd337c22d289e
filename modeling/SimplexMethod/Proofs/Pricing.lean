import SimplexMethod.Proofs.Cycling
import SimplexMethod.Proofs.Pivots

/-!
# SimplexMethod.Proofs.Pricing

**What the two searches for the next exchange find.** Both are for a first minimum
(`IsFirstMinimum`): pricing looks for it among all columns and asks of it that it improves the
objective by more than the tolerance, and the ratio test looks for it among the rows that limit the
column. With an entry above a tolerance that is not negative, those are the rows whose right-hand
side is not negative (`Tableau.limits_iff`).

Two things hang on this. A pass is optimal exactly where no column improves the objective
(`State.verdict_eq_optimal_iff`), since the cap and the ratio test are not looked at before. And an
exchange at the row of the exact ratio test leads from feasible states to feasible ones.
-/

namespace SimplexMethod

/-! ### The ratio test -/

namespace Tableau

variable {t : Tableau ℚ} {col : Nat} {tolerance : ℚ}

/-- A row limits a column if its entry is above the tolerance and its right-hand side is not
negative. -/
theorem limits_iff (htol : 0 ≤ tolerance) {i : Nat} :
    t.Limits col tolerance i ↔ i < t.rows ∧ tolerance < t.entry i col ∧ 0 ≤ t.rhs i := by
  refine and_congr_right fun _ => and_congr_right fun hentry => ?_
  have hpos : 0 < t.entry i col := htol.trans_lt hentry
  rw [le_div_iff₀ hpos, zero_mul]

/-- The ratio test is only refused if it has to look into a column that does not exist. -/
theorem ratioTestAt_eq_ok {found : Option Nat} :
    t.ratioTestAt col tolerance = .ok found ↔
      (col < t.cols ∨ t.rows = 0) ∧ t.ratioTest col tolerance = found := by
  unfold ratioTestAt
  split
  · next h => rw [Except.ok.injEq, and_iff_right h]
  · next h =>
    refine iff_of_false (fun hok => ?_) fun hfound => h hfound.1
    cases hok

end Tableau

namespace State

variable {settings : Settings ℚ} {sign : ℚ} {s : State ℚ}

/-- **An exchange at the row of the exact ratio test** leads from a feasible state to one. -/
theorem Feasible.of_exchange {t : State ℚ} {row col : Nat} (hs : s.Feasible)
    (hratio : s.tableau.ratioTest col 0 = some row) (ht : s.exchange row col = .ok t) :
    t.Feasible := by
  obtain ⟨-, hcol, -, -⟩ := of_exchange_eq_ok ht
  obtain ⟨-, hpos, -⟩ := Tableau.ratioTest_eq_some hratio
  have hcanonical := (Canonical.of_pivot hs.canonical hpos.ne' ht).2
  exact ⟨hcanonical, hs.canonical.rhs_nonneg_of_exchange hs.rhs_nonneg hcol hratio ht⟩

/-! ### Pricing -/

/-- **The verdict is optimal exactly where no column improves** by more than the tolerance. -/
theorem verdict_eq_optimal_iff :
    s.verdict settings sign = .stop .optimal ↔
      ∀ j < s.reducedCosts.length, ¬sign * s.reducedCosts.getD j 0 < -settings.tolerance := by
  simp only [not_lt]
  rw [← firstImproving_eq_none]
  constructor
  · exact verdict_eq_optimal
  · intro hnone
    unfold verdict price
    rw [hnone]

end State

/-- **The ratio test is exact.** It takes the topmost row of least quotient among those with an
entry above the tolerance and a right-hand side that is not negative, and it takes none exactly if
there is no such row. It is refused only for a column outside a table with rows. Without a tolerance
the exchange at its row leads from every feasible state to a feasible one, so no right-hand side
becomes negative. It can be made exactly for a column that has a cost. -/
theorem ratioTest_exact (t : Tableau ℚ) (col : Nat) {tolerance : ℚ} (htol : 0 ≤ tolerance) :
    (∀ i, t.ratioTest col tolerance = some i ↔
      IsFirstMinimum (fun k => k < t.rows ∧ tolerance < t.entry k col ∧ 0 ≤ t.rhs k)
        (fun k => t.rhs k / t.entry k col) i) ∧
    (t.ratioTest col tolerance = none ↔
      ¬∃ k, k < t.rows ∧ tolerance < t.entry k col ∧ 0 ≤ t.rhs k) ∧
    (∀ found, t.ratioTestAt col tolerance = .ok found ↔
      (col < t.cols ∨ t.rows = 0) ∧ t.ratioTest col tolerance = found) ∧
    ∀ s : State ℚ, s.tableau = t → s.Feasible → ∀ row, t.ratioTest col 0 = some row →
      ((∃ next, s.exchange row col = .ok next) ↔ col < s.objective.length) ∧
      ∀ next, s.exchange row col = .ok next → next.Feasible := by
  have hlimits : t.Limits col tolerance =
      fun k => k < t.rows ∧ tolerance < t.entry k col ∧ 0 ≤ t.rhs k :=
    funext fun _ => propext (Tableau.limits_iff htol)
  refine ⟨fun i => ?_, ?_, fun found => Tableau.ratioTestAt_eq_ok, ?_⟩
  · rw [← hlimits]
    exact Tableau.ratioTest_eq_some_iff
  · rw [Tableau.ratioTest_eq_none]
    constructor
    · rintro hneg ⟨k, hk, hentry, hrhs⟩
      exact absurd (hneg k hk hentry) (not_lt.2 (div_nonneg hrhs (htol.trans hentry.le)))
    · intro hnone k hk hentry
      refine not_le.1 fun hquotient => hnone ⟨k, ?_⟩
      exact (Tableau.limits_iff htol).1 ⟨hk, hentry, hquotient⟩
  · rintro s rfl hs row hratio
    obtain ⟨hrow, -, -⟩ := Tableau.ratioTest_eq_some hratio
    refine ⟨⟨?_, s.exists_exchange hrow⟩, fun next hnext => hs.of_exchange hratio hnext⟩
    rintro ⟨next, hnext⟩
    exact (State.of_exchange_eq_ok hnext).2.1

/-- The entry of the first row counts as zero, the second right-hand side is negative, and the last
two rows are equally good. Without a tolerance the first row is taken, at zero. -/
theorem ratioTest_exact_tie :
    let t : Tableau ℚ := ⟨4, 2, #[1 / 20, 0, 3, -6, 2, 4, 1, 2], rfl⟩
    let s : State ℚ := ⟨[1, 0, 0, 0], ⟨3, 5, #[-1, 1, 0, 0, 5, 2, 0, 1, 0, 4, 1, 0, 0, 1, 2], rfl⟩,
      [1, 2, 3], 0, rfl, rfl, by decide⟩
    (0 : ℚ) ≤ 1 / 10 ∧
      IsFirstMinimum (fun k => k < 4 ∧ 1 / 10 < t.entry k 0 ∧ 0 ≤ t.rhs k)
        (fun k => t.rhs k / t.entry k 0) 2 ∧
      IsFirstMinimum (fun k => k < 4 ∧ 0 < t.entry k 0 ∧ 0 ≤ t.rhs k)
        (fun k => t.rhs k / t.entry k 0) 0 ∧
      s.Feasible ∧ s.tableau.ratioTest 0 0 = some 1 ∧
      ∃ next, s.exchange 1 0 = .ok next ∧ next.Feasible := by
  intro t s
  have htol : (0 : ℚ) ≤ 1 / 10 := by decide +kernel
  have hs : s.Feasible := ⟨⟨rfl, by decide, by decide +kernel⟩, by decide +kernel⟩
  have hratio : s.tableau.ratioTest 0 0 = some 1 := by decide +kernel
  obtain ⟨hsome, -⟩ := ratioTest_exact t 0 htol
  obtain ⟨hsome', -⟩ := ratioTest_exact t 0 (le_refl 0)
  obtain ⟨-, -, -, hnext⟩ := ratioTest_exact s.tableau 0 (le_refl 0)
  obtain ⟨hmade, hfeasible⟩ := hnext s rfl hs 1 hratio
  obtain ⟨next, hexchange⟩ := hmade.2 (by decide)
  exact ⟨htol, (hsome 2).1 (by decide +kernel), (hsome' 0).1 (by decide +kernel), hs, hratio,
    next, hexchange, hfeasible next hexchange⟩

/-- **Pricing is exact.** It takes the first column at which the signed reduced cost is least, if
that is below minus the tolerance, and it takes none exactly if no column has a signed reduced cost
below that. So a pass ends as optimal exactly where the exchanges have led it to a state at which no
column improves by more than the tolerance, whether the cap is reached there or not. -/
theorem pricing_exact (reducedCosts : List ℚ) (sign tolerance : ℚ) :
    (∀ j, firstImproving reducedCosts sign tolerance = some j ↔
      IsFirstMinimum (· < reducedCosts.length) (fun k => sign * reducedCosts.getD k 0) j ∧
        sign * reducedCosts.getD j 0 < -tolerance) ∧
    (firstImproving reducedCosts sign tolerance = none ↔
      ∀ j < reducedCosts.length, ¬sign * reducedCosts.getD j 0 < -tolerance) ∧
    ∀ (cap : Option Nat) (phase : Phase) (s t : State ℚ),
      (t.verdict ⟨cap, tolerance⟩ sign = .stop .optimal ↔
        ∀ j < t.reducedCosts.length, ¬sign * t.reducedCosts.getD j 0 < -tolerance) ∧
      ((∃ events, s.pass ⟨cap, tolerance⟩ phase sign = .ok ⟨.optimal, t, events⟩) ↔
        ∃ n f, State.IsRun ⟨cap, tolerance⟩ sign s n f ∧ f n = t ∧ n ≤ s.room ∧
          ∀ j < t.reducedCosts.length, ¬sign * t.reducedCosts.getD j 0 < -tolerance) := by
  refine ⟨fun j => firstImproving_eq_some_iff, ?_, fun cap phase s t => ?_⟩
  · rw [firstImproving_eq_none]
    simp only [not_lt]
  · have hverdict : t.verdict ⟨cap, tolerance⟩ sign = .stop .optimal ↔
        ∀ j < t.reducedCosts.length, ¬sign * t.reducedCosts.getD j 0 < -tolerance :=
      State.verdict_eq_optimal_iff
    rw [← hverdict]
    exact ⟨Iff.rfl, State.exists_pass_iff_isRun⟩

/-- Two columns are equally good for one direction, and in the other one a single column improves,
by no more than one. -/
theorem pricing_exact_tie :
    let reducedCosts : List ℚ := [-2, -3, -3, 1]
    firstImproving reducedCosts 1 (1 / 2) = some 1 ∧
      firstImproving reducedCosts (-1) (1 / 2) = some 3 ∧
      IsFirstMinimum (· < 4) (fun k => 1 * reducedCosts.getD k 0) 1 ∧
      IsFirstMinimum (· < 4) (fun k => -1 * reducedCosts.getD k 0) 3 ∧
      ∀ j < 4, ¬-1 * reducedCosts.getD j 0 < -1 := by
  intro reducedCosts
  have hfirst : firstImproving reducedCosts 1 (1 / 2) = some 1 := by decide +kernel
  have hlast : firstImproving reducedCosts (-1) (1 / 2) = some 3 := by decide +kernel
  obtain ⟨hmax, -⟩ := pricing_exact reducedCosts 1 (1 / 2)
  obtain ⟨hmin, -⟩ := pricing_exact reducedCosts (-1) (1 / 2)
  obtain ⟨-, hnone, -⟩ := pricing_exact reducedCosts (-1) 1
  exact ⟨hfirst, hlast, ((hmax 1).1 hfirst).1, ((hmin 3).1 hlast).1, hnone.1 (by decide +kernel)⟩

end SimplexMethod
