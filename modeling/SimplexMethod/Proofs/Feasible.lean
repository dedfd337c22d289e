import SimplexMethod.Proofs.Costs
import SimplexMethod.Proofs.Reach

/-!
# SimplexMethod.Proofs.Feasible

**What the verdicts of a pass are worth over exact numbers.** Two invariants carry a pass:

* `State.Canonical`, kept under any tolerance that is not negative, because the
  entry exchanged at is above the tolerance and hence not zero;
* `State.Feasible`, which adds that no right-hand side is negative. It is kept
  under tolerance zero, because the ratio test takes the least quotient
  (`Tableau.rhs_eliminate_nonneg`).

Along the way nothing about the problem changes (`State.SameProblem`): costs, number
of rows and solutions stay. So a verdict at the last state speaks about the
equations that the pass began with: an optimal objective value bounds the cost of
every non-negative solution (`signed_cost_le`), and an unbounded column leads to
non-negative solutions beyond every bound (`exists_solution_beyond`).
-/

namespace SimplexMethod

namespace Tableau

variable {t : Tableau ℚ} {r c : Nat}

/-- **How far below zero an exchange can take a right-hand side.** A row whose entry counts as zero
does not limit the entering column, so it falls by as much as the tolerance for each unit of the
step. -/
theorem rhs_eliminate_ge {tolerance : ℚ} (htol : 0 ≤ tolerance)
    (hrhs : ∀ i < t.rows, 0 ≤ t.rhs i) (hratio : t.ratioTest c tolerance = some r) :
    ∀ i < t.rows, -(tolerance * (t.rhs r / t.entry r c)) ≤ (t.eliminate r c).rhs i := by
  obtain ⟨hr, habove, hquotient, hleast⟩ := ratioTest_eq_some hratio
  have hfall : 0 ≤ tolerance * (t.rhs r / t.entry r c) := mul_nonneg htol hquotient
  intro i hi
  rw [rhs_eliminate (htol.trans_lt habove).ne']
  split
  · linarith
  · rcases le_or_gt (t.entry i c) tolerance with hle | hgt
    · have hdrop : t.entry i c * (t.rhs r / t.entry r c) ≤ tolerance * (t.rhs r / t.entry r c) :=
        mul_le_mul_of_nonneg_right hle hquotient
      linarith [hrhs i hi]
    · have hpos : 0 < t.entry i c := htol.trans_lt hgt
      have hlimit := hleast i hi hgt (div_nonneg (hrhs i hi) hpos.le)
      have hdrop : t.entry i c * (t.rhs r / t.entry r c) ≤ t.rhs i := by
        rw [mul_comm]
        exact (le_div_iff₀ hpos).1 hlimit
      linarith

/-- **The exact ratio test keeps right-hand sides from becoming negative.** -/
theorem rhs_eliminate_nonneg (hrhs : ∀ i < t.rows, 0 ≤ t.rhs i)
    (hratio : t.ratioTest c 0 = some r) : ∀ i < t.rows, 0 ≤ (t.eliminate r c).rhs i := by
  intro i hi
  have hfall := rhs_eliminate_ge le_rfl hrhs hratio i hi
  rwa [zero_mul, neg_zero] at hfall

end Tableau

namespace State

variable {settings : Settings ℚ} {sign : ℚ}

/-! ### Invariants -/

/-- The two states put the same costs on the same solutions. -/
structure SameProblem (s t : State ℚ) : Prop where
  objective : t.objective = s.objective
  rows : t.tableau.rows = s.tableau.rows
  solves : ∀ v, t.tableau.Solves v ↔ s.tableau.Solves v

theorem SameProblem.refl (s : State ℚ) : SameProblem s s := ⟨rfl, rfl, fun _ => Iff.rfl⟩

theorem SameProblem.symm {s t : State ℚ} (h : SameProblem s t) : SameProblem t s :=
  ⟨h.objective.symm, h.rows.symm, fun v => (h.solves v).symm⟩

theorem SameProblem.trans {s t u : State ℚ} (hst : SameProblem s t) (htu : SameProblem t u) :
    SameProblem s u :=
  ⟨htu.objective.trans hst.objective, htu.rows.trans hst.rows,
    fun v => (htu.solves v).trans (hst.solves v)⟩

theorem SameProblem.cost {s t : State ℚ} (h : SameProblem s t) (v : Nat → ℚ) :
    t.cost v = s.cost v := by
  rw [State.cost, State.cost, h.objective]

/-- The basic solution of the state is a point without negative values. -/
structure Feasible (s : State ℚ) : Prop where
  canonical : s.Canonical
  rhs_nonneg : ∀ i < s.tableau.rows, 0 ≤ s.rhs i

theorem Exchanged.sameProblem {s t : State ℚ} {r c : Nat} (h : s.Exchanged r c t)
    (hpivot : s.tableau.entry r c ≠ 0) : SameProblem s t where
  objective := h.objective
  rows := h.rows
  solves := fun v => by
    rw [h.tableau]
    exact Tableau.solves_eliminate hpivot v

/-! ### Steps -/

/-- What a pass exchanges next: an improving column, at an entry above the tolerance. -/
theorem of_verdict_exchange {s : State ℚ} (htol : 0 ≤ settings.tolerance) {row col : Nat}
    (h : s.verdict settings sign = .exchange row col) :
    row < s.tableau.rows ∧ col < s.objective.length ∧ s.tableau.entry row col ≠ 0 := by
  obtain ⟨hprice, -, hratio⟩ := verdict_eq_exchange h
  obtain ⟨hrow, hentry, -, -⟩ := Tableau.ratioTest_eq_some hratio
  exact ⟨hrow, (price_eq_some hprice).1, (htol.trans_lt hentry).ne'⟩

theorem Canonical.exists_next {s : State ℚ} (hs : s.Canonical) (htol : 0 ≤ settings.tolerance)
    {row col : Nat} (h : s.verdict settings sign = .exchange row col) :
    ∃ next, s.exchange row col = .ok next := by
  obtain ⟨hrow, hcol, hpivot⟩ := of_verdict_exchange htol h
  obtain ⟨next, hnext, -⟩ := hs.exists_exchange hrow hcol hpivot
  exact ⟨next, hnext⟩

/-- **A step keeps a canonical basis and the problem.** -/
theorem Canonical.step {s t : State ℚ} (hs : s.Canonical) (htol : 0 ≤ settings.tolerance)
    (hstep : Step settings sign s t) : t.Canonical ∧ SameProblem s t := by
  cases hstep with
  | exchange hverdict hnext =>
      obtain ⟨hrow, hcol, hpivot⟩ := of_verdict_exchange htol hverdict
      obtain ⟨hexchanged, hcanonical⟩ := hs.of_exchange hrow hcol hpivot hnext
      obtain ⟨hobjective, hrows, hsolves⟩ := hexchanged.sameProblem hpivot
      exact ⟨hcanonical, hobjective, hrows, hsolves⟩

theorem Canonical.reaches {s t : State ℚ} (hs : s.Canonical) (htol : 0 ≤ settings.tolerance)
    (h : Reaches settings sign s t) : t.Canonical ∧ SameProblem s t := by
  induction h with
  | refl => exact ⟨hs, .refl s⟩
  | tail _ hstep ih =>
      obtain ⟨hcanonical, hsame⟩ := ih.1.step htol hstep
      exact ⟨hcanonical, ih.2.trans hsame⟩

/-- **A pass from a canonical state fails only for want of room in the counter.** -/
theorem Canonical.fault_of_improve {s : State ℚ} (hs : s.Canonical)
    (htol : 0 ≤ settings.tolerance) {phase : Phase} {room : Nat} {f : Fault}
    (h : improve settings phase sign room s = .error f) : f = .counterOverflow := by
  rcases State.fault_of_improve h with hcounter | ⟨t, row, col, hreaches, hverdict, hfault⟩
  · exact hcounter
  · obtain ⟨next, hnext⟩ := (hs.reaches htol hreaches).1.exists_next htol hverdict
    rw [hfault] at hnext
    cases hnext

/-- An exchange at the row of the exact ratio test makes no right-hand side negative. -/
theorem Canonical.rhs_nonneg_of_exchange {s t : State ℚ} (hs : s.Canonical)
    (hrhs : ∀ i < s.tableau.rows, 0 ≤ s.rhs i) {row col : Nat} (hcol : col < s.objective.length)
    (hratio : s.tableau.ratioTest col 0 = some row) (ht : s.exchange row col = .ok t) :
    ∀ i < t.tableau.rows, 0 ≤ t.rhs i := by
  obtain ⟨hrow, hpos, -, -⟩ := Tableau.ratioTest_eq_some hratio
  obtain ⟨hexchanged, -⟩ := hs.of_exchange hrow hcol hpos.ne' ht
  intro i hi
  rw [hexchanged.rows] at hi
  show 0 ≤ t.tableau.rhs i
  rw [hexchanged.tableau]
  exact Tableau.rhs_eliminate_nonneg hrhs hratio i hi

/-- **An exact step keeps the basic solution feasible.** -/
theorem Feasible.step {cap : Option Nat} {s t : State ℚ} (hs : s.Feasible)
    (hstep : Step ⟨cap, 0⟩ sign s t) : t.Feasible := by
  refine ⟨(hs.canonical.step le_rfl hstep).1, ?_⟩
  cases hstep with
  | exchange hverdict hnext =>
      obtain ⟨hprice, -, hratio⟩ := verdict_eq_exchange hverdict
      have hnonneg := hs.canonical.rhs_nonneg_of_exchange hs.rhs_nonneg (price_eq_some hprice).1
        hratio hnext
      exact hnonneg

theorem Feasible.reaches {cap : Option Nat} {s t : State ℚ} (hs : s.Feasible)
    (h : Reaches ⟨cap, 0⟩ sign s t) : t.Feasible := by
  induction h with
  | refl => exact hs
  | tail _ hstep ih => exact ih.step hstep

/-! ### Verdicts -/

/-- **At an optimal verdict no solution is better than the basic one.** -/
theorem signed_cost_le {cap : Option Nat} {s : State ℚ}
    (h : s.verdict ⟨cap, 0⟩ sign = .stop .optimal) {v : Nat → ℚ} (hv : s.tableau.Solves v)
    (hnonneg : ∀ j, 0 ≤ v j) : sign * s.cost v ≤ sign * s.objectiveValue := by
  have hprices := price_eq_none.1 (verdict_eq_optimal h)
  -- what the basic solution saves against `v`
  have hsum : 0 ≤ ∑ j ∈ Finset.range s.objective.length, sign * s.reducedCost j * v j := by
    refine Finset.sum_nonneg fun j hj => mul_nonneg ?_ (hnonneg j)
    have hj' := hprices j (Finset.mem_range.1 hj)
    rwa [neg_zero] at hj'
  have hscaled : sign * s.cost v = sign * s.objectiveValue -
      ∑ j ∈ Finset.range s.objective.length, sign * s.reducedCost j * v j := by
    rw [cost_eq hv, mul_sub, Finset.mul_sum]
    simp only [mul_assoc]
  linarith

/-- Some multiple of a positive rate exceeds a given amount. -/
theorem exists_nonneg_mul_gt {rate : ℚ} (hrate : 0 < rate) (amount : ℚ) :
    ∃ x, 0 ≤ x ∧ amount < rate * x := by
  refine ⟨|amount| / rate + 1, add_nonneg (div_nonneg (abs_nonneg _) hrate.le) zero_le_one, ?_⟩
  have hscaled : rate * (|amount| / rate + 1) = |amount| + rate := by
    field_simp
  rw [hscaled]
  linarith [le_abs_self amount]

/-- **At an unbounded verdict there are solutions beyond every bound.** -/
theorem Feasible.exists_solution_beyond {cap : Option Nat} {s : State ℚ} (hs : s.Feasible)
    (h : s.verdict ⟨cap, 0⟩ sign = .stop .unbounded) (bound : ℚ) :
    ∃ v : Nat → ℚ, (∀ j, 0 ≤ v j) ∧ s.tableau.Solves v ∧ bound < sign * s.cost v := by
  obtain ⟨c, hprice, hratio⟩ := verdict_eq_unbounded h
  obtain ⟨hc, himproves⟩ := price_eq_some hprice
  rw [neg_zero] at himproves
  -- with right-hand sides that are not negative, only the sign of an entry keeps a row out
  have hentries : ∀ i < s.tableau.rows, s.tableau.entry i c ≤ 0 := by
    intro i hi
    by_contra hpos
    have hneg := Tableau.ratioTest_eq_none.1 hratio i hi (not_le.1 hpos)
    exact absurd hneg (not_lt.2 (div_nonneg (hs.rhs_nonneg i hi) (not_le.1 hpos).le))
  obtain ⟨x, hx, hbound⟩ :=
    exists_nonneg_mul_gt (neg_pos.2 himproves) (bound - sign * s.objectiveValue)
  refine ⟨s.along c x, fun j => ?_, hs.canonical.solves_along hc x, ?_⟩
  · refine add_nonneg (basicAssignment_nonneg (fun i hi => ?_) j) ?_
    · have hdrop := mul_nonpos_of_nonneg_of_nonpos hx (hentries i hi)
      linarith [hs.rhs_nonneg i hi]
    · split
      · exact hx
      · exact le_rfl
  · rw [cost_along s hc x]
    linarith

/-! ### Passes -/

/-- What a finished exact pass leaves behind. -/
theorem Feasible.of_pass {cap : Option Nat} {s : State ℚ} (hs : s.Feasible) {phase : Phase}
    {pass : Pass ℚ} (h : s.pass ⟨cap, 0⟩ phase sign = .ok pass) :
    pass.state.Feasible ∧ SameProblem s pass.state ∧
      pass.state.verdict ⟨cap, 0⟩ sign = .stop pass.outcome := by
  obtain ⟨run, hrun, houtcome, hstate⟩ := improve_of_pass h
  obtain ⟨hreaches, hverdict⟩ := reaches_of_improve hrun
  rw [hstate, houtcome]
  exact ⟨hs.reaches hreaches, (hs.canonical.reaches le_rfl hreaches).2, hverdict⟩

/-- **An optimal pass bounds the cost of the solutions that it began with.** -/
theorem Feasible.signed_cost_le_of_pass {cap : Option Nat} {s : State ℚ} (hs : s.Feasible)
    {phase : Phase} {pass : Pass ℚ} (h : s.pass ⟨cap, 0⟩ phase sign = .ok pass)
    (houtcome : pass.outcome = .optimal) {v : Nat → ℚ} (hv : s.tableau.Solves v)
    (hnonneg : ∀ j, 0 ≤ v j) : sign * s.cost v ≤ sign * pass.state.objectiveValue := by
  obtain ⟨-, hsame, hverdict⟩ := hs.of_pass h
  rw [houtcome] at hverdict
  rw [← hsame.cost v]
  exact signed_cost_le hverdict ((hsame.solves v).2 hv) hnonneg

/-- **An unbounded pass began with solutions beyond every bound.** -/
theorem Feasible.exists_beyond_of_pass {cap : Option Nat} {s : State ℚ} (hs : s.Feasible)
    {phase : Phase} {pass : Pass ℚ} (h : s.pass ⟨cap, 0⟩ phase sign = .ok pass)
    (houtcome : pass.outcome = .unbounded) (bound : ℚ) :
    ∃ v : Nat → ℚ, (∀ j, 0 ≤ v j) ∧ s.tableau.Solves v ∧ bound < sign * s.cost v := by
  obtain ⟨hfeasible, hsame, hverdict⟩ := hs.of_pass h
  rw [houtcome] at hverdict
  obtain ⟨v, hnonneg, hv, hbound⟩ := hfeasible.exists_solution_beyond hverdict bound
  rw [hsame.cost v] at hbound
  exact ⟨v, hnonneg, (hsame.solves v).1 hv, hbound⟩

/-- A pass from a canonical state fails only for want of room in the counter. -/
theorem Canonical.fault_of_pass {s : State ℚ} (hs : s.Canonical) (htol : 0 ≤ settings.tolerance)
    {phase : Phase} {f : Fault} (h : s.pass settings phase sign = .error f) :
    f = .counterOverflow :=
  hs.fault_of_improve htol (improve_of_pass_error h)

/-- A table with a canonical basis and no negative right-hand side is a state to begin with. -/
theorem exists_feasible {objective : List ℚ} {tableau : Tableau ℚ} {basis : List Nat}
    (hcols : tableau.cols = objective.length + 1) (hbasis : tableau.IsBasis basis)
    (hrhs : ∀ i < tableau.rows, 0 ≤ tableau.rhs i) :
    ∃ s : State ℚ, ofTableau objective tableau basis = .ok s ∧ s.objective = objective ∧
      s.tableau = tableau ∧ s.basis = basis ∧ s.Feasible := by
  obtain ⟨s, hs, hobjective, htableau, hset, -⟩ := exists_ofTableau hcols hbasis
  refine ⟨s, hs, hobjective, htableau, hset, ?_, ?_⟩
  · rw [Canonical, htableau, hset]
    exact hbasis
  · intro i hi
    rw [htableau] at hi
    rw [State.rhs, htableau]
    exact hrhs i hi

end State

end SimplexMethod
