import SimplexMethod.Proofs.Cycling
import SimplexMethod.Proofs.Pivots

/-!
# SimplexMethod.Proofs.Determined

**The basic columns determine the state.** Two states of one problem whose basic columns are the
same say the same, row by row and column by column; only the order of their rows may differ. So it
does not matter by which pivots a basis was reached.

The argument never looks at a pivot. Raising a column of the first state from its basic solution
gives solutions of the equations (`State.along`), and these are solutions of the second state's
equations too. A row of the second state, read at such a point, sees just its own basic column and
the raised one, because all other basic columns of the first state are basic in another of its rows
(`SameBasis.sum_along`). With the raise at zero and at one this gives the right-hand side and the
entry of the row, and read in the same way the costs give the objective value and the reduced costs.
-/

namespace SimplexMethod.State

variable {s t u : State ℚ} {i j k c : Nat}

/-! ### States of one problem with one basis -/

/-- Two canonical states of one problem, in which the same columns are basic. -/
structure SameBasis (t u : State ℚ) : Prop where
  canonical : t.Canonical
  canonical_right : u.Canonical
  same : SameProblem t u
  basis : ∀ b, b ∈ t.basis ↔ b ∈ u.basis

namespace SameBasis

theorem symm (h : SameBasis t u) : SameBasis u t :=
  ⟨h.canonical_right, h.canonical, h.same.symm, fun b => (h.basis b).symm⟩

/-- The column that is basic in a row of `t` is basic in a row of `u`. -/
theorem exists_row (h : SameBasis t u) (hi : i < t.tableau.rows) :
    ∃ k < u.tableau.rows, u.basis.getD k 0 = t.basis.getD i 0 := by
  have hlt : i < t.basis.length := h.canonical.length ▸ hi
  have hmem : t.basis.getD i 0 ∈ t.basis := by
    rw [List.getD_eq_getElem _ _ hlt]
    exact List.getElem_mem hlt
  exact h.canonical_right.exists_of_mem ((h.basis _).1 hmem)

/-- A row of `u` has, of all basic columns of `t`, just its own. -/
theorem entry_basic (h : SameBasis t u) (hi : i < t.tableau.rows) (hk : k < u.tableau.rows)
    (hrow : u.basis.getD k 0 = t.basis.getD i 0) {l : Nat} (hl : l < t.tableau.rows) :
    u.tableau.entry k (t.basis.getD l 0) = if l = i then 1 else 0 := by
  obtain ⟨m, hm, heq⟩ := h.exists_row hl
  rw [← heq, h.canonical_right.unit m hm k hk]
  refine if_congr ⟨fun hkm => ?_, fun hli => ?_⟩ rfl rfl
  · exact h.canonical.injective hl hi (by rw [← heq, ← hkm, hrow])
  · exact h.canonical_right.injective hk hm (by rw [hrow, heq, hli])

/-- **Matching rows read alike** at every point that is reached by raising a column. -/
theorem sum_along (h : SameBasis t u) (hi : i < t.tableau.rows) (hk : k < u.tableau.rows)
    (hrow : u.basis.getD k 0 = t.basis.getD i 0) (hc : c < t.objective.length) (x : ℚ) :
    t.rhs i - x * t.tableau.entry i c + u.tableau.entry k c * x = u.rhs k := by
  have hsolves := (h.same.solves _).2 (h.canonical.solves_along hc x) k hk
  rw [rowSum_eq, h.same.objective, sum_mul_along t hc x, Finset.sum_eq_single i] at hsolves
  · rwa [h.entry_basic hi hk hrow hi, if_pos rfl, one_mul] at hsolves
  · intro l hl hli
    rw [h.entry_basic hi hk hrow (Finset.mem_range.1 hl), if_neg hli, zero_mul]
  · intro hout
    exact absurd (Finset.mem_range.2 hi) hout

/-- There is a column to raise in every row, its basic one. -/
theorem rhs_eq (h : SameBasis t u) (hi : i < t.tableau.rows) (hk : k < u.tableau.rows)
    (hrow : u.basis.getD k 0 = t.basis.getD i 0) : u.rhs k = t.rhs i := by
  have hread := h.sum_along hi hk hrow (t.basis_getD_lt hi) 0
  linarith

/-- **Matching rows have the same entries.** -/
theorem entry_eq (h : SameBasis t u) (hi : i < t.tableau.rows) (hk : k < u.tableau.rows)
    (hrow : u.basis.getD k 0 = t.basis.getD i 0) (j : Nat) :
    u.tableau.entry k j = t.tableau.entry i j := by
  have hcols : u.tableau.cols = t.tableau.cols := by
    rw [u.cols_tableau, t.cols_tableau, h.same.objective]
  rcases lt_trichotomy j t.objective.length with hj | rfl | hj
  · have hread := h.sum_along hi hk hrow hj 1
    rw [h.rhs_eq hi hk hrow] at hread
    linarith
  · have hlast := h.rhs_eq hi hk hrow
    rwa [rhs, rhs, Tableau.rhs, Tableau.rhs, hcols, t.cols_tableau, Nat.add_sub_cancel] at hlast
  · -- to the right of the right-hand side there is nothing
    have hout : ¬j < t.tableau.cols := by rw [t.cols_tableau]; omega
    rw [Tableau.entry_of_not_lt fun hin => hout hin.2,
      Tableau.entry_of_not_lt fun hin => hout (hcols ▸ hin.2)]

theorem row_eq (h : SameBasis t u) (hi : i < t.tableau.rows) (hk : k < u.tableau.rows)
    (hrow : u.basis.getD k 0 = t.basis.getD i 0) : u.tableau.row k = t.tableau.row i := by
  rw [Tableau.row, Tableau.row, u.cols_tableau, t.cols_tableau, h.same.objective]
  exact List.map_congr_left fun j _ => h.entry_eq hi hk hrow j

/-! ### Costs and values -/

theorem objectiveValue_eq (h : SameBasis t u) : u.objectiveValue = t.objectiveValue :=
  h.canonical.objectiveValue_eq_of_subset h.canonical_right h.same fun b => (h.basis b).2

/-- **The reduced costs are the same**, since the cost changes alike along every column. -/
theorem reducedCost_eq (h : SameBasis t u) (hc : c < t.objective.length) :
    u.reducedCost c = t.reducedCost c := by
  have hcost := cost_eq ((h.same.solves _).2 (h.canonical.solves_along hc 1))
  have hbasic : ∑ l ∈ Finset.range t.tableau.rows,
      u.reducedCost (t.basis.getD l 0) * (t.rhs l - 1 * t.tableau.entry l c) = 0 := by
    refine Finset.sum_eq_zero fun l hl => ?_
    obtain ⟨m, hm, heq⟩ := h.exists_row (Finset.mem_range.1 hl)
    rw [← heq, h.canonical_right.reducedCost_basic hm, zero_mul]
  rw [h.same.cost, cost_along t hc, h.same.objective, sum_mul_along t hc, hbasic,
    h.objectiveValue_eq] at hcost
  linarith

theorem reducedCosts_eq (h : SameBasis t u) : u.reducedCosts = t.reducedCosts := by
  rw [reducedCosts, reducedCosts, h.same.objective]
  exact List.map_congr_left fun c hc => h.reducedCost_eq (List.mem_range.1 hc)

theorem value_eq (h : SameBasis t u) (j : Nat) : u.value j = t.value j := by
  unfold value
  cases hrow : t.lastRowOf j with
  | some i =>
      obtain ⟨hi, hbasic⟩ := lastRowOf_eq_some hrow
      obtain ⟨k, hk, heq⟩ := h.exists_row hi
      cases hrow' : u.lastRowOf j with
      | some l =>
          obtain ⟨hl, hbasic'⟩ := lastRowOf_eq_some hrow'
          exact congrArg (· + 0) (h.rhs_eq hi hl (hbasic'.trans hbasic.symm))
      | none => exact absurd (heq.trans hbasic) (lastRowOf_eq_none hrow' hk)
  | none =>
      cases hrow' : u.lastRowOf j with
      | some l =>
          obtain ⟨hl, hbasic'⟩ := lastRowOf_eq_some hrow'
          obtain ⟨k, hk, heq⟩ := h.symm.exists_row hl
          exact absurd (heq.trans hbasic') (lastRowOf_eq_none hrow hk)
      | none => rfl

theorem ofState_eq (h : SameBasis t u) (status : Status) (variableCount iterations : Nat) :
    Solution.ofState status u variableCount iterations =
      Solution.ofState status t variableCount iterations := by
  rw [Solution.ofState, Solution.ofState, h.objectiveValue_eq, h.reducedCosts_eq,
    h.same.objective, funext h.value_eq]

end SameBasis

/-! ### Rows in any order -/

/-- Each row of the table together with the column that is basic in it. -/
def basicRows (s : State ℚ) : List (Nat × List ℚ) := s.basis.zip s.tableau.toRows

theorem mem_basicRows {b : Nat} {row : List ℚ} :
    (b, row) ∈ s.basicRows ↔
      ∃ i < s.tableau.rows, s.basis.getD i 0 = b ∧ s.tableau.row i = row := by
  rw [basicRows, List.mem_iff_getElem]
  constructor
  · rintro ⟨i, hi, heq⟩
    have hi' : i < s.basis.length ∧ i < s.tableau.rows := by simpa using hi
    rw [List.getElem_zip, Prod.mk.injEq] at heq
    refine ⟨i, hi'.2, ?_, ?_⟩
    · rw [List.getD_eq_getElem _ _ hi'.1, heq.1]
    · rw [← heq.2]
      simp [Tableau.toRows]
  · rintro ⟨i, hi, rfl, rfl⟩
    have hi' : i < s.basis.length := s.length_basis ▸ hi
    refine ⟨i, by simpa using ⟨hi', hi⟩, ?_⟩
    rw [List.getElem_zip, List.getD_eq_getElem _ _ hi']
    simp [Tableau.toRows]

theorem Canonical.nodup_basicRows (hs : s.Canonical) : s.basicRows.Nodup := by
  refine List.Nodup.of_map Prod.fst ?_
  rw [basicRows, List.map_fst_zip (by simp [s.length_basis])]
  exact hs.nodup

theorem SameBasis.mem_basicRows (h : SameBasis t u) {row : Nat × List ℚ}
    (hrow : row ∈ t.basicRows) : row ∈ u.basicRows := by
  obtain ⟨i, hi, hb, hr⟩ := State.mem_basicRows.1 hrow
  obtain ⟨k, hk, heq⟩ := h.exists_row hi
  exact State.mem_basicRows.2 ⟨k, hk, heq.trans hb, (h.row_eq hi hk heq).trans hr⟩

/-- **The tables are the same up to the order of their rows.** -/
theorem SameBasis.perm_basicRows (h : SameBasis t u) : t.basicRows.Perm u.basicRows :=
  (List.perm_ext_iff_of_nodup h.canonical.nodup_basicRows h.canonical_right.nodup_basicRows).2
    fun _ => ⟨h.mem_basicRows, h.symm.mem_basicRows⟩

/-! ### Pivots in any order -/

theorem Canonical.sameBasis_of_pivots (hs : s.Canonical) (ht : s.Pivots t) (hu : s.Pivots u)
    (hbasis : t.basis.toFinset = u.basis.toFinset) : SameBasis t u := by
  obtain ⟨hcanonical, hsame⟩ := hs.pivots ht
  obtain ⟨hcanonical', hsame'⟩ := hs.pivots hu
  refine ⟨hcanonical, hcanonical', hsame.symm.trans hsame', fun b => ?_⟩
  rw [← List.mem_toFinset, hbasis, List.mem_toFinset]

/-- **A basis determines the state.** Whatever pivots lead from a canonical state to two states in
which the same columns are basic, the rows of the two belong together by their basic columns, and
rows that belong together are equal. Reduced costs, objective value and the solution read off are
equal. -/
theorem Canonical.determined_of_pivots (hs : s.Canonical) (ht : s.Pivots t) (hu : s.Pivots u)
    (hbasis : t.basis.toFinset = u.basis.toFinset) :
    t.tableau.rows = u.tableau.rows ∧ t.tableau.cols = u.tableau.cols ∧
      (∀ i < t.tableau.rows, ∃ k < u.tableau.rows, u.basis.getD k 0 = t.basis.getD i 0) ∧
      (∀ i < t.tableau.rows, ∀ k < u.tableau.rows, u.basis.getD k 0 = t.basis.getD i 0 →
        u.tableau.row k = t.tableau.row i) ∧
      t.basicRows.Perm u.basicRows ∧ u.reducedCosts = t.reducedCosts ∧
      u.objectiveValue = t.objectiveValue ∧
      ∀ status variableCount iterations,
        Solution.ofState status u variableCount iterations =
          Solution.ofState status t variableCount iterations := by
  have hboth := hs.sameBasis_of_pivots ht hu hbasis
  have hcols : t.tableau.cols = u.tableau.cols := by
    rw [t.cols_tableau, u.cols_tableau, hboth.same.objective]
  exact ⟨hboth.same.rows.symm, hcols, fun i hi => hboth.exists_row hi,
    fun i hi k hk hrow => hboth.row_eq hi hk hrow, hboth.perm_basicRows,
    hboth.reducedCosts_eq, hboth.objectiveValue_eq, hboth.ofState_eq⟩

/-- Both variables are made basic, in both orders. The rows change places, and on the second way
there is a negative right-hand side. -/
theorem determined_of_pivots_both_orders :
    let s : State ℚ := ⟨[1, 2, 0, 0], ⟨2, 5, #[1, 1, 1, 0, 4, 1, 3, 0, 1, 6], rfl⟩, [2, 3], 0, rfl,
      rfl, by decide⟩
    let t : State ℚ := ⟨[1, 2, 0, 0],
      ⟨2, 5, #[1, 0, 3 / 2, -1 / 2, 3, 0, 1, -1 / 2, 1 / 2, 1], rfl⟩, [0, 1], 0, rfl, rfl,
      by decide⟩
    let u : State ℚ := ⟨[1, 2, 0, 0],
      ⟨2, 5, #[0, 1, -1 / 2, 1 / 2, 1, 1, 0, 3 / 2, -1 / 2, 3], rfl⟩, [1, 0], 0, rfl, rfl,
      by decide⟩
    s.Canonical ∧ s.Pivots t ∧ s.Pivots u ∧ t.basis.toFinset = u.basis.toFinset ∧
      t.tableau ≠ u.tableau ∧ t.basicRows.Perm u.basicRows ∧ u.reducedCosts = t.reducedCosts ∧
      u.objectiveValue = t.objectiveValue := by
  intro s t u
  have hs : s.Canonical := ⟨rfl, by decide, by decide +kernel⟩
  -- the state after the first pivot of each of the two ways
  let t₀ : State ℚ := ⟨[1, 2, 0, 0], ⟨2, 5, #[1, 1, 1, 0, 4, 0, 2, -1, 1, 2], rfl⟩, [0, 3], 0, rfl,
    rfl, by decide⟩
  let u₀ : State ℚ := ⟨[1, 2, 0, 0], ⟨2, 5, #[0, -2, 1, -1, -2, 1, 3, 0, 1, 6], rfl⟩, [2, 0], 0,
    rfl, rfl, by decide⟩
  have ht₀ : s.exchange 0 0 = .ok t₀ := by decide +kernel
  have ht₁ : t₀.exchange 1 1 = .ok t := by decide +kernel
  have hu₀ : s.exchange 1 0 = .ok u₀ := by decide +kernel
  have hu₁ : u₀.exchange 0 1 = .ok u := by decide +kernel
  have ht : s.Pivots t := .tail (.single (.exchange (by decide +kernel) ht₀))
    (.exchange (by decide +kernel) ht₁)
  have hu : s.Pivots u := .tail (.single (.exchange (by decide +kernel) hu₀))
    (.exchange (by decide +kernel) hu₁)
  have hbasis : t.basis.toFinset = u.basis.toFinset := by decide
  obtain ⟨-, -, -, -, hrows, hcosts, hvalue, -⟩ := hs.determined_of_pivots ht hu hbasis
  exact ⟨hs, ht, hu, hbasis, by decide +kernel, hrows, hcosts, hvalue⟩

end SimplexMethod.State
