import SimplexMethod.Proofs.Feasible

/-!
# SimplexMethod.Proofs.Expulsion

**Expelling artificial variables loses nothing.** When the sum of the artificial variables is zero,
those still basic have a right-hand side of zero. `State.Expelling` is the invariant
of the loop that removes them: the rows before the current one are done with, every
artificial variable that is still basic is at zero, and the solutions without
artificial variables are those of the equations that the loop began with.

A row is replaced or erased without harm for the same reason. Its right-hand side is
zero, so an exchange there moves no right-hand side whatever the sign of the entry;
and if all its other entries are zero, then without artificial variables it only
says that zero is zero.
-/

namespace SimplexMethod.State

/-! ### What is done to a row -/

section Expulsion

variable {s : State ℚ} {first i : Nat} {tolerance : ℚ}

theorem expulsion_eq_keep (h : s.expulsion first tolerance i = .keep) :
    s.basis.getD i 0 < first := by
  unfold expulsion at h
  split at h
  · assumption
  · split at h <;> cases h

theorem expulsion_eq_exchange {j : Nat} (h : s.expulsion first tolerance i = .exchange j) :
    first ≤ s.basis.getD i 0 ∧ j < first ∧ tolerance < |s.tableau.entry i j| := by
  unfold expulsion at h
  split at h
  · cases h
  · next hbasic =>
    split at h
    · next k hreplacement =>
      cases h
      have hmem := List.mem_of_find?_eq_some hreplacement
      have hentry := List.find?_some hreplacement
      rw [decide_eq_true_eq, magnitude_eq_abs] at hentry
      exact ⟨not_lt.1 hbasic, List.mem_range.1 hmem, hentry⟩
    · cases h

theorem expulsion_eq_erase (h : s.expulsion first tolerance i = .erase) :
    first ≤ s.basis.getD i 0 ∧ ∀ j < first, |s.tableau.entry i j| ≤ tolerance := by
  unfold expulsion at h
  split at h
  · cases h
  · next hbasic =>
    split at h
    · cases h
    · next hreplacement =>
      refine ⟨not_lt.1 hbasic, fun j hj => ?_⟩
      have hentry := List.find?_eq_none.1 hreplacement j (List.mem_range.2 hj)
      rw [decide_eq_true_eq, magnitude_eq_abs] at hentry
      exact not_lt.1 hentry

end Expulsion

/-- **What one round does**, at a canonical basis and under any tolerance that is not negative. -/
theorem Canonical.expelAt_cases {s : State ℚ} (hs : s.Canonical) {first i : Nat} {tolerance : ℚ}
    (htol : 0 ≤ tolerance) (hi : i < s.tableau.rows) (hfirst : first ≤ s.objective.length) :
    (s.basis.getD i 0 < first ∧ s.expelAt first tolerance i = .ok (i + 1, s)) ∨
      (∃ j t, first ≤ s.basis.getD i 0 ∧ j < first ∧ s.tableau.entry i j ≠ 0 ∧
        s.expulsion first tolerance i = .exchange j ∧ s.Exchanged i j t ∧ t.Canonical ∧
        s.expelAt first tolerance i = .ok (i + 1, t.withRhs i 0)) ∨
      (first ≤ s.basis.getD i 0 ∧ (∀ j < first, |s.tableau.entry i j| ≤ tolerance) ∧
        s.expelAt first tolerance i = .ok (i, s.eraseRow i)) := by
  unfold State.expelAt
  cases hexpulsion : s.expulsion first tolerance i with
  | keep => exact Or.inl ⟨expulsion_eq_keep hexpulsion, rfl⟩
  | exchange j =>
      obtain ⟨hbasic, hj, hentry⟩ := expulsion_eq_exchange hexpulsion
      have hpivot : s.tableau.entry i j ≠ 0 := abs_pos.1 (htol.trans_lt hentry)
      obtain ⟨t, ht, hexchanged, hcanonical⟩ :=
        hs.exists_exchange hi (hj.trans_le hfirst) hpivot
      refine Or.inr (Or.inl ⟨j, t, hbasic, hj, hpivot, rfl, hexchanged, hcanonical, ?_⟩)
      simp only [ht]
      rfl
  | erase =>
      obtain ⟨hbasic, hentries⟩ := expulsion_eq_erase hexpulsion
      exact Or.inr (Or.inr ⟨hbasic, hentries, rfl⟩)

theorem rows_eraseRow {s : State ℚ} {i : Nat} (hi : i < s.tableau.rows) :
    (s.eraseRow i).tableau.rows = s.tableau.rows - 1 := Tableau.rows_eraseRow hi

theorem getD_basis_eraseRow (s : State ℚ) (i k : Nat) :
    (s.eraseRow i).basis.getD k 0 = s.basis.getD (Tableau.rowBefore i k) 0 :=
  Tableau.getD_eraseIdx s.basis i k

/-- Writing down the right-hand side that a row has already changes nothing. -/
theorem withRhs_self {s : State ℚ} {i : Nat} {x : ℚ} (h : s.rhs i = x) : s.withRhs i x = s := by
  obtain ⟨objective, tableau, basis, iterations, hcols, hbasis, hlt⟩ := s
  have htableau : tableau.set i (tableau.cols - 1) x = tableau := Tableau.set_rhs_self h
  simp only [withRhs, htableau]

/-! ### Right-hand sides -/

/-- No right-hand side is negative, and it is zero where an artificial column is basic. Columns from
`first` on are the artificial ones. -/
structure Level (first : Nat) (s : State ℚ) : Prop where
  nonneg : ∀ k < s.tableau.rows, 0 ≤ s.rhs k
  zero : ∀ k < s.tableau.rows, first ≤ s.basis.getD k 0 → s.rhs k = 0

namespace Level

variable {first i : Nat} {s : State ℚ}

/-- **A row at zero can be exchanged at an entry of any sign**, since only multiples of zero are
subtracted from the other right-hand sides. -/
theorem exchange (h : Level first s) (hs : s.Canonical) (hi : i < s.tableau.rows)
    (hbasic : first ≤ s.basis.getD i 0) {j : Nat} (hj : j < first)
    (hpivot : s.tableau.entry i j ≠ 0) {t : State ℚ} (hexchanged : s.Exchanged i j t) :
    Level first t ∧ t.rhs i = 0 := by
  have hzero := h.zero i hi hbasic
  have hrows := hexchanged.rows
  have hrhs : ∀ k < s.tableau.rows, t.rhs k = s.rhs k := by
    intro k hk
    rw [State.rhs, hexchanged.tableau]
    exact Tableau.rhs_eliminate_of_zero hpivot hzero k
  refine ⟨⟨fun k hk => ?_, fun k hk hartificial => ?_⟩, (hrhs i hi).trans hzero⟩
  · rw [hrows] at hk
    rw [hrhs k hk]
    exact h.nonneg k hk
  · rw [hrows] at hk
    rw [hexchanged.basis, hs.getD_set hk] at hartificial
    rw [hrhs k hk]
    split at hartificial
    · omega
    · exact h.zero k hk hartificial

theorem erase (h : Level first s) (hi : i < s.tableau.rows) : Level first (s.eraseRow i) := by
  have hrows := rows_eraseRow hi
  have hrhs : ∀ k < s.tableau.rows - 1,
      (s.eraseRow i).rhs k = s.rhs (Tableau.rowBefore i k) :=
    fun k hk => Tableau.rhs_eraseRow hi hk s.cols_pos
  constructor
  · intro k hk
    rw [hrows] at hk
    rw [hrhs k hk]
    exact h.nonneg _ (Tableau.rowBefore_lt hk)
  · intro k hk hartificial
    rw [hrows] at hk
    rw [getD_basis_eraseRow] at hartificial
    rw [hrhs k hk]
    exact h.zero _ (Tableau.rowBefore_lt hk) hartificial

/-- One round of the loop, under any tolerance that is not negative. -/
theorem expelAt (h : Level first s) (hs : s.Canonical) {tolerance : ℚ} (htol : 0 ≤ tolerance)
    (hi : i < s.tableau.rows) (hfirst : first ≤ s.objective.length) {next : Nat} {t : State ℚ}
    (hround : s.expelAt first tolerance i = .ok (next, t)) : Level first t := by
  rcases hs.expelAt_cases htol hi hfirst with ⟨-, hkeep⟩ |
    ⟨j, u, hbasic, hj, hpivot, -, hexchanged, -, hexchange⟩ | ⟨-, -, herase⟩
  · rw [hkeep] at hround
    cases hround
    exact h
  · obtain ⟨hlevel, hzero⟩ := h.exchange hs hi hbasic hj hpivot hexchanged
    rw [hexchange, withRhs_self hzero] at hround
    cases hround
    exact hlevel
  · rw [herase] at hround
    cases hround
    exact h.erase hi

end Level

/-! ### The loop -/

/-- The rows before `i` have no artificial column in the basis any more, and nothing else has been
lost. Columns from `first` on are the artificial ones. -/
structure Expelling (original : Tableau ℚ) (first i : Nat) (s : State ℚ) : Prop where
  feasible : s.Feasible
  first_le : first ≤ s.objective.length
  done : ∀ k < i, s.basis.getD k 0 < first
  level : ∀ k < s.tableau.rows, first ≤ s.basis.getD k 0 → s.rhs k = 0
  solves : ∀ v, s.tableau.Solves (upTo first v) ↔ original.Solves (upTo first v)

namespace Expelling

variable {original : Tableau ℚ} {first i : Nat} {s : State ℚ}

theorem rhs_level (h : Expelling original first i s) : Level first s :=
  ⟨h.feasible.rhs_nonneg, h.level⟩

/-- A row whose basic column is no artificial one is done with. -/
theorem keep (h : Expelling original first i s) (hbasic : s.basis.getD i 0 < first) :
    Expelling original first (i + 1) s := by
  refine ⟨h.feasible, h.first_le, fun k hk => ?_, h.level, h.solves⟩
  rcases Nat.lt_succ_iff_lt_or_eq.1 hk with hlt | rfl
  · exact h.done k hlt
  · exact hbasic

/-- **An artificial column is replaced**, at an entry of any sign. -/
theorem exchange (h : Expelling original first i s) (hi : i < s.tableau.rows)
    (hbasic : first ≤ s.basis.getD i 0) {j : Nat} (hj : j < first)
    (hpivot : s.tableau.entry i j ≠ 0) {t : State ℚ} (hexchanged : s.Exchanged i j t)
    (hcanonical : t.Canonical) : Expelling original first (i + 1) t ∧ t.rhs i = 0 := by
  obtain ⟨hlevel, hzero⟩ :=
    h.rhs_level.exchange h.feasible.canonical hi hbasic hj hpivot hexchanged
  refine ⟨⟨⟨hcanonical, hlevel.nonneg⟩, ?_, fun k hk => ?_, hlevel.zero, fun v => ?_⟩, hzero⟩
  · rw [hexchanged.objective]
    exact h.first_le
  · rw [hexchanged.basis, h.feasible.canonical.getD_set (by omega)]
    split
    · exact hj
    · exact h.done k (by omega)
  · rw [← h.solves v, hexchanged.tableau]
    exact Tableau.solves_eliminate hpivot _

/-- **A row without entries of its own is erased.** -/
theorem erase (h : Expelling original first i s) (hi : i < s.tableau.rows)
    (hbasic : first ≤ s.basis.getD i 0) (hentries : ∀ j < first, s.tableau.entry i j = 0) :
    Expelling original first i (s.eraseRow i) := by
  obtain ⟨hnonneg, hzero⟩ := h.rhs_level.erase hi
  refine ⟨⟨h.feasible.canonical.eraseRow hi, hnonneg⟩, h.first_le, fun k hk => ?_, hzero,
    fun v => ?_⟩
  · rw [getD_basis_eraseRow, Tableau.rowBefore_of_lt hk]
    exact h.done k hk
  · -- the erased equation has become `0 = 0`
    have hrow : s.tableau.rowSum (upTo first v) i = s.tableau.rhs i := by
      rw [rowSum_eq, sum_mul_upTo h.first_le, show s.tableau.rhs i = 0 from h.level i hi hbasic]
      refine Finset.sum_eq_zero fun j hj => ?_
      rw [hentries j (Finset.mem_range.1 hj), zero_mul]
    rw [← h.solves v]
    refine (Tableau.solves_eraseRow hi s.cols_pos _).trans
      ⟨fun hothers k hk => ?_, fun hall k hk _ => ?_⟩
    · by_cases hki : k = i
      · rw [hki]
        exact hrow
      · exact hothers k hk hki
    · exact hall k hk

/-- **One round of the loop**, which brings it one row closer to the end. -/
theorem expelAt (h : Expelling original first i s) {left : Nat}
    (hrows : s.tableau.rows = i + (left + 1)) :
    ∃ k t, s.expelAt first 0 i = .ok (k, t) ∧ Expelling original first k t ∧
      t.tableau.rows = k + left := by
  have hi : i < s.tableau.rows := by omega
  rcases h.feasible.canonical.expelAt_cases le_rfl hi h.first_le with ⟨hbasic, hkeep⟩ |
    ⟨j, t, hbasic, hj, hpivot, -, hexchanged, hcanonical, hexchange⟩ | ⟨hbasic, hentries, herase⟩
  · exact ⟨i + 1, s, hkeep, h.keep hbasic, by omega⟩
  · obtain ⟨hnext, hzero⟩ := h.exchange hi hbasic hj hpivot hexchanged hcanonical
    rw [withRhs_self hzero] at hexchange
    refine ⟨i + 1, t, hexchange, hnext, ?_⟩
    rw [hexchanged.rows]
    omega
  · have hnext := h.erase hi hbasic fun j hj => abs_nonpos_iff.1 (hentries j hj)
    refine ⟨i, s.eraseRow i, herase, hnext, ?_⟩
    rw [rows_eraseRow hi]
    omega

/-- **The whole loop** never fails and leaves no row to be done with. -/
theorem expelArtificials (h : Expelling original first i s) {left : Nat}
    (hrows : s.tableau.rows = i + left) :
    ∃ t, State.expelArtificials first 0 left i s = .ok t ∧
      Expelling original first t.tableau.rows t := by
  induction left generalizing i s with
  | zero =>
      refine ⟨s, rfl, ?_⟩
      rw [hrows]
      exact h
  | succ left ih =>
      obtain ⟨k, t, hround, hnext, hrows'⟩ := h.expelAt hrows
      obtain ⟨u, hu, hdone⟩ := ih hnext hrows'
      refine ⟨u, ?_, hdone⟩
      unfold State.expelArtificials
      rw [hround]
      exact hu

end Expelling

end SimplexMethod.State
