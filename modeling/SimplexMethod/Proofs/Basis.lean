import SimplexMethod.Proofs.Repair

/-!
# SimplexMethod.Proofs.Basis

**Canonical bases.** `Tableau.IsBasis` says that the column recorded for a row is that row's unit
column and not the right-hand side. It is the invariant under which the repair of
a basis has nothing to do, so that an exchange is one elimination step and
nothing else:

* `IsBasis.repair_eq`: a canonical basis is left alone, tableau included;
* `IsBasis.eliminate`: an exchange at an entry that is not zero makes a canonical
  basis out of a canonical basis;
* `State.Canonical.exists_exchange`: between canonical states an exchange never
  fails, and `State.Exchanged` lists all that it does.

No sign of any right-hand side is assumed.
-/

namespace SimplexMethod

namespace Tableau

/-! ### Unit columns -/

theorem isUnitAt_iff {t : Tableau ℚ} {i j : Nat} {x : ℚ} :
    t.isUnitAt i j x = true ↔
      t.entry i j = x ∧ ∀ k < t.rows, k ≠ i → t.entry k j = 0 := by
  simp only [isUnitAt, Bool.and_eq_true, beq_iff_eq, List.all_eq_true, List.mem_range,
    Bool.or_eq_true, or_iff_not_imp_left, ne_eq]

/-- Each row has a unit column of its own, which the basis records. -/
structure IsBasis (t : Tableau ℚ) (basis : List Nat) : Prop where
  length : basis.length = t.rows
  lt : ∀ i < t.rows, basis.getD i 0 < t.cols - 1
  unit : ∀ i < t.rows, ∀ k < t.rows, t.entry k (basis.getD i 0) = if k = i then 1 else 0

namespace IsBasis

variable {t : Tableau ℚ} {basis : List Nat}

theorem lt_of_mem (h : t.IsBasis basis) {b : Nat} (hb : b ∈ basis) : b < t.cols - 1 := by
  obtain ⟨i, hi, rfl⟩ := List.getElem_of_mem hb
  have hlt := h.lt i (h.length ▸ hi)
  rwa [List.getD_eq_getElem _ _ hi] at hlt

/-- No two rows share their column, since its entry in one of them is one and in the other zero. -/
theorem injective (h : t.IsBasis basis) {i k : Nat} (hi : i < t.rows) (hk : k < t.rows)
    (heq : basis.getD i 0 = basis.getD k 0) : i = k := by
  by_contra hne
  have hone := h.unit i hi i hi
  rw [heq, h.unit k hk i hi, if_neg hne, if_pos rfl] at hone
  exact zero_ne_one hone

theorem nodup (h : t.IsBasis basis) : basis.Nodup := by
  rw [List.nodup_iff_injective_getElem]
  intro i k heq
  have hi : i.1 < t.rows := h.length ▸ i.2
  have hk : k.1 < t.rows := h.length ▸ k.2
  refine Fin.ext (h.injective hi hk ?_)
  rw [List.getD_eq_getElem _ _ i.2, List.getD_eq_getElem _ _ k.2]
  exact heq

/-! ### Repair -/

/-- **A canonical basis needs no repair.** -/
theorem repair_eq (h : t.IsBasis basis) : t.repair basis = (t, basis) := by
  refine repair_eq_self h.length fun i hi => ?_
  have hunit : t.isUnitAt i (basis.getD i 0) 1 = true := by
    refine isUnitAt_iff.2 ⟨?_, fun k hk hki => ?_⟩
    · rw [h.unit i hi i hi, if_pos rfl]
    · rw [h.unit i hi k hk, if_neg hki]
  rw [rowRepair, if_pos hunit]

/-! ### Exchange -/

theorem getD_set (h : t.IsBasis basis) {r c i : Nat} (hi : i < t.rows) :
    (basis.set r c).getD i 0 = if i = r then c else basis.getD i 0 := by
  have hlen : i < basis.length := h.length ▸ hi
  rw [List.getD_eq_getElem _ _ (by simpa using hlen), List.getElem_set,
    List.getD_eq_getElem _ _ hlen]
  simp only [eq_comm]

/-- **An exchange keeps the basis canonical.** The entering column becomes the unit column of its
row, and the columns of the other rows are zero there, so they are not touched. -/
theorem eliminate (h : t.IsBasis basis) {r c : Nat} (hr : r < t.rows) (hc : c < t.cols - 1)
    (hpivot : t.entry r c ≠ 0) : (t.eliminate r c).IsBasis (basis.set r c) where
  length := by rw [List.length_set, h.length, rows_eliminate]
  lt := by
    intro i hi
    rw [h.getD_set hi, cols_eliminate]
    split
    · exact hc
    · exact h.lt i hi
  unit := by
    intro i hi k hk
    rw [h.getD_set hi]
    by_cases hir : i = r
    · rw [if_pos hir, entry_eliminate_exact hpivot, hir]
      split
      · exact div_self hpivot
      · rw [div_self hpivot, mul_one, sub_self]
    · -- the column of another row is zero in row `r`, so no multiple of it is subtracted
      have hrow : t.entry r (basis.getD i 0) = 0 := by
        rw [h.unit i hi r hr, if_neg (Ne.symm hir)]
      rw [if_neg hir, entry_eliminate_exact hpivot, hrow, zero_div, mul_zero, sub_zero]
      by_cases hkr : k = r
      · rw [if_pos hkr, if_neg (by omega)]
      · rw [if_neg hkr]
        exact h.unit i hi k hk

/-- Without a row and its column the basis is canonical for what is left. -/
theorem eraseRow (h : t.IsBasis basis) {r : Nat} (hr : r < t.rows) :
    (t.eraseRow r).IsBasis (basis.eraseIdx r) where
  length := by
    rw [rows_eraseRow hr, List.length_eraseIdx_of_lt (h.length ▸ hr), h.length]
  lt := by
    intro i hi
    rw [rows_eraseRow hr] at hi
    rw [getD_eraseIdx, cols_eraseRow]
    exact h.lt _ (rowBefore_lt hi)
  unit := by
    intro i hi k hk
    rw [rows_eraseRow hr] at hi hk
    have hlt := h.lt _ (rowBefore_lt (r := r) hi)
    rw [getD_eraseIdx, entry_eraseRow hr hk (by omega)]
    exact (h.unit _ (rowBefore_lt hi) _ (rowBefore_lt hk)).trans (if_congr rowBefore_inj rfl rfl)

end IsBasis

end Tableau

/-! ### States -/

namespace State

/-- The basis of the state is canonical. -/
def Canonical (s : State ℚ) : Prop := s.tableau.IsBasis s.basis

/-- The state `t` is `s` after column `c` has become basic in row `r`, by one elimination step. -/
structure Exchanged (s : State ℚ) (r c : Nat) (t : State ℚ) : Prop where
  objective : t.objective = s.objective
  tableau : t.tableau = s.tableau.eliminate r c
  basis : t.basis = s.basis.set r c
  iterations : t.iterations = s.iterations

theorem Exchanged.rows {s t : State ℚ} {r c : Nat} (h : s.Exchanged r c t) :
    t.tableau.rows = s.tableau.rows := by
  rw [h.tableau, Tableau.rows_eliminate]

/-- A table with a canonical basis is a state as it is. -/
theorem exists_settle {objective : List ℚ} {tableau : Tableau ℚ} {basis : List Nat}
    (iterations : Nat) (hcols : tableau.cols = objective.length + 1) (h : tableau.IsBasis basis) :
    ∃ s : State ℚ, settle objective tableau basis iterations hcols h.length = .ok s ∧
      s.objective = objective ∧ s.tableau = tableau ∧ s.basis = basis ∧
      s.iterations = iterations := by
  have hcost : ∀ b ∈ basis, b < objective.length := by
    intro b hb
    have hlt := h.lt_of_mem hb
    omega
  obtain ⟨s, hs⟩ := exists_settle_of_lt iterations hcols h.length hcost
  obtain ⟨hobjective, hrepair, hiterations⟩ := settle_eq_ok hs
  rw [h.repair_eq] at hrepair
  obtain ⟨htableau, hbasis⟩ := Prod.mk.inj hrepair
  exact ⟨s, hs, hobjective, htableau, hbasis, hiterations⟩

theorem exists_ofTableau {objective : List ℚ} {tableau : Tableau ℚ} {basis : List Nat}
    (hcols : tableau.cols = objective.length + 1) (h : tableau.IsBasis basis) :
    ∃ s : State ℚ, ofTableau objective tableau basis = .ok s ∧ s.objective = objective ∧
      s.tableau = tableau ∧ s.basis = basis ∧ s.iterations = 0 := by
  obtain ⟨s, hs, hrest⟩ := exists_settle 0 hcols h
  refine ⟨s, ?_, hrest⟩
  rw [ofTableau, dif_pos hcols, dif_pos h.length]
  exact hs

namespace Canonical

variable {s : State ℚ}

/-- **From a canonical state an exchange never fails**, and it is an elimination step. -/
theorem exists_exchange (h : s.Canonical) {r c : Nat} (hr : r < s.tableau.rows)
    (hc : c < s.objective.length) (hpivot : s.tableau.entry r c ≠ 0) :
    ∃ t, s.exchange r c = .ok t ∧ s.Exchanged r c t ∧ t.Canonical := by
  have hcols := s.cols_tableau
  have hbasis := h.eliminate hr (show c < s.tableau.cols - 1 by omega) hpivot
  obtain ⟨t, ht, hobjective, htableau, hset, hiterations⟩ :=
    exists_settle s.iterations (by simpa using hcols) hbasis
  refine ⟨t, ?_, ⟨hobjective, htableau, hset, hiterations⟩, ?_⟩
  · rw [exchange, if_pos ⟨hr, by omega⟩]
    exact ht
  · rw [Canonical, htableau, hset]
    exact hbasis

/-- What an exchange from a canonical state results in. -/
theorem of_exchange (h : s.Canonical) {r c : Nat} {t : State ℚ} (hr : r < s.tableau.rows)
    (hc : c < s.objective.length) (hpivot : s.tableau.entry r c ≠ 0)
    (ht : s.exchange r c = .ok t) : s.Exchanged r c t ∧ t.Canonical := by
  obtain ⟨u, hu, hexchanged, hcanonical⟩ := h.exists_exchange hr hc hpivot
  rw [ht] at hu
  cases hu
  exact ⟨hexchanged, hcanonical⟩

end Canonical

end State

end SimplexMethod
