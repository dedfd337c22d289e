import SimplexMethod.Proofs.Feasible

/-!
# SimplexMethod.Proofs.Pivots

**Exchanges at any entry that is not zero**, whether or not pricing and the ratio test call for
them. `State.Pivots` is any number of these in a row.

A pivot is an elimination step followed by a repair of the basis, and the repair is the part that
could undo the step. It does not: a row whose recorded column is its unit column is left alone, and
the repair of another row can only negate that row, where the column is zero (`Records.repairRow`).
So every exchange that has a result ends with the entering column as the unit column of its row
(`of_exchange_eq_ok`), whatever the basis was before, and the right-hand side, which has no cost,
can never be the entering column.

Nothing of this needs a canonical basis or the sign of a right-hand side. An exchange of a column
left of the right-hand side always has a result (`exists_exchange`), and both of its parts keep the
solutions of the equations, hence `equations_of_pivots`.

From a canonical basis the repair has nothing to do at all, hence `Canonical.pivots`: any number of
pivots keep the basis canonical and the problem as it is.
-/

namespace SimplexMethod

namespace Tableau

/-! ### A repair keeps what is right already -/

/-- Column `c` is recorded for row `r` and is the unit column of that row. -/
structure Records (tb : Tableau ℚ × List Nat) (r c : Nat) : Prop where
  row_lt : r < tb.1.rows
  length : tb.2.length = tb.1.rows
  recorded : tb.2.getD r 0 = c
  unit : tb.1.isUnitAt r c 1 = true

/-- A unit column is a column of the table. -/
theorem lt_cols_of_isUnitAt {t : Tableau ℚ} {r c : Nat} (h : t.isUnitAt r c 1 = true) :
    c < t.cols := by
  have hone := (isUnitAt_iff.1 h).1
  exact (lt_of_entry_ne_zero (hone ▸ one_ne_zero)).2

/-- Dividing another row does not disturb a unit column, which is zero there. -/
theorem isUnitAt_divideRow {t : Tableau ℚ} {r c i : Nat} (hr : r < t.rows)
    (h : t.isUnitAt r c 1 = true) (hir : i ≠ r) (d : ℚ) :
    (t.divideRow i d).isUnitAt r c 1 = true := by
  have hc := lt_cols_of_isUnitAt h
  obtain ⟨hone, hzero⟩ := isUnitAt_iff.1 h
  refine isUnitAt_iff.2 ⟨?_, fun k hk hkr => ?_⟩
  · rw [entry_divideRow t i d hr hc, if_neg hir.symm, hone]
  · rw [entry_divideRow t i d hk hc, hzero k hk hkr, zero_div, ite_self]

theorem Records.repairRow {tb : Tableau ℚ × List Nat} {r c : Nat} (h : Records tb r c) (i : Nat) :
    Records (repairRow tb i) r c := by
  obtain ⟨t, basis⟩ := tb
  obtain ⟨hr, hlength, hrecorded, hunit⟩ := h
  have hlt : r < basis.length := hlength ▸ hr
  by_cases hir : i = r
  · subst hir
    have hkept : Tableau.repairRow (t, basis) i = (t, basis) := by
      have hunit' : t.isUnitAt i (basis.getD i 0) 1 = true := hrecorded ▸ hunit
      simp only [Tableau.repairRow, rowRepair, hunit', if_true]
      simp [hlt]
    rw [hkept]
    exact ⟨hr, hlength, hrecorded, hunit⟩
  · refine ⟨by simpa using hr, by simpa using hlength, ?_, ?_⟩
    · simpa [Tableau.repairRow, List.getD_eq_getElem?_getD, List.getElem?_set_ne hir] using
        hrecorded
    · simp only [Tableau.repairRow]
      split
      · exact isUnitAt_divideRow hr hunit hir (-1)
      · exact hunit

/-- **A repair keeps a recorded unit column.** -/
theorem Records.repair {t : Tableau ℚ} {basis : List Nat} {r c : Nat}
    (h : Records (t, basis) r c) : Records (t.repair basis) r c :=
  repair_induction (motive := fun tb => Records tb r c) h fun _ i _ htb => htb.repairRow i

/-- The column of an elimination step is written down as a unit column. -/
theorem isUnitAt_eliminate (t : Tableau ℚ) {r c : Nat} (hr : r < t.rows) (hc : c < t.cols) :
    (t.eliminate r c).isUnitAt r c 1 = true := by
  refine isUnitAt_iff.2 ⟨?_, fun k hk hkr => ?_⟩
  · rw [entry_eliminate t r c hr hc, if_pos rfl, if_pos rfl]
  · rw [entry_eliminate t r c hk hc, if_pos rfl, if_neg hkr]

end Tableau

namespace State

variable {s t : State ℚ} {row col : Nat}

/-! ### Exchanges that have a result -/

/-- **Where an exchange can be made, and what it makes of its column**, from any state. -/
theorem of_exchange_eq_ok (h : s.exchange row col = .ok t) :
    row < s.tableau.rows ∧ col < s.objective.length ∧ t.basis.getD row 0 = col ∧
      t.tableau.isUnitAt row col 1 = true := by
  obtain ⟨hobjective, hrepair, -⟩ := exchange_eq_ok h
  have hinside : row < s.tableau.rows ∧ col < s.tableau.cols := by
    by_contra hout
    rw [exchange, if_neg hout] at h
    cases h
  obtain ⟨hrow, hcol⟩ := hinside
  have hlt : row < s.basis.length := s.length_basis ▸ hrow
  have hrecords : Tableau.Records (t.tableau, t.basis) row col := by
    rw [hrepair]
    refine Tableau.Records.repair ⟨by simpa using hrow, by simpa using s.length_basis, ?_,
      s.tableau.isUnitAt_eliminate hrow hcol⟩
    simp [hlt]
  refine ⟨hrow, ?_, hrecords.recorded, hrecords.unit⟩
  -- the column is recorded in the end, and what is recorded has a cost
  have hrow' : row < t.tableau.rows := hrecords.row_lt
  rw [← hobjective, ← hrecords.recorded]
  exact t.basis_getD_lt hrow'

/-- **An exchange of a column that has a cost never fails**, from any state. -/
theorem exists_exchange (s : State ℚ) (hrow : row < s.tableau.rows)
    (hcol : col < s.objective.length) : ∃ t, s.exchange row col = .ok t := by
  have hcost : ∀ b ∈ s.basis.set row col, b < s.objective.length := by
    intro b hb
    rcases List.mem_or_eq_of_mem_set hb with hmem | rfl
    · exact s.basis_lt b hmem
    · exact hcol
  rw [exchange, if_pos ⟨hrow, by rw [s.cols_tableau]; omega⟩]
  exact exists_settle_of_lt _ _ _ hcost

/-! ### Pivots -/

/-- An exchange at an entry that is not zero. -/
inductive Pivot : State ℚ → State ℚ → Prop where
  | exchange {s t : State ℚ} {row col : Nat} :
      s.tableau.entry row col ≠ 0 → s.exchange row col = .ok t → Pivot s t

/-- Any number of exchanges at entries that are not zero lead from `s` to `t`. -/
def Pivots (s t : State ℚ) : Prop := Relation.ReflTransGen Pivot s t

/-- An elimination step keeps the equations, and so does the repair after it. -/
theorem Pivot.sameProblem (h : Pivot s t) : SameProblem s t := by
  cases h with
  | @exchange row col hpivot ht =>
      obtain ⟨hobjective, hrepair, -⟩ := exchange_eq_ok ht
      have htableau : t.tableau =
          ((s.tableau.eliminate row col).repair (s.basis.set row col)).1 :=
        congrArg Prod.fst hrepair
      refine ⟨hobjective, by simp [htableau], fun v => ?_⟩
      have hcols : 0 < (s.tableau.eliminate row col).cols := s.cols_pos
      rw [htableau, Tableau.solves_repair _ _ hcols,
        Tableau.solves_eliminate hpivot]

theorem Pivots.sameProblem (h : Pivots s t) : SameProblem s t := by
  induction h with
  | refl => exact .refl s
  | tail _ hstep ih => exact ih.trans hstep.sameProblem

/-- From a canonical state a pivot is an elimination step and nothing else. -/
theorem Canonical.of_pivot (hs : s.Canonical) (hpivot : s.tableau.entry row col ≠ 0)
    (ht : s.exchange row col = .ok t) : s.Exchanged row col t ∧ t.Canonical := by
  obtain ⟨hrow, hcol, -, -⟩ := of_exchange_eq_ok ht
  exact hs.of_exchange hrow hcol hpivot ht

theorem Canonical.pivot (hs : s.Canonical) (h : Pivot s t) : t.Canonical := by
  cases h with
  | exchange hpivot ht => exact (hs.of_pivot hpivot ht).2

/-- **Pivots keep a canonical basis and the problem.** -/
theorem Canonical.pivots (hs : s.Canonical) (h : Pivots s t) : t.Canonical ∧ SameProblem s t := by
  refine ⟨?_, h.sameProblem⟩
  induction h with
  | refl => exact hs
  | tail _ hstep ih => exact ih.pivot hstep

/-- **Pivots keep the equations**, from any state: the basis need not be canonical, and right-hand
sides may have any sign. However many pivots led to a state, one more can be made at every entry
that is not zero and not on the right-hand side. The solutions are still those of the first state's
equations, and the entering column is recorded for its row and is the unit column of that row. -/
theorem equations_of_pivots (h : s.Pivots t) (hrow : row < t.tableau.rows)
    (hcol : col < t.tableau.cols - 1) (hpivot : t.tableau.entry row col ≠ 0) :
    ∃ u, t.exchange row col = .ok u ∧ s.Pivots u ∧ u.tableau.rows = s.tableau.rows ∧
      u.tableau.cols = s.tableau.cols ∧ (∀ v, u.tableau.Solves v ↔ s.tableau.Solves v) ∧
      u.basis[row]? = some col ∧
      ∀ i < u.tableau.rows, u.tableau.entry i col = if i = row then 1 else 0 := by
  have hcost : col < t.objective.length := t.cols_sub_one ▸ hcol
  obtain ⟨u, hu⟩ := t.exists_exchange hrow hcost
  have hpivots : s.Pivots u := h.tail (.exchange hpivot hu)
  obtain ⟨hobjective, hrows, hsolves⟩ := hpivots.sameProblem
  obtain ⟨-, -, hrecorded, hunit⟩ := of_exchange_eq_ok hu
  obtain ⟨hone, hzero⟩ := Tableau.isUnitAt_iff.1 hunit
  have hlt : row < u.basis.length := by
    rw [u.length_basis, hrows, ← h.sameProblem.rows]
    exact hrow
  refine ⟨u, hu, hpivots, hrows, by rw [u.cols_tableau, s.cols_tableau, hobjective], hsolves, ?_,
    fun i hi => ?_⟩
  · rw [List.getElem?_eq_getElem hlt, ← List.getD_eq_getElem _ 0 hlt, hrecorded]
  · split
    · next hir => rw [hir, hone]
    · next hir => exact hzero i hi hir

/-- Two pivots from a state whose first row has no unit column. The first one leaves the other row
with a negated unit column and a negative right-hand side, so the repair negates that row, and the
second is made at a negative entry of it. -/
theorem equations_of_pivots_negated_row :
    let s : State ℚ := ⟨[1, 1, 0], ⟨2, 4, #[2, 0, 1, 4, 1, -1, 1, 1], rfl⟩, [2, 1], 0, rfl, rfl,
      by decide⟩
    let t : State ℚ := ⟨[1, 1, 0], ⟨2, 4, #[1, 0, 1 / 2, 2, 0, 1, -1 / 2, 1], rfl⟩, [0, 1], 0, rfl,
      rfl, by decide⟩
    ¬s.Canonical ∧ s.exchange 0 0 = .ok t ∧ t.tableau.entry 1 2 = -1 / 2 ∧
      ∃ u, t.exchange 1 2 = .ok u ∧ s.Pivots u ∧ u.tableau.rows = s.tableau.rows ∧
        u.tableau.cols = s.tableau.cols ∧ (∀ v, u.tableau.Solves v ↔ s.tableau.Solves v) ∧
        u.basis[1]? = some 2 ∧
        ∀ i < u.tableau.rows, u.tableau.entry i 2 = if i = 1 then 1 else 0 := by
  intro s t
  have hs : ¬s.Canonical := fun h => absurd (h.unit 0 (by decide) 1 (by decide)) (by decide +kernel)
  have ht : s.exchange 0 0 = .ok t := by decide +kernel
  have hpivots : s.Pivots t := .single (.exchange (by decide +kernel) ht)
  exact ⟨hs, ht, by decide +kernel,
    equations_of_pivots hpivots (by decide) (by decide) (by decide +kernel)⟩

end State

end SimplexMethod
