import Mathlib.Data.List.GetD
import SimplexMethod.Proofs.Equations

/-!
# SimplexMethod.Proofs.Repair

**What a repair does to a tableau and a basis that need not go together.** A repair negates rows and
rewrites the record of the basis, and neither depends on the basis being canonical:

* `Tableau.solves_repair`: the equations have the same solutions as before, since a row is only
  divided by `-1`;
* `Tableau.lt_of_mem_repair`: a record of columns left of the right-hand side stays one, since the
  search for another column never looks at the right-hand side.

The second is all that a state asks of its basis, so `State.exists_settle_of_lt`: equations whose
recorded columns have costs always settle to a state.
-/

namespace SimplexMethod

namespace Tableau

variable {t : Tableau ℚ}

/-! ### Dividing a row -/

theorem rowSum_divideRow (t : Tableau ℚ) (i : Nat) (d : ℚ) {k : Nat} (hk : k < t.rows)
    (v : Nat → ℚ) :
    (t.divideRow i d).rowSum v k = if k = i then t.rowSum v k / d else t.rowSum v k := by
  have hentry : ∀ j ∈ Finset.range (t.cols - 1), (t.divideRow i d).entry k j * v j =
      if k = i then t.entry k j * v j / d else t.entry k j * v j := by
    intro j hj
    have hj' := Finset.mem_range.1 hj
    rw [entry_divideRow t i d hk (by omega)]
    split
    · exact div_mul_eq_mul_div _ _ _
    · rfl
  rw [rowSum, cols_divideRow, Finset.sum_congr rfl hentry]
  split
  · rw [rowSum, Finset.sum_div]
  · rfl

theorem rhs_divideRow (t : Tableau ℚ) (i : Nat) (d : ℚ) {k : Nat} (hk : k < t.rows)
    (hcols : 0 < t.cols) :
    (t.divideRow i d).rhs k = if k = i then t.rhs k / d else t.rhs k :=
  entry_divideRow t i d hk (by rw [cols_divideRow]; omega)

/-- Both sides of one equation are divided. -/
theorem solves_divideRow (i : Nat) {d : ℚ} (hd : d ≠ 0) (hcols : 0 < t.cols) (v : Nat → ℚ) :
    (t.divideRow i d).Solves v ↔ t.Solves v := by
  refine forall₂_congr fun k hk => ?_
  rw [rowSum_divideRow t i d hk, rhs_divideRow t i d hk hcols]
  split
  · exact div_left_inj' hd
  · exact Iff.rfl

/-! ### The repair of one row -/

theorem solves_repairRow {tb : Tableau ℚ × List Nat} (hcols : 0 < tb.1.cols) (i : Nat)
    (v : Nat → ℚ) : (repairRow tb i).1.Solves v ↔ tb.1.Solves v := by
  simp only [repairRow]
  split
  · exact solves_divideRow i (by norm_num) hcols v
  · exact Iff.rfl

/-! ### The repair of all rows -/

/-- **A repair keeps the solutions.** -/
theorem solves_repair (t : Tableau ℚ) (basis : List Nat) (hcols : 0 < t.cols) (v : Nat → ℚ) :
    (t.repair basis).1.Solves v ↔ t.Solves v := by
  refine (repair_induction (motive := fun tb => tb.1.cols = t.cols ∧ (tb.1.Solves v ↔ t.Solves v))
    ⟨rfl, Iff.rfl⟩ fun tb i _ htb => ?_).2
  obtain ⟨hsame, hsolves⟩ := htb
  exact ⟨by simpa using hsame, (solves_repairRow (hsame ▸ hcols) i v).trans hsolves⟩

/-! ### Columns and rows that a repair keeps -/

section Columns

variable {K : Type} [Zero K] [BEq K]

theorem lt_of_rightmostUnit {t : Tableau K} {i j : Nat} {x : K} (h : t.rightmostUnit i x = some j) :
    j < t.cols - 1 := by
  have hmem := List.mem_of_find?_eq_some h
  simpa using hmem

variable [One K] [Neg K] [LE K] [DecidableLE K]

/-- A row keeps its recorded column or takes one left of the right-hand side. -/
theorem column_rowRepair (t : Tableau K) (i recorded : Nat) :
    (t.rowRepair i recorded).column = recorded ∨
      (t.rowRepair i recorded).column < t.cols - 1 := by
  unfold rowRepair
  split
  · exact Or.inl rfl
  split
  · exact Or.inl rfl
  split
  · next hunit => exact Or.inr (lt_of_rightmostUnit hunit)
  split
  · next hnegated =>
    split at hnegated
    · exact Or.inr (lt_of_rightmostUnit hnegated)
    · cases hnegated
  · exact Or.inl rfl

/-- **A repair records no right-hand side** if none was recorded before. -/
theorem lt_of_mem_repair [Div K] {t : Tableau K} {basis : List Nat}
    (hlength : basis.length = t.rows) (h : ∀ b ∈ basis, b < t.cols - 1) :
    ∀ b ∈ (t.repair basis).2, b < t.cols - 1 := by
  refine (repair_induction
    (motive := fun tb => tb.1.cols = t.cols ∧ tb.2.length = t.rows ∧ ∀ b ∈ tb.2, b < t.cols - 1)
    ⟨rfl, hlength, h⟩ fun tb i hi htb => ?_).2.2
  obtain ⟨hcols, hlength', hlt⟩ := htb
  have hi' : i < tb.2.length := hlength' ▸ hi
  refine ⟨by simpa using hcols, by simpa using hlength', fun b hb => ?_⟩
  rcases List.mem_or_eq_of_mem_set hb with hmem | rfl
  · exact hlt b hmem
  · rcases tb.1.column_rowRepair i (tb.2.getD i 0) with heq | hcolumn
    · rw [heq, List.getD_eq_getElem _ _ hi']
      exact hlt _ (List.getElem_mem hi')
    · rwa [hcols] at hcolumn

/-- **Nothing is done to a tableau all of whose rows are kept.** -/
theorem repair_eq_self [Div K] {t : Tableau K} {basis : List Nat} (hlength : basis.length = t.rows)
    (h : ∀ i < t.rows, t.rowRepair i (basis.getD i 0) = ⟨basis.getD i 0, false⟩) :
    t.repair basis = (t, basis) := by
  -- each row leaves the pair as it is, so the next row sees the same pair
  refine repair_induction (motive := (· = (t, basis))) rfl fun tb i hi htb => ?_
  have hi' : i < basis.length := hlength ▸ hi
  rw [htb, repairRow, h i hi, List.getD_eq_getElem _ _ hi']
  exact congrArg (Prod.mk t) (List.set_getElem_self hi')

end Columns

end Tableau

namespace State

variable {K : Type} [Zero K] [One K] [Neg K] [Div K] [LE K] [DecidableLE K] [BEq K]
  {objective : List K} {tableau : Tableau K} {basis : List Nat}

/-- **Equations whose recorded columns have costs settle to a state.** -/
theorem exists_settle_of_lt (iterations : Nat) (hcols : tableau.cols = objective.length + 1)
    (hbasis : basis.length = tableau.rows) (h : ∀ b ∈ basis, b < objective.length) :
    ∃ s : State K, settle objective tableau basis iterations hcols hbasis = .ok s := by
  have hwidth : tableau.cols - 1 = objective.length := by rw [hcols, Nat.add_sub_cancel]
  have hinside : firstOutside basis tableau.cols = none := by
    rw [firstOutside, List.find?_eq_none]
    intro b hb
    have hlt := h b.1 (List.fst_mem_of_mem_zipIdx hb)
    simp only [decide_eq_true_eq]
    omega
  have hcost : ∀ b ∈ (tableau.repair basis).2, b < objective.length := by
    rw [← hwidth] at h ⊢
    exact Tableau.lt_of_mem_repair hbasis h
  rw [settle, hinside]
  exact ⟨_, dif_pos hcost⟩

/-- The same of a state that starts the count. -/
theorem exists_ofTableau_of_lt (hcols : tableau.cols = objective.length + 1)
    (hbasis : basis.length = tableau.rows) (h : ∀ b ∈ basis, b < objective.length) :
    ∃ s : State K, ofTableau objective tableau basis = .ok s := by
  rw [ofTableau, dif_pos hcols, dif_pos hbasis]
  exact exists_settle_of_lt 0 hcols hbasis h

end State

end SimplexMethod
