import SimplexMethod.Checked
import SimplexMethod.Proofs.Reach
import SimplexMethod.Proofs.Scaling

/-!
# SimplexMethod.Proofs.CheckedSteps

**Step by step the checked operations do what the total ones do.** A loop that writes a table or a
list cell by cell has, after each round, a closed form in the number of rounds made: a table changed
by `mapIdx` up to a row, a list filled in up to a row. The induction on that number is made once
(`foldlM_range_eq_ok` and `foldlM_zipIdx_eq_ok`), so what is left of a loop is one round and the
comparison of the last form with the total operation.

Nothing is assumed of the numbers, nor that a request succeeds: the statements are equations of
results. A recorded column outside the table is refused at its row with the same fault by both
(`settle_eq`), so the equations hold of bases that no solve comes across as well.
-/

namespace SimplexMethod

/-! ### What a state is to the checked operations -/

namespace State

variable {K : Type}

/-- The sheet that a state is. -/
def sheet (s : State K) : Checked.Sheet K := ⟨s.objective, s.tableau, s.basis, s.iterations⟩

variable [Zero K] [Neg K] [Add K] [Mul K]

/-- The reduced costs and the objective value of a state. -/
def prices (s : State K) : Checked.Prices K := ⟨s.reducedCosts, s.objectiveValue⟩

/-- A state, together with what it is worth. -/
def priced (s : State K) : Checked.Sheet K × Checked.Prices K := (s.sheet, s.prices)

end State

namespace Checked

/-! ### Loops -/

section Loops

variable {α β σ : Type}

@[simp] theorem ok_bind (a : α) (f : α → Except Fault β) : (Except.ok a >>= f) = f a := rfl

@[simp] theorem error_bind (fault : Fault) (f : α → Except Fault β) :
    (Except.error fault >>= f) = .error fault := rfl

/-- A loop over the first numbers, given what it has made after each number of rounds. -/
theorem foldlM_range_eq_ok {f : σ → Nat → Except Fault σ} (made : Nat → σ) {n : Nat}
    (h : ∀ k < n, f (made k) k = .ok (made (k + 1))) :
    (List.range n).foldlM f (made 0) = .ok (made n) := by
  induction n with
  | zero => rfl
  | succ n ih =>
      rw [List.range_succ, List.foldlM_append, ih fun k hk => h k (Nat.lt_succ_of_lt hk)]
      exact Fault.bind_eq_ok.2 ⟨made n, rfl, Fault.bind_eq_ok.2 ⟨_, h n n.lt_succ_self, rfl⟩⟩

/-- A loop that fails in a round fails with that round's fault. -/
theorem foldlM_range_eq_error {f : σ → Nat → Except Fault σ} (made : Nat → σ) {n k : Nat}
    {fault : Fault} (h : ∀ i < k, f (made i) i = .ok (made (i + 1))) (hk : k < n)
    (hfault : f (made k) k = .error fault) :
    (List.range n).foldlM f (made 0) = .error fault := by
  obtain ⟨m, rfl⟩ : ∃ m, n = k + (m + 1) := ⟨n - k - 1, by omega⟩
  rw [List.range_add, List.foldlM_append, foldlM_range_eq_ok made h, List.range_succ_eq_map]
  show (f (made k) (k + 0) >>= _) = _
  rw [Nat.add_zero, hfault]
  rfl

/-- A loop over a list and its positions, given what it has made after each number of entries. -/
theorem foldlM_zipIdx_eq_ok {f : σ → α × Nat → Except Fault σ} (made : Nat → σ) {xs : List α}
    (h : ∀ k x, xs[k]? = some x → f (made k) (x, k) = .ok (made (k + 1))) :
    xs.zipIdx.foldlM f (made 0) = .ok (made xs.length) := by
  -- from the end of the list, because the last entry is the last one to be looked at
  induction xs using List.reverseRecOn with
  | nil => rfl
  | append_singleton xs x ih =>
      rw [List.zipIdx_append, List.foldlM_append, ih fun k y hy => h k y ?_, ok_bind]
      · have hlast := h xs.length x (by simp)
        rw [List.length_append]
        show (f (made xs.length) (x, 0 + xs.length) >>= pure) = _
        rw [Nat.zero_add, hlast]
        rfl
      · have hk := (List.getElem?_eq_some_iff.1 hy).1
        rw [List.getElem?_append_left hk]
        exact hy

theorem foldlM_eq_ok_foldl {f : β → α → Except Fault β} {g : β → α → β} {xs : List α}
    (h : ∀ b, ∀ x ∈ xs, f b x = .ok (g b x)) (b : β) : xs.foldlM f b = .ok (xs.foldl g b) := by
  induction xs generalizing b with
  | nil => rfl
  | cons x xs ih =>
      rw [List.foldlM_cons, h b x (List.mem_cons_self ..)]
      exact ih (fun b' x' hx' => h b' x' (List.mem_cons_of_mem x hx')) _

theorem mapM_eq_ok_map {f : α → Except Fault β} {g : α → β} {xs : List α}
    (h : ∀ x ∈ xs, f x = .ok (g x)) : xs.mapM f = .ok (xs.map g) := by
  induction xs with
  | nil => rfl
  | cons x xs ih =>
      rw [List.mapM_cons, h x (List.mem_cons_self ..),
        ih fun x' hx' => h x' (List.mem_cons_of_mem x hx')]
      rfl

theorem findM?_eq_ok_find? {p : α → Except Fault Bool} {q : α → Bool} {xs : List α}
    (h : ∀ x ∈ xs, p x = .ok (q x)) : xs.findM? p = .ok (xs.find? q) := by
  induction xs with
  | nil => rfl
  | cons x xs ih =>
      rw [List.findM?, h x (List.mem_cons_self ..), List.find?_cons]
      cases q x with
      | true => rfl
      | false => exact ih fun x' hx' => h x' (List.mem_cons_of_mem x hx')

/-- What is listed for the first numbers, with its positions. -/
theorem zipIdx_map_range (f : Nat → α) (n : Nat) :
    ((List.range n).map f).zipIdx = (List.range n).map fun i => (f i, i) := by
  refine List.ext_getElem (by simp) fun i hi hi' => ?_
  simp

end Loops

/-! ### Lists and cells -/

section Lists

variable {α : Type} {xs : List α} {i : Nat}

theorem getAt_of_lt (hi : i < xs.length) (x : α) : getAt xs i = .ok (xs.getD i x) := by
  rw [getAt, List.getElem?_eq_getElem hi, List.getD_eq_getElem _ _ hi]

theorem getAt_of_not_lt (hi : ¬i < xs.length) : getAt xs i = .error .indexPastEnd := by
  rw [getAt, List.getElem?_eq_none (Nat.le_of_not_lt hi)]

theorem setAt_of_lt (hi : i < xs.length) (x : α) : setAt xs i x = .ok (xs.set i x) := if_pos hi

theorem eraseAt_of_lt (hi : i < xs.length) : eraseAt xs i = .ok (xs.eraseIdx i) := if_pos hi

/-- The entries of a list at given positions, which must all be there. -/
theorem mapM_getAt (xs : List α) (is : List Nat) (x : α) :
    is.mapM (getAt xs) = if ∀ i ∈ is, i < xs.length then .ok (is.map fun i => xs.getD i x)
      else .error .indexPastEnd := by
  split
  · next hinside => exact mapM_eq_ok_map fun i hi => getAt_of_lt (hinside i hi) x
  · next houtside =>
    induction is with
    | nil => exact absurd (fun _ hi => nomatch hi) houtside
    | cons i is ih =>
        rw [List.mapM_cons]
        by_cases hi : i < xs.length
        · rw [getAt_of_lt hi x, ih fun hall => houtside (List.forall_mem_cons.2 ⟨hi, hall⟩)]
          rfl
        · rw [getAt_of_not_lt hi]
          rfl

end Lists

variable {K : Type} [Zero K]

section Cells

variable {t : Tableau K} {i j : Nat}

theorem cell_of_lt (hi : i < t.rows) (hj : j < t.cols) : t.cell i j = .ok (t.entry i j) :=
  if_pos ⟨hi, hj⟩

theorem columnAt_of_lt (hj : j < t.cols) : t.columnAt j = .ok (t.column j) := if_pos hj

omit [Zero K] in
theorem withCell_of_lt (hi : i < t.rows) (hj : j < t.cols) (x : K) :
    t.withCell i j x = .ok (t.set i j x) := if_pos ⟨hi, hj⟩

omit [Zero K] in
theorem divideRowAt_of_lt [Div K] (hi : i < t.rows) (d : K) :
    t.divideRowAt i d = .ok (t.divideRow i d) := if_pos hi

theorem eraseRowAt_of_lt (hi : i < t.rows) : t.eraseRowAt i = .ok (t.eraseRow i) := if_pos hi

theorem columnsBetweenAt_of_le {stop : Nat} (hstop : stop ≤ t.cols) :
    t.columnsBetweenAt 0 stop = .ok (t.columnsBetween 0 stop) := by
  rw [Tableau.columnsBetweenAt, if_neg (by omega), if_neg (by omega)]

theorem putBack_of_length {xs : List K} (hxs : xs.length = t.rows) :
    putBack t xs = .ok (t.appendColumn xs) := if_pos hxs

omit [Zero K] in
theorem rhsColumn_of_pos (hcols : 0 < t.cols) : rhsColumn t = .ok (t.cols - 1) := if_pos hcols

theorem rhsAt_of_lt (hi : i < t.rows) (hcols : 0 < t.cols) : rhsAt t i = .ok (t.rhs i) := by
  rw [rhsAt, rhsColumn_of_pos hcols]
  exact cell_of_lt hi (by omega)

end Cells

/-! ### Repair -/

section Repair

variable [BEq K] {t : Tableau K}

theorem unitAt_of_lt {i j : Nat} (hi : i < t.rows) (hj : j < t.cols) (v : K) :
    unitAt t i j v = .ok (t.isUnitAt i j v) := by
  rw [unitAt, cell_of_lt hi hj, columnAt_of_lt hj, ok_bind, ok_bind, Tableau.column,
    zipIdx_map_range, List.all_map]
  rfl

theorem unitAt_of_cols_le {i j : Nat} (hj : t.cols ≤ j) (v : K) :
    unitAt t i j v = .error (t.cellOutside i j) := by
  rw [unitAt, Tableau.cell, if_neg (by omega)]
  rfl

theorem rightmostUnit_of_lt {i : Nat} (hi : i < t.rows) (hcols : 0 < t.cols) (v : K) :
    rightmostUnit t i v = .ok (t.rightmostUnit i v) := by
  rw [rightmostUnit, rhsColumn_of_pos hcols]
  refine findM?_eq_ok_find? fun j hj => unitAt_of_lt hi ?_ v
  have hj' := List.mem_range.1 (List.mem_reverse.1 hj)
  omega

variable [One K] [Neg K] [Div K] [LE K] [DecidableLE K]

/-- The repair of one row, where its recorded column is in the table. -/
theorem repairRow_of_lt {t : Tableau K} {basis : List Nat} {i : Nat} (hi : i < t.rows)
    (hbasis : basis.length = t.rows) (hrecorded : basis.getD i 0 < t.cols) :
    repairRow (t, basis) i = .ok (Tableau.repairRow (t, basis) i) := by
  have hcols : 0 < t.cols := by omega
  have hi' : i < basis.length := hbasis ▸ hi
  have hkeep : basis.set i (basis.getD i 0) = basis := by
    rw [List.getD_eq_getElem _ _ hi', List.set_getElem_self]
  simp only [repairRow, Tableau.repairRow, Tableau.rowRepair, getAt_of_lt hi' 0, ok_bind,
    unitAt_of_lt hi hrecorded, rhsAt_of_lt hi hcols]
  cases t.isUnitAt i (basis.getD i 0) 1 with
  | true => rw [if_pos rfl, if_pos rfl, hkeep]; rfl
  | false =>
      rw [if_neg Bool.false_ne_true, if_neg Bool.false_ne_true]
      cases t.isUnitAt i (basis.getD i 0) (-1) && decide (t.rhs i ≤ 0) with
      | true => rw [if_pos rfl, if_pos rfl, divideRowAt_of_lt hi, hkeep]; rfl
      | false =>
          rw [if_neg Bool.false_ne_true, if_neg Bool.false_ne_true, rescan,
            rightmostUnit_of_lt hi hcols, ok_bind]
          cases t.rightmostUnit i 1 with
          | some j => simp only [setAt_of_lt hi']; rfl
          | none =>
              by_cases hrhs : t.rhs i ≤ 0
              · simp only [if_pos hrhs, rightmostUnit_of_lt hi hcols, ok_bind]
                cases t.rightmostUnit i (-1) with
                | some j => simp only [divideRowAt_of_lt hi, setAt_of_lt hi']; rfl
                | none => simp only [hkeep]; rfl
              · simp only [if_neg hrhs, hkeep]; rfl

/-- One round of a repair, after the rounds for the rows above. -/
theorem repairRow_foldl {t : Tableau K} {basis : List Nat} {k : Nat} (hk : k < t.rows)
    (hbasis : basis.length = t.rows) (hrecorded : basis.getD k 0 < t.cols) :
    repairRow ((List.range k).foldl Tableau.repairRow (t, basis)) k =
      .ok ((List.range (k + 1)).foldl Tableau.repairRow (t, basis)) := by
  obtain ⟨hrows, hcols, hlength⟩ := Tableau.shape_foldl_repairRow (List.range k) (t, basis)
  have hsame := Tableau.getD_foldl_repairRow (t, basis) (le_refl k)
  rw [List.range_succ, List.foldl_append]
  exact repairRow_of_lt (by rw [hrows]; exact hk) (by rw [hlength, hrows]; exact hbasis)
    (by rw [hsame, hcols]; exact hrecorded)

/-- **A repair with every recorded column in the table** is the total one. -/
theorem repair_of_inside {t : Tableau K} {basis : List Nat} (hbasis : basis.length = t.rows)
    (h : State.firstOutside basis t.cols = none) : repair t basis = .ok (t.repair basis) := by
  rw [State.firstOutside, List.find?_eq_none] at h
  refine foldlM_range_eq_ok (fun k => (List.range k).foldl Tableau.repairRow (t, basis))
    fun k hk => repairRow_foldl hk hbasis ?_
  have hk' : k < basis.length := hbasis ▸ hk
  have hinside := h (basis[k], k) (List.mem_zipIdx_iff_getElem?.2 (List.getElem?_eq_getElem hk'))
  rw [List.getD_eq_getElem _ _ hk']
  simpa using hinside

/-- **A repair fails at the first recorded column outside the table.** -/
theorem repair_of_outside {t : Tableau K} {basis : List Nat} {b i : Nat}
    (hbasis : basis.length = t.rows) (h : State.firstOutside basis t.cols = some (b, i)) :
    repair t basis = .error (.cellOutside i b t.rows t.cols) := by
  obtain ⟨houtside, m, hm, hmi, habove⟩ := List.find?_eq_some_iff_getElem.1 h
  rw [List.getElem_zipIdx, Prod.mk.injEq, Nat.zero_add] at hmi
  obtain ⟨rfl, rfl⟩ := hmi
  rw [List.length_zipIdx] at hm
  have hm' : m < t.rows := hbasis ▸ hm
  refine foldlM_range_eq_error (fun k => (List.range k).foldl Tableau.repairRow (t, basis))
    (fun k hk => ?_) hm' ?_
  · refine repairRow_foldl (hk.trans hm') hbasis ?_
    have hinside := habove k hk
    rw [List.getD_eq_getElem _ _ (hk.trans hm)]
    simpa using hinside
  · obtain ⟨hrows, hcols, hlength⟩ := Tableau.shape_foldl_repairRow (List.range m) (t, basis)
    have hlast : m < ((List.range m).foldl Tableau.repairRow (t, basis)).2.length := by
      rw [hlength]
      exact hm
    have hrecorded := Tableau.getD_foldl_repairRow (t, basis) (le_refl m)
    rw [List.getD_eq_getElem _ _ hm] at hrecorded
    have hcell : t.cols ≤ basis[m] := by simpa using houtside
    rw [repairRow, getAt_of_lt hlast 0, ok_bind, hrecorded,
      unitAt_of_cols_le (by rw [hcols]; exact hcell), error_bind, Tableau.cellOutside, hrows, hcols]

end Repair

/-! ### Prices -/

section Prices

variable [Neg K] [Add K] [Mul K]

/-- The prices of a state, computed from its parts. -/
theorem prices_sheet (s : State K) : prices s.objective s.tableau s.basis = .ok s.prices := by
  have hcols := s.cols_pos
  have hcosts : s.basis.mapM (getAt s.objective) =
      .ok ((List.range s.tableau.rows).map s.basicCost) := by
    rw [mapM_getAt s.objective s.basis 0, if_pos s.basis_lt]
    congr 1
    refine List.ext_getElem (by simp [s.length_basis]) fun i hi hi' => ?_
    rw [List.getElem_map, List.getElem_map, List.getElem_range, State.basicCost,
      List.getD_eq_getElem s.basis 0 (by simpa using hi)]
  have hcost : ∀ j ∈ List.range s.objective.length,
      reducedCost s.objective ((List.range s.tableau.rows).map s.basicCost) s.tableau j =
        .ok (s.reducedCost j) := by
    intro j hj
    have hj' := List.mem_range.1 hj
    rw [reducedCost, getAt_of_lt hj' 0, ok_bind, zipIdx_map_range, List.foldlM_map]
    refine foldlM_eq_ok_foldl (fun sum i hi => ?_) _
    rw [cell_of_lt (List.mem_range.1 hi) (by rw [s.cols_tableau]; omega)]
    rfl
  have hterms : ((List.range s.tableau.rows).map s.basicCost).zipIdx.mapM
      (fun c => do return c.1 * (← rhsAt s.tableau c.2)) =
        .ok ((List.range s.tableau.rows).map fun i => s.basicCost i * s.rhs i) := by
    rw [zipIdx_map_range, mapM_eq_ok_map (g := fun c => c.1 * s.rhs c.2), List.map_map]
    · rfl
    · intro c hc
      obtain ⟨i, hi, rfl⟩ := List.mem_map.1 hc
      rw [rhsAt_of_lt (List.mem_range.1 hi) hcols]
      rfl
  rw [prices, hcosts, ok_bind, mapM_eq_ok_map hcost, ok_bind, hterms]
  rfl

end Prices

/-! ### Making a state -/

section Steps

variable [One K] [Neg K] [Add K] [Mul K] [Div K] [LE K] [DecidableLE K] [BEq K]

/-- **Settling.** -/
theorem settle_eq {objective : List K} {t : Tableau K} {basis : List Nat} (iterations : Nat)
    (hcols : t.cols = objective.length + 1) (hbasis : basis.length = t.rows) :
    settle objective t basis iterations =
      (State.settle objective t basis iterations hcols hbasis).map State.priced := by
  unfold State.settle
  split
  · next b i houtside =>
    rw [settle, repair_of_outside hbasis houtside]
    rfl
  · next hinside =>
    rw [settle, repair_of_inside hbasis hinside, ok_bind]
    dsimp only
    split
    · next hcosts =>
      let s : State K := ⟨objective, (t.repair basis).1, (t.repair basis).2, iterations,
        by simpa using hcols, by simpa using hbasis, hcosts⟩
      exact congrArg (· >>= _) (prices_sheet s)
    · next hcosts =>
      rw [prices, mapM_getAt objective _ 0, if_neg hcosts]
      rfl

theorem start_eq (objective : List K) (t : Tableau K) (basis : List Nat) :
    start objective t basis = (State.ofTableau objective t basis).map State.priced := by
  unfold start State.ofTableau
  split
  · next hcols =>
    split
    · next hbasis => exact settle_eq 0 hcols hbasis
    · rfl
  · rfl

end Steps

/-! ### Elimination -/

section Eliminate

variable [One K] [Sub K] [Mul K] [Div K] [BEq K]

/-- The table while column `c` is being cleared: row `r` is divided by the pivot, and the rows
before `k` are done. -/
def cleared (t : Tableau K) (r c k : Nat) : Tableau K :=
  t.mapIdx fun i j x =>
    if i = r then x / t.entry r c
    else if i < k ∧ ¬(t.entry i c == 0) then x - t.entry i c * (t.entry r j / t.entry r c)
    else x

/-- The table while the unit column is being written down: the rows before `k` are done. -/
def unitColumn (t : Tableau K) (r c k : Nat) : Tableau K :=
  t.mapIdx fun i j x => if j = c ∧ i < k then if i = r then 1 else 0 else x

variable {t : Tableau K} {r c k : Nat}

omit [One K] [Sub K] [Mul K] in
theorem entry_cleared [Sub K] [Mul K] {i j : Nat} (hi : i < t.rows) (hj : j < t.cols) :
    (cleared t r c k).entry i j =
      if i = r then t.entry i j / t.entry r c
      else if i < k ∧ ¬(t.entry i c == 0) then
        t.entry i j - t.entry i c * (t.entry r j / t.entry r c)
      else t.entry i j := Tableau.entry_mapIdx t _ hi hj

omit [Sub K] [Mul K] [Div K] [BEq K] in
theorem entry_unitColumn {i j : Nat} (hi : i < t.rows) (hj : j < t.cols) :
    (unitColumn t r c k).entry i j =
      if j = c ∧ i < k then if i = r then 1 else 0 else t.entry i j :=
  Tableau.entry_mapIdx t _ hi hj

omit [One K] in
/-- The next round clears row `k` and leaves the others as they are. -/
theorem eq_cleared_succ {u : Tableau K} (hrows : u.rows = t.rows) (hcols : u.cols = t.cols)
    (hrow : ∀ j < t.cols, u.entry k j =
      if k = r then t.entry k j / t.entry r c
      else if t.entry k c == 0 then t.entry k j
      else t.entry k j - t.entry k c * (t.entry r j / t.entry r c))
    (hrest : ∀ i j, i < t.rows → j < t.cols → i ≠ k → u.entry i j = (cleared t r c k).entry i j) :
    u = cleared t r c (k + 1) := by
  refine Tableau.ext_entry hrows hcols fun i j hi hj => ?_
  rw [hrows] at hi
  rw [hcols] at hj
  rw [entry_cleared hi hj]
  by_cases hik : i = k
  · subst hik
    rw [hrow j hj]
    by_cases hzero : (t.entry i c == 0) = true <;> simp [hzero]
  · have hsame : i < k + 1 ↔ i < k := by omega
    rw [hrest i j hi hj hik, entry_cleared hi hj]
    simp only [hsame]

omit [One K] in
theorem clearRow_cleared (hr : r < t.rows) (hc : c < t.cols) (hk : k < t.rows) :
    clearRow r c (cleared t r c k) k = .ok (cleared t r c (k + 1)) := by
  have hlast : ∀ j < t.cols, (cleared t r c k).entry k j =
      if k = r then t.entry k j / t.entry r c else t.entry k j := fun j hj => by
    simp [entry_cleared hk hj]
  unfold clearRow
  by_cases hkr : k = r
  · rw [if_pos hkr]
    refine congrArg Except.ok (eq_cleared_succ rfl rfl (fun j hj => ?_) fun _ _ _ _ _ => rfl)
    rw [hlast j hj, if_pos hkr, if_pos hkr]
  · rw [if_neg hkr, cell_of_lt (t := cleared t r c k) hk hc, ok_bind, hlast c hc, if_neg hkr]
    by_cases hzero : (t.entry k c == 0) = true
    · rw [if_pos hzero]
      refine congrArg Except.ok (eq_cleared_succ rfl rfl (fun j hj => ?_) fun _ _ _ _ _ => rfl)
      rw [hlast j hj, if_neg hkr, if_neg hkr, if_pos hzero]
    · rw [if_neg hzero, Tableau.subtractMultipleAt, if_neg hkr]
      refine (if_pos ⟨hk, hr⟩).trans (congrArg Except.ok
        (eq_cleared_succ rfl rfl (fun j hj => ?_) fun i j hi hj hik => ?_))
      · rw [Tableau.entry_subtractMultiple (cleared t r c k) k r _ hk hj, if_pos rfl, hlast j hj,
          entry_cleared hr hj, if_pos rfl, if_neg hkr, if_neg hkr, if_neg hzero]
      · rw [Tableau.entry_subtractMultiple (cleared t r c k) k r _ hi hj, if_neg hik]

omit [Sub K] [Mul K] [Div K] [BEq K] in
theorem withCell_unitColumn (hc : c < t.cols) (hk : k < t.rows) :
    (unitColumn t r c k).withCell k c (if k = r then 1 else 0) =
      .ok (unitColumn t r c (k + 1)) := by
  rw [withCell_of_lt (t := unitColumn t r c k) hk hc]
  refine congrArg Except.ok (Tableau.ext_entry rfl rfl fun i j (hi : i < t.rows) hj => ?_)
  rw [Tableau.entry_set (unitColumn t r c k) k c _ hi hj, entry_unitColumn hi hj,
    entry_unitColumn hi hj]
  by_cases hik : i = k
  · subst hik
    by_cases hjc : j = c
    · simp [hjc]
    · simp [hjc]
  · have hsame : i < k + 1 ↔ i < k := by omega
    rw [if_neg fun h => hik h.1]
    simp only [hsame]

/-- **An elimination step row by row** is the step in one pass over the table. -/
theorem eliminate_of_lt (hr : r < t.rows) (hc : c < t.cols) :
    eliminate t r c = .ok (t.eliminate r c) := by
  have hdivided : t.divideRow r (t.entry r c) = cleared t r c 0 := by
    refine Tableau.ext_entry rfl rfl fun i j hi hj => ?_
    have hi' : i < t.rows := hi
    rw [Tableau.entry_divideRow _ _ _ hi' hj, entry_cleared hi' hj]
    simp
  have hcleared : (List.range t.rows).foldlM (clearRow r c) (cleared t r c 0) =
      .ok (cleared t r c t.rows) :=
    foldlM_range_eq_ok (cleared t r c) fun k hk => clearRow_cleared hr hc hk
  have hblank : cleared t r c t.rows = unitColumn (cleared t r c t.rows) r c 0 := by
    refine Tableau.ext_entry rfl rfl fun i j hi hj => ?_
    rw [entry_unitColumn hi hj, if_neg fun h => absurd h.2 i.not_lt_zero]
  have hwritten : (List.range t.rows).foldlM
      (fun t i => t.withCell i c (if i = r then 1 else 0)) (cleared t r c t.rows) =
        .ok (unitColumn (cleared t r c t.rows) r c t.rows) := by
    conv_lhs => rw [hblank]
    exact foldlM_range_eq_ok (unitColumn (cleared t r c t.rows) r c) fun k hk =>
      withCell_unitColumn (t := cleared t r c t.rows) hc hk
  rw [eliminate, cell_of_lt hr hc, ok_bind, divideRowAt_of_lt hr, ok_bind, hdivided]
  show ((List.range t.rows).foldlM (clearRow r c) (cleared t r c 0) >>= _) = _
  rw [hcleared, ok_bind]
  refine hwritten.trans (congrArg Except.ok (Tableau.ext_entry rfl rfl fun i j hi hj => ?_))
  have hi' : i < t.rows := hi
  have hj' : j < t.cols := hj
  rw [Tableau.entry_eliminate t r c hi' hj',
    entry_unitColumn (t := cleared t r c t.rows) hi hj, entry_cleared hi' hj']
  by_cases hjc : j = c
  · rw [if_pos ⟨hjc, hi'⟩, if_pos hjc]
  · rw [if_neg fun h => hjc h.1, if_neg hjc]
    by_cases hzero : (t.entry i c == 0) = true <;> simp [hi', hzero]

end Eliminate

/-! ### Exchanges -/

section Exchange

variable [One K] [Neg K] [Add K] [Sub K] [Mul K] [Div K] [LE K] [DecidableLE K] [BEq K]

/-- **An exchange.** -/
theorem exchange_sheet (s : State K) (row col : Nat) :
    s.sheet.exchange row col = (s.exchange row col).map State.priced := by
  unfold Sheet.exchange State.exchange
  by_cases hinside : row < s.tableau.rows ∧ col < s.tableau.cols
  · have hrow : row < s.basis.length := by rw [s.length_basis]; exact hinside.1
    rw [if_pos hinside]
    show (eliminate s.tableau row col >>= fun t =>
      setAt s.basis row col >>= fun basis => settle s.objective t basis s.iterations) = _
    rw [eliminate_of_lt hinside.1 hinside.2, ok_bind, setAt_of_lt hrow, ok_bind]
    exact settle_eq s.iterations _ _
  · rw [if_neg hinside]
    show (eliminate s.tableau row col >>= _) = _
    rw [eliminate, Tableau.cell, if_neg hinside]
    rfl

end Exchange

end Checked

end SimplexMethod
