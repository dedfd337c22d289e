import SimplexMethod.Proofs.CheckedSteps
import SimplexMethod.Proofs.Standard

/-!
# SimplexMethod.Proofs.CheckedForm

**The equality form, written down constraint by constraint.** `EqualityForm.ofProgram` gives each
entry by a formula. Written down cell by cell in the order of the constraints, with the artificial
columns given out one after the other, it comes to the same table, basis and list of rows
(`equalityForm_eq`). No cell that is written to is outside the table, provided that each constraint
has one coefficient per variable.

`draft p k` is what is there after `k` constraints. One constraint fills its own row and leaves the
others alone (`eq_tableau_draft_succ`), so each of the three relations has to be looked at in one
row only.

Nothing is assumed of the numbers.
-/

namespace SimplexMethod.Checked

variable {K : Type} [Zero K]

/-! ### Rows -/

/-- The table with the first `k` entries of a list written into row `i`. -/
def written (t : Tableau K) (i : Nat) (xs : List K) (k : Nat) : Tableau K :=
  t.mapIdx fun i' j x => if i' = i ∧ j < k then xs.getD j 0 else x

theorem entry_written {t : Tableau K} {i : Nat} {xs : List K} {k i' j : Nat} (hi : i' < t.rows)
    (hj : j < t.cols) :
    (written t i xs k).entry i' j = if i' = i ∧ j < k then xs.getD j 0 else t.entry i' j :=
  Tableau.entry_mapIdx t _ hi hj

/-- **A list is written into a row** that is long enough. -/
theorem writeRow_eq {t : Tableau K} {i : Nat} {xs : List K} (hi : i < t.rows)
    (hxs : xs.length ≤ t.cols) : writeRow t i xs = .ok (written t i xs xs.length) := by
  have hblank : t = written t i xs 0 := by
    refine Tableau.ext_entry rfl rfl fun i' j hi' hj => ?_
    rw [entry_written hi' hj, if_neg fun h => absurd h.2 j.not_lt_zero]
  rw [writeRow]
  conv_lhs => rw [hblank]
  refine foldlM_zipIdx_eq_ok (written t i xs) fun k x hx => ?_
  obtain ⟨hk, rfl⟩ := List.getElem?_eq_some_iff.1 hx
  rw [withCell_of_lt (t := written t i xs k) hi (show k < t.cols by omega)]
  refine congrArg Except.ok (Tableau.ext_entry rfl rfl fun i' j (hi' : i' < t.rows) hj => ?_)
  rw [Tableau.entry_set (written t i xs k) i k _ hi' hj, entry_written hi' hj,
    entry_written hi' hj]
  by_cases hjk : j = k
  · subst hjk
    by_cases hii : i' = i <;> simp [hii, hk]
  · have hsame : j < k + 1 ↔ j < k := by omega
    rw [if_neg fun h => hjk h.2]
    simp only [hsame]

/-! ### Drafts -/

variable [One K] [Neg K] {p : Program K}

/-- The equality form with the first `k` constraints written down. -/
def draft (p : Program K) (k : Nat) : Draft K where
  tableau := (EqualityForm.ofProgram p).tableau.mapIdx fun i _ x => if i < k then x else 0
  basis := (List.range p.constraintCount).map fun i =>
    if i < k then (EqualityForm.ofProgram p).basis.getD i 0 else 0
  artificialRows :=
    ((p.constraints.take k).zipIdx.filter fun c => c.1.relation.needsArtificial).map (·.2)
  nextArtificial := p.artificialColumn k

theorem entry_draft {i j k : Nat} (hi : i < p.constraintCount)
    (hj : j < p.firstArtificial + p.artificialRows.length + 1) :
    (draft p k).tableau.entry i j =
      if i < k then (EqualityForm.ofProgram p).tableau.entry i j else 0 :=
  Tableau.entry_mapIdx (EqualityForm.ofProgram p).tableau _ hi hj

/-- The draft while constraint `k` is being written down, with its coefficients and its right-hand
side. -/
def drafting (p : Program K) (k : Nat) (c : Constraint K) : Tableau K :=
  (written (draft p k).tableau k c.coefficients c.coefficients.length).set k
    (p.firstArtificial + p.artificialRows.length) c.rhs

variable {k : Nat} {c : Constraint K}

theorem entry_drafting {i j : Nat} (hc : c.coefficients.length = p.variableCount)
    (hi : i < p.constraintCount) (hj : j < p.firstArtificial + p.artificialRows.length + 1) :
    (drafting p k c).entry i j =
      if i = k then
        if j = p.firstArtificial + p.artificialRows.length then c.rhs
        else if j < p.variableCount then c.coefficients.getD j 0 else 0
      else (draft p k).tableau.entry i j := by
  rw [drafting, Tableau.entry_set (written _ k _ _) k _ _ hi hj,
    entry_written (t := (draft p k).tableau) hi hj, entry_draft hi hj, hc]
  by_cases hik : i = k <;> simp [hik]

/-- The next draft has the row of constraint `k` as the layout says, and otherwise nothing new. -/
theorem eq_tableau_draft_succ {u : Tableau K} (hk : p.constraints[k]? = some c)
    (hc : c.coefficients.length = p.variableCount) (hrows : u.rows = p.constraintCount)
    (hcols : u.cols = p.firstArtificial + p.artificialRows.length + 1)
    (hrow : ∀ j < p.firstArtificial + p.artificialRows.length + 1,
      u.entry k j = EqualityForm.cellOf p k c j)
    (hrest : ∀ i j, i < p.constraintCount → j < p.firstArtificial + p.artificialRows.length + 1 →
      i ≠ k → u.entry i j = (drafting p k c).entry i j) : u = (draft p (k + 1)).tableau := by
  refine Tableau.ext_entry hrows hcols fun i j hi hj => ?_
  rw [hrows] at hi
  rw [hcols] at hj
  rw [entry_draft hi hj]
  by_cases hik : i = k
  · subst hik
    rw [hrow j hj, if_pos i.lt_succ_self, EqualityForm.entry_ofProgram hk hj]
  · have hsame : i < k + 1 ↔ i < k := by omega
    rw [hrest i j hi hj hik, entry_drafting hc hi hj, if_neg hik, entry_draft hi hj]
    simp only [hsame]

/-- An upper bound takes its slack. -/
theorem tableau_draft_atMost (hk : p.constraints[k]? = some c)
    (hc : c.coefficients.length = p.variableCount) (hrelation : c.relation = .atMost) :
    (drafting p k c).set k (p.variableCount + k) 1 = (draft p (k + 1)).tableau := by
  have hk' : k < p.constraintCount := (List.getElem?_eq_some_iff.1 hk).1
  have hfirst : p.firstArtificial = p.variableCount + p.constraintCount := rfl
  refine eq_tableau_draft_succ hk hc rfl rfl (fun j hj => ?_) fun i j hi hj hik => ?_
  · rw [Tableau.entry_set (drafting p k c) k _ _ hk' hj, entry_drafting hc hk' hj,
      EqualityForm.cellOf, hrelation]
    grind [EqualityForm.slackCoefficient, Relation.needsArtificial]
  · rw [Tableau.entry_set (drafting p k c) k _ _ hi hj, if_neg fun h => hik h.1]

/-- A lower bound takes its surplus and its artificial column. -/
theorem tableau_draft_atLeast (hk : p.constraints[k]? = some c)
    (hc : c.coefficients.length = p.variableCount) (hrelation : c.relation = .atLeast) :
    ((drafting p k c).set k (p.variableCount + k) (-1)).set k (p.artificialColumn k) 1 =
      (draft p (k + 1)).tableau := by
  have hk' : k < p.constraintCount := (List.getElem?_eq_some_iff.1 hk).1
  have hfirst : p.firstArtificial = p.variableCount + p.constraintCount := rfl
  have hle := p.firstArtificial_le_artificialColumn k
  have hlt := Program.artificialColumn_lt_length hk (by rw [hrelation]; rfl)
  refine eq_tableau_draft_succ hk hc rfl rfl (fun j hj => ?_) fun i j hi hj hik => ?_
  · rw [Tableau.entry_set ((drafting p k c).set k _ _) k _ _ hk' hj,
      Tableau.entry_set (drafting p k c) k _ _ hk' hj, entry_drafting hc hk' hj,
      EqualityForm.cellOf, hrelation]
    grind [EqualityForm.slackCoefficient, Relation.needsArtificial]
  · rw [Tableau.entry_set ((drafting p k c).set k _ _) k _ _ hi hj, if_neg fun h => hik h.1,
      Tableau.entry_set (drafting p k c) k _ _ hi hj, if_neg fun h => hik h.1]

/-- An equation takes its artificial column. -/
theorem tableau_draft_equal (hk : p.constraints[k]? = some c)
    (hc : c.coefficients.length = p.variableCount) (hrelation : c.relation = .equal) :
    (drafting p k c).set k (p.artificialColumn k) 1 = (draft p (k + 1)).tableau := by
  have hk' : k < p.constraintCount := (List.getElem?_eq_some_iff.1 hk).1
  have hfirst : p.firstArtificial = p.variableCount + p.constraintCount := rfl
  have hle := p.firstArtificial_le_artificialColumn k
  have hlt := Program.artificialColumn_lt_length hk (by rw [hrelation]; rfl)
  refine eq_tableau_draft_succ hk hc rfl rfl (fun j hj => ?_) fun i j hi hj hik => ?_
  · rw [Tableau.entry_set (drafting p k c) k _ _ hk' hj, entry_drafting hc hk' hj,
      EqualityForm.cellOf, hrelation]
    grind [EqualityForm.slackCoefficient, Relation.needsArtificial]
  · rw [Tableau.entry_set (drafting p k c) k _ _ hi hj, if_neg fun h => hik h.1]

theorem setAt_draft (hk : p.constraints[k]? = some c) :
    setAt (draft p k).basis k (p.startingColumn k c) = .ok (draft p (k + 1)).basis := by
  have hk' : k < p.constraintCount := (List.getElem?_eq_some_iff.1 hk).1
  rw [setAt_of_lt (by simpa [draft] using hk')]
  refine congrArg Except.ok (List.ext_getElem (by simp [draft]) fun i hi hi' => ?_)
  rw [List.getElem_set]
  simp only [draft, List.getElem_map, List.getElem_range]
  by_cases hik : k = i
  · subst hik
    rw [if_pos rfl, if_pos k.lt_succ_self]
    simp [EqualityForm.ofProgram, hk]
  · have hsame : i < k + 1 ↔ i < k := by omega
    rw [if_neg hik]
    simp only [hsame]

omit [Zero K] [One K] [Neg K] in
theorem artificialColumn_succ (hk : p.constraints[k]? = some c) :
    p.artificialColumn (k + 1) =
      p.artificialColumn k + if c.relation.needsArtificial then 1 else 0 := by
  obtain ⟨hk', rfl⟩ := List.getElem?_eq_some_iff.1 hk
  rw [Program.artificialColumn, List.take_succ_eq_append_getElem hk', List.countP_append,
    List.countP_singleton, ← Nat.add_assoc]
  rfl

theorem artificialRows_draft_succ (hk : p.constraints[k]? = some c) :
    (draft p (k + 1)).artificialRows =
      (draft p k).artificialRows ++ if c.relation.needsArtificial then [k] else [] := by
  obtain ⟨hk', rfl⟩ := List.getElem?_eq_some_iff.1 hk
  simp only [draft]
  rw [List.take_succ_eq_append_getElem hk', List.zipIdx_append, List.filter_append,
    List.map_append, List.length_take_of_le (Nat.le_of_lt hk')]
  cases hneeds : p.constraints[k].relation.needsArtificial <;> simp [hneeds]

/-- The last steps of a constraint that takes an artificial column, on the table `u`. -/
theorem giveArtificial_draft {u : Tableau K} (hk : p.constraints[k]? = some c)
    (hneeds : c.relation.needsArtificial = true) (hrows : u.rows = p.constraintCount)
    (hcols : u.cols = p.firstArtificial + p.artificialRows.length + 1)
    (hset : u.set k (p.artificialColumn k) 1 = (draft p (k + 1)).tableau) :
    (u.withCell k (p.artificialColumn k) 1 >>= fun t =>
      setAt (draft p k).basis k (p.artificialColumn k) >>= fun basis =>
        pure (Draft.mk t basis ((draft p k).artificialRows ++ [k]) (p.artificialColumn k + 1))) =
      .ok (draft p (k + 1)) := by
  have hk' : k < u.rows := hrows ▸ (List.getElem?_eq_some_iff.1 hk).1
  have hlt := Program.artificialColumn_lt_length hk hneeds
  have hbasis := setAt_draft hk
  have hlist := artificialRows_draft_succ hk
  have hnext := artificialColumn_succ hk
  rw [Program.startingColumn, if_pos hneeds] at hbasis
  rw [if_pos hneeds] at hlist hnext
  rw [withCell_of_lt hk' (by omega), ok_bind, hset, hbasis, ok_bind, ← hlist, ← hnext]
  rfl

/-- **A constraint is written down** in its own row. -/
theorem add_draft (hk : p.constraints[k]? = some c)
    (hc : c.coefficients.length = p.variableCount) :
    (draft p k).add p.variableCount (c, k) = .ok (draft p (k + 1)) := by
  have hk' : k < p.constraintCount := (List.getElem?_eq_some_iff.1 hk).1
  have hfirst : p.firstArtificial = p.variableCount + p.constraintCount := rfl
  have hbegun : writeRow (draft p k).tableau k c.coefficients =
      .ok (written (draft p k).tableau k c.coefficients c.coefficients.length) :=
    writeRow_eq hk' (show _ ≤ p.firstArtificial + p.artificialRows.length + 1 by omega)
  have hcolumn : rhsColumn (written (draft p k).tableau k c.coefficients c.coefficients.length) =
      .ok (p.firstArtificial + p.artificialRows.length) := rhsColumn_of_pos (Nat.succ_pos _)
  have hrhs : (written (draft p k).tableau k c.coefficients c.coefficients.length).withCell k
      (p.firstArtificial + p.artificialRows.length) c.rhs = .ok (drafting p k c) :=
    if_pos ⟨hk', Nat.lt_succ_self _⟩
  have hslack : ∀ x, (drafting p k c).withCell k (p.variableCount + k) x =
      .ok ((drafting p k c).set k (p.variableCount + k) x) := fun x =>
    if_pos ⟨hk', show _ < p.firstArtificial + p.artificialRows.length + 1 by omega⟩
  rw [Draft.add]
  simp only [hbegun, hcolumn, hrhs, ok_bind]
  cases hrelation : c.relation with
  | atMost =>
      have hbasis := setAt_draft hk
      have hlist := artificialRows_draft_succ hk
      have hnext := artificialColumn_succ hk
      simp only [Program.startingColumn, hrelation, Relation.needsArtificial, Bool.false_eq_true,
        if_false, List.append_nil, Nat.add_zero] at hbasis hlist hnext
      simp only [hslack, hbasis, ok_bind, tableau_draft_atMost hk hc hrelation, ← hlist]
      show Except.ok (Draft.mk _ _ _ (p.artificialColumn k)) = _
      rw [← hnext]
      rfl
  | atLeast =>
      show ((drafting p k c).withCell k (p.variableCount + k) (-1) >>= _) = _
      rw [hslack, ok_bind]
      exact giveArtificial_draft hk (by rw [hrelation]; rfl) rfl rfl
        (tableau_draft_atLeast hk hc hrelation)
  | equal =>
      exact giveArtificial_draft hk (by rw [hrelation]; rfl) rfl rfl
        (tableau_draft_equal hk hc hrelation)

/-- **The equality form**, written down constraint by constraint. -/
theorem equalityForm_eq (hfit : p.mismatch = none) :
    equalityForm p = .ok (EqualityForm.ofProgram p) := by
  have hblank : (⟨Tableau.zeros p.constraintCount (p.firstArtificial + p.artificialRows.length + 1),
      List.replicate p.constraintCount 0, [], p.firstArtificial⟩ : Draft K) = draft p 0 := by
    have htable : Tableau.zeros p.constraintCount
        (p.firstArtificial + p.artificialRows.length + 1) = (draft p 0).tableau := by
      refine Tableau.ext_entry rfl rfl fun i j hi hj => ?_
      rw [entry_draft hi hj, if_neg i.not_lt_zero, Tableau.entry_zeros]
    have hbasis : List.replicate p.constraintCount 0 = (draft p 0).basis := by
      simp [draft, List.map_const']
    rw [htable, hbasis]
    rfl
  have hdrafts : p.constraints.zipIdx.foldlM (Draft.add p.variableCount) (draft p 0) =
      .ok (draft p p.constraints.length) :=
    foldlM_zipIdx_eq_ok (draft p) fun k c hk =>
      add_draft hk (Program.mismatch_eq_none.1 hfit c (List.mem_of_getElem? hk))
  have hlast : (draft p p.constraints.length).tableau = (EqualityForm.ofProgram p).tableau := by
    refine Tableau.ext_entry rfl rfl fun i j hi hj => ?_
    have hi' : i < p.constraints.length := hi
    rw [entry_draft hi hj, if_pos hi']
  have hbasis : (draft p p.constraints.length).basis = (EqualityForm.ofProgram p).basis := by
    refine List.ext_getElem (by simp [draft]) fun i hi hi' => ?_
    have hi'' : i < p.constraints.length := by simpa [draft, Program.constraintCount] using hi
    simp only [draft, List.getElem_map, List.getElem_range, if_pos hi'']
    exact List.getD_eq_getElem _ _ hi'
  have hrows : (draft p p.constraints.length).artificialRows =
      (EqualityForm.ofProgram p).artificialRows := by
    simp only [draft, List.take_length]
    rfl
  rw [equalityForm, ← p.length_artificialRows]
  show (p.constraints.zipIdx.foldlM (Draft.add p.variableCount) _ >>= _) = _
  rw [hblank, hdrafts, ok_bind, hlast, hbasis, hrows]
  rfl

end SimplexMethod.Checked
