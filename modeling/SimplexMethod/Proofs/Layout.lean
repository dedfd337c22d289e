import SimplexMethod.Proofs.Standard

/-!
# SimplexMethod.Proofs.Layout

**The equality form is faithful to its program**, column by column and solution by solution.

Slack columns are numbered by the constraints and artificial columns by those constraints that need
one. Where the three relations are mixed the two numberings come apart. What keeps them together is
`of_getElem?_artificialRows`: entry `k` of the list of artificial rows is the row whose artificial
column is number `k`. It is an induction over the constraints from the last one, which adds either
an entry and a column or neither.

A point satisfies the constraints exactly if there are slacks that complete it to a solution without
artificial variables. Since the slack column of an equation is zero throughout, its slack would be
open; asked to be zero as well, the slacks are determined by the point (`Completes.eq_map_slack`).

Nothing is assumed of the signs of the right-hand sides.
-/

namespace SimplexMethod

namespace Program

/-! ### Artificial columns and their rows -/

section Artificials

variable {K : Type}

/-- One more constraint is one more artificial row, if it needs an artificial variable. -/
theorem artificialRows_push (p : Program K) (c : Constraint K) :
    (p.push c).artificialRows =
      p.artificialRows ++ if c.relation.needsArtificial then [p.constraintCount] else [] := by
  rw [artificialRows, constraints_push, List.zipIdx_append, List.filter_append, List.map_append]
  cases hneeds : c.relation.needsArtificial <;> simp [hneeds, artificialRows, constraintCount]

/-- **Artificial rows are numbered like artificial columns**: the row at place `k` of the list needs
an artificial variable, and so do `k` constraints before it. -/
theorem of_getElem?_artificialRows {p : Program K} {k i : Nat}
    (h : p.artificialRows[k]? = some i) :
    ∃ c, p.constraints[i]? = some c ∧ c.relation.needsArtificial = true ∧
      p.artificialColumn i = p.firstArtificial + k := by
  simp only [artificialColumn, Nat.add_left_cancel_iff]
  obtain ⟨direction, objective, constraints⟩ := p
  induction constraints using List.reverseRecOn with
  | nil => simp [artificialRows] at h
  | append_singleton before d ih =>
      let q : Program K := ⟨direction, objective, before⟩
      have hpush : (q.push d).artificialRows[k]? = some i := h
      rw [artificialRows_push, List.getElem?_append] at hpush
      split at hpush
      · -- a row of one of the constraints before
        obtain ⟨c, hc, hneeds, hcount⟩ := ih hpush
        have hi : i < before.length := (List.getElem?_eq_some_iff.1 hc).1
        refine ⟨c, ?_, hneeds, ?_⟩
        · rw [List.getElem?_append_left hi, hc]
        · rw [List.take_append_of_le_length hi.le, hcount]
      · next hk =>
        -- the row of the last constraint, which all of the others are before
        rw [length_artificialRows] at hk hpush
        cases hneeds : d.relation.needsArtificial with
        | false => simp [hneeds] at hpush
        | true =>
            rw [hneeds, if_pos rfl, List.getElem?_singleton] at hpush
            split at hpush
            · next hlast =>
              cases hpush
              refine ⟨d, List.getElem?_concat_length, hneeds, ?_⟩
              show ((before ++ [d]).take before.length).countP _ = k
              rw [List.take_left]
              exact Nat.le_antisymm (not_lt.1 hk) (Nat.sub_eq_zero_iff_le.1 hlast)
            · cases hpush

end Artificials

end Program

namespace EqualityForm

/-! ### The layout -/

/-- The form has the shape, the starting basis and the artificial columns that the constraints of
the program ask for. -/
structure Layout (f : EqualityForm ℚ) (p : Program ℚ) : Prop where
  rows : f.tableau.rows = p.constraintCount
  cols : f.tableau.cols = p.variableCount + p.constraintCount +
    p.constraints.countP (fun c => c.relation = .atLeast ∨ c.relation = .equal) + 1
  firstArtificial : f.firstArtificial = p.variableCount + p.constraintCount
  length_basis : f.basis.length = p.constraintCount
  /-- The starting column of a constraint is its unit column, and artificial unless the constraint
  is an upper bound. -/
  starting : ∀ i c, p.constraints[i]? = some c →
    ∃ b, f.basis[i]? = some b ∧ b < f.tableau.cols - 1 ∧
      (∀ k < f.tableau.rows, f.tableau.entry k b = if k = i then 1 else 0) ∧
      (b < f.firstArtificial ↔ c.relation = .atMost)
  length_artificialRows : f.artificialRows.length =
    p.constraints.countP fun c => c.relation = .atLeast ∨ c.relation = .equal
  /-- Artificial columns are unit columns, each of the row that is listed for it. -/
  artificial : ∀ k r, f.artificialRows[k]? = some r → r < f.tableau.rows ∧
    ∀ i < f.tableau.rows, f.tableau.entry i (f.firstArtificial + k) = if i = r then 1 else 0
  hasArtificials : f.hasArtificials = true ↔
    ∃ c ∈ p.constraints, c.relation = .atLeast ∨ c.relation = .equal

variable {p : Program ℚ}

theorem length_artificialRows_ofProgram (p : Program ℚ) :
    (ofProgram p).artificialRows.length =
      p.constraints.countP fun c => c.relation = .atLeast ∨ c.relation = .equal := by
  show p.artificialRows.length = _
  rw [Program.length_artificialRows]
  refine List.countP_congr fun c _ => ?_
  rw [Relation.needsArtificial_iff, decide_eq_true_iff]

/-- A starting column is left of the artificial ones exactly if it is a slack. -/
theorem startingColumn_lt_firstArtificial {i : Nat} {c : Constraint ℚ}
    (hc : p.constraints[i]? = some c) :
    p.startingColumn i c < p.firstArtificial ↔ c.relation = .atMost := by
  have hi : i < p.constraintCount := (List.getElem?_eq_some_iff.1 hc).1
  unfold Program.startingColumn
  cases hrelation : c.relation with
  | atMost => simp [Relation.needsArtificial, Program.firstArtificial, hi]
  | equal => simp [Relation.needsArtificial, p.firstArtificial_le_artificialColumn i]
  | atLeast => simp [Relation.needsArtificial, p.firstArtificial_le_artificialColumn i]

/-- **An artificial column is the starting column of its row.** -/
theorem startingColumn_of_getElem?_artificialRows {k r : Nat} (h : p.artificialRows[k]? = some r) :
    ∃ c, p.constraints[r]? = some c ∧ p.startingColumn r c = p.firstArtificial + k := by
  obtain ⟨c, hc, hneeds, hcolumn⟩ := Program.of_getElem?_artificialRows h
  exact ⟨c, hc, by rw [Program.startingColumn, if_pos hneeds, hcolumn]⟩

/-- The starting column of a constraint is its unit column. -/
theorem entry_startingColumn {i : Nat} {c : Constraint ℚ} (hc : p.constraints[i]? = some c) :
    ∀ k < (ofProgram p).tableau.rows,
      (ofProgram p).tableau.entry k (p.startingColumn i c) = if k = i then 1 else 0 := by
  intro k hk
  rw [← getD_basis_ofProgram hc]
  exact (isBasis_ofProgram p).unit i (List.getElem?_eq_some_iff.1 hc).1 k hk

theorem layout_ofProgram (p : Program ℚ) : (ofProgram p).Layout p where
  rows := rfl
  cols := by rw [cols_ofProgram, ← length_artificialRows_ofProgram]; rfl
  firstArtificial := rfl
  length_basis := length_basis_ofProgram p
  starting := by
    intro i c hc
    refine ⟨p.startingColumn i c, ?_, startingColumn_lt hc, entry_startingColumn hc,
      startingColumn_lt_firstArtificial hc⟩
    simp [ofProgram, hc]
  length_artificialRows := length_artificialRows_ofProgram p
  artificial := by
    intro k r hr
    obtain ⟨c, hc, hcolumn⟩ := startingColumn_of_getElem?_artificialRows hr
    refine ⟨(List.getElem?_eq_some_iff.1 hc).1, fun i hi => ?_⟩
    have hunit := entry_startingColumn hc i hi
    rwa [hcolumn] at hunit
  hasArtificials := Program.hasArtificials_iff

end EqualityForm

/-! ### Points and their slacks -/

namespace Program

variable {p : Program ℚ} {x slacks : List ℚ}

/-- The slacks, one for each constraint and zero for an equation, complete the point to a
non-negative solution of the equations in which every artificial variable is zero. -/
structure Completes (p : Program ℚ) (x slacks : List ℚ) : Prop where
  length : slacks.length = p.constraintCount
  nonneg : ∀ s ∈ slacks, 0 ≤ s
  equal : ∀ i c, p.constraints[i]? = some c → c.relation = .equal → slacks.getD i 0 = 0
  /-- The columns that come after those of the slacks are past the end of the list. -/
  solves : (EqualityForm.ofProgram p).tableau.Solves fun j => (x ++ slacks).getD j 0

/-- A list with an entry for each variable and each slack gives zero to the artificial columns. -/
theorem upTo_getD (hx : x.length = p.variableCount) (hslacks : slacks.length = p.constraintCount) :
    (upTo p.firstArtificial fun j => (x ++ slacks).getD j 0) = fun j => (x ++ slacks).getD j 0 := by
  funext j
  by_cases hj : j < p.firstArtificial
  · exact upTo_of_lt _ hj
  · rw [upTo_of_le _ (not_lt.1 hj), List.getD_eq_default]
    rw [List.length_append, hx, hslacks]
    exact not_lt.1 hj

/-- The slacks that a point has at the constraints it satisfies complete it. -/
theorem completes_map_slack (hfit : p.mismatch = none)
    (hx : FeasiblePoint p.variableCount p.constraints x) :
    p.Completes x (p.constraints.map (·.slack x)) where
  length := List.length_map _
  nonneg := by
    intro s hs
    obtain ⟨c, hc, rfl⟩ := List.mem_map.1 hs
    exact Constraint.slack_nonneg (hx.holds c hc)
  equal := by
    intro i c hc hrelation
    simp [List.getD_eq_getElem?_getD, hc, Constraint.slack, hrelation]
  solves := by
    have hsolves := solves_extension hfit hx
    rwa [extension, upTo_getD hx.length (List.length_map _)] at hsolves

/-- The point of a completed point. -/
theorem point_getD (hx : x.length = p.variableCount) :
    p.point (fun j => (x ++ slacks).getD j 0) = x := by
  refine List.ext_getElem (by rw [length_point, hx]) fun j _ hj => ?_
  simp [point, List.getD_eq_getElem?_getD, List.getElem?_append_left hj, hj]

/-- **A completed point satisfies the constraints.** -/
theorem Completes.feasiblePoint (h : p.Completes x slacks) (hfit : p.mismatch = none)
    (hx : x.length = p.variableCount) (hnonneg : ∀ v ∈ x, 0 ≤ v) :
    FeasiblePoint p.variableCount p.constraints x := by
  have hsolves := h.solves
  rw [← upTo_getD hx h.length] at hsolves
  have hentries : ∀ v ∈ x ++ slacks, 0 ≤ v := fun v hv =>
    (List.mem_append.1 hv).elim (hnonneg v) (h.nonneg v)
  have hpoint := feasiblePoint_of_solves hfit (getD_nonneg hentries) hsolves
  rwa [point_getD hx] at hpoint

/-- **The slacks are those of the point.** -/
theorem Completes.eq_map_slack (h : p.Completes x slacks) (hfit : p.mismatch = none)
    (hx : x.length = p.variableCount) : slacks = p.constraints.map (·.slack x) := by
  have hsolves := h.solves
  rw [← upTo_getD hx h.length] at hsolves
  refine List.ext_getElem (by rw [h.length, List.length_map]; rfl) fun i hi _ => ?_
  have hi' : i < p.constraints.length := lt_of_lt_of_eq hi h.length
  have hc : p.constraints[i]? = some p.constraints[i] := List.getElem?_eq_getElem hi'
  have hcolumn : (x ++ slacks).getD (p.variableCount + i) 0 = slacks.getD i 0 := by
    rw [← hx, List.getD_append_right _ _ _ _ (by omega), Nat.add_sub_cancel_left]
  have hslack := slack_point hfit hsolves hc fun hequal => hcolumn.trans (h.equal i _ hc hequal)
  rw [point_getD hx, hcolumn] at hslack
  rw [List.getElem_map, hslack, List.getD_eq_getElem _ _ hi]

end Program

/-- **The equality form is faithful.** Its shape, its starting basis and its artificial columns are
as the constraints ask for. A non-negative point satisfies all of the constraints exactly if there
are slacks that complete it to a non-negative solution without artificial variables, and there is
no choice of slacks. -/
theorem EqualityForm.ofProgram_faithful {p : Program ℚ} (hfit : p.mismatch = none) :
    (ofProgram p).Layout p ∧
      ∀ x : List ℚ, x.length = p.variableCount → (∀ v ∈ x, 0 ≤ v) →
        ((∀ c ∈ p.constraints, c.Holds x) ↔ ∃ slacks, p.Completes x slacks) ∧
        ∀ slacks slacks', p.Completes x slacks → p.Completes x slacks' → slacks = slacks' := by
  refine ⟨layout_ofProgram p, fun x hx hnonneg => ⟨⟨fun h => ?_, fun h => ?_⟩, ?_⟩⟩
  · exact ⟨_, Program.completes_map_slack hfit ⟨hx, hnonneg, h⟩⟩
  · obtain ⟨slacks, hslacks⟩ := h
    exact (hslacks.feasiblePoint hfit hx hnonneg).holds
  · intro slacks slacks' h h'
    rw [h.eq_map_slack hfit hx, h'.eq_map_slack hfit hx]

/-- One constraint of each relation, of which the first and the last take an artificial column. The
point `(3, 1)` leaves two at the first and at the second, and `(0, 1)` does not reach the first. -/
theorem EqualityForm.ofProgram_faithful_mixed :
    let p : Program ℚ := ⟨.minimize, [1, 2],
      [⟨[1, 1], .atLeast, 2⟩, ⟨[1, 0], .atMost, 5⟩, ⟨[0, 1], .equal, 1⟩]⟩
    p.mismatch = none ∧ (ofProgram p).Layout p ∧ (ofProgram p).basis = [5, 3, 6] ∧
      (ofProgram p).artificialRows = [0, 2] ∧ p.Completes [3, 1] [2, 2, 0] ∧
      (∀ slacks, p.Completes [3, 1] slacks → slacks = [2, 2, 0]) ∧
      ¬∃ slacks, p.Completes [0, 1] slacks := by
  intro p
  have hfit : p.mismatch = none := by decide +kernel
  obtain ⟨hlayout, hpoints⟩ := ofProgram_faithful hfit
  obtain ⟨hreached, hunique⟩ := hpoints [3, 1] rfl (by decide)
  obtain ⟨hmissed, -⟩ := hpoints [0, 1] rfl (by decide)
  obtain ⟨slacks, hslacks⟩ := hreached.1 (by decide +kernel)
  have hvalues : slacks = [2, 2, 0] := (hslacks.eq_map_slack hfit rfl).trans (by decide +kernel)
  rw [hvalues] at hslacks
  have hout : ¬∀ c ∈ p.constraints, c.Holds [0, 1] := by decide +kernel
  exact ⟨hfit, hlayout, rfl, rfl, hslacks, fun slacks h => hunique slacks _ h hslacks,
    fun h => hout (hmissed.2 h)⟩

end SimplexMethod
