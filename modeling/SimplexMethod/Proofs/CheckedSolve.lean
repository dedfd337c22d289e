import SimplexMethod.Proofs.Answer
import SimplexMethod.Proofs.CanonicalStates
import SimplexMethod.Proofs.CheckedForm

/-!
# SimplexMethod.Proofs.CheckedSolve

**A solve never asks for anything that is not there.** The equations of
`SimplexMethod.Proofs.CheckedSteps` are carried outwards: a pass, the expulsion of artificial
variables, the search, the second phase, and a solve by checked operations have the results of the
total ones, faults included (`Checked.solveFitting_eq`). What each level has to know of its table is
its shape only, so nothing is assumed of the numbers so far.

Over the rationals, with a tolerance that is not negative, states are canonical, and from a
canonical state no exchange fails. So of all the faults that a checked operation can have, one is
left, an iteration counter without a next value (`Program.fault_of_solveFitting`).

Shapes are followed to the end as well: no table of a solve is larger than the equality form, so
where that one has room every table has (`Program.hasRoom_of_visits`).
-/

namespace SimplexMethod

variable {K : Type} [Zero K]

namespace Checked

/-! ### Passes -/

section Passes

variable [One K] [Neg K] [Add K] [Sub K] [Mul K] [Div K] [LT K] [DecidableLT K] [LE K]
  [DecidableLE K] [BEq K] [Selectable K]

/-- What a finished pass is to the checked operations. -/
def passed (pass : Pass K) : Outcome × Sheet K × Prices K := (pass.outcome, pass.state.priced)

omit [One K] [Sub K] [LE K] [DecidableLE K] [BEq K] in
/-- The ratio test of a column that is priced in. -/
theorem ratioTestAt_of_price {s : State K} {sign tolerance : K} {col : Nat}
    (h : s.price sign tolerance = some col) :
    s.tableau.ratioTestAt col tolerance = .ok (s.tableau.ratioTest col tolerance) := by
  have hlt := lt_of_firstImproving h
  rw [State.reducedCosts, List.length_map, List.length_range] at hlt
  exact if_pos (Or.inl (by rw [s.cols_tableau]; omega))

/-- The loop stops where the verdict is to stop. -/
theorem improve_of_stop {settings : Settings K} {sign : K} {s : State K} {outcome : Outcome}
    (h : s.verdict settings sign = .stop outcome) (room : Nat) :
    improve settings sign room s.priced = .ok (outcome, s.priced) := by
  cases hprice : s.price sign settings.tolerance with
  | none =>
      have hprices : firstImproving s.priced.2.reducedCosts sign settings.tolerance = none := hprice
      rw [State.verdict, hprice] at h
      cases h
      rw [improve, hprices]
  | some col =>
      have hprices : firstImproving s.priced.2.reducedCosts sign settings.tolerance = some col :=
        hprice
      rw [State.verdict, hprice] at h
      rw [improve, hprices]
      by_cases hcap : settings.capReached s.iterations = true
      · cases (if_pos hcap).symm.trans h
        exact if_pos hcap
      · have hrest := (if_neg hcap).symm.trans h
        refine (if_neg hcap).trans ?_
        show (s.tableau.ratioTestAt col settings.tolerance >>= _) = _
        rw [ratioTestAt_of_price hprice, ok_bind]
        cases hratio : s.tableau.ratioTest col settings.tolerance with
        | none =>
            rw [hratio] at hrest
            cases hrest
            rfl
        | some row =>
            rw [hratio] at hrest
            cases hrest

/-- The loop makes the exchange that the verdict calls for. -/
theorem improve_of_exchange {settings : Settings K} {sign : K} {s : State K} {row col : Nat}
    (h : s.verdict settings sign = .exchange row col) (room : Nat) :
    improve settings sign room s.priced = s.sheet.exchange row col >>= fun next =>
      match room with
      | 0 => .error .counterOverflow
      | room + 1 => improve settings sign room (next.1.count, next.2) := by
  obtain ⟨hprice, hcap, hratio⟩ := State.verdict_eq_exchange h
  have hprices : firstImproving s.priced.2.reducedCosts sign settings.tolerance = some col := hprice
  have hroom : ¬settings.capReached s.priced.1.iterations = true := Bool.eq_false_iff.1 hcap
  rw [improve, hprices]
  refine (if_neg hroom).trans ?_
  show (s.tableau.ratioTestAt col settings.tolerance >>= _) = _
  rw [ratioTestAt_of_price hprice, ok_bind, hratio]
  rfl

/-- **The loop by checked operations** is the loop. -/
theorem improve_priced (settings : Settings K) (phase : Phase) (sign : K) (room : Nat)
    (s : State K) :
    improve settings sign room s.priced =
      (State.improve settings phase sign room s).map passed := by
  induction room using Nat.strongRecOn generalizing s with
  | ind room ih =>
      cases hverdict : s.verdict settings sign with
      | stop outcome =>
          rw [improve_of_stop hverdict, State.improve_of_stop hverdict]
          rfl
      | exchange row col =>
          rw [improve_of_exchange hverdict, exchange_sheet]
          cases hnext : s.exchange row col with
          | error fault =>
              rw [State.improve_of_fault hverdict hnext]
              rfl
          | ok next =>
              cases room with
              | zero =>
                  rw [State.improve_zero_of_exchange hverdict hnext]
                  rfl
              | succ left =>
                  rw [State.improve_of_exchange hverdict hnext]
                  show improve settings sign left next.count.priced = _
                  rw [ih left left.lt_succ_self]
                  cases State.improve settings phase sign left next.count <;> rfl

/-- **A whole pass** by checked operations. -/
theorem pass_priced (s : State K) (settings : Settings K) (phase : Phase) (sign : K) :
    pass settings sign s.priced = (s.pass settings phase sign).map passed := by
  show improve settings sign s.room s.priced = _
  rw [improve_priced settings phase, State.pass]
  cases State.improve settings phase sign s.room s <;> rfl

end Passes

/-! ### Expelling artificial variables -/

section Expulsion

variable [One K] [Neg K] [Add K] [Sub K] [Mul K] [Div K] [LT K] [DecidableLT K] [LE K]
  [DecidableLE K] [BEq K] {first : Nat} {tolerance : K} {s : State K}

omit [One K] [Add K] [Sub K] [Mul K] [Div K] [LE K] [DecidableLE K] [BEq K] in
theorem replacement_eq {i : Nat} (hi : i < s.tableau.rows) (hfirst : first ≤ s.tableau.cols) :
    replacement s.tableau first tolerance i = .ok (s.replacement first tolerance i) := by
  refine findM?_eq_ok_find? fun j hj => ?_
  rw [cell_of_lt hi ((List.mem_range.1 hj).trans_le hfirst)]
  rfl

omit [Add K] [LT K] [DecidableLT K] in
theorem rows_of_exchange {t : State K} {row col : Nat} (h : s.exchange row col = .ok t) :
    t.tableau.rows = s.tableau.rows := by
  obtain ⟨-, hrepair, -⟩ := State.exchange_eq_ok h
  have hrows := congrArg (·.1.rows) hrepair
  simpa using hrows

omit [Add K] in
/-- What one round of the expulsion does to the shape of a state, and to its costs. -/
theorem shape_of_expelAt {i next : Nat} {t : State K} (hi : i < s.tableau.rows)
    (h : s.expelAt first tolerance i = .ok (next, t)) :
    t.tableau.rows + (i + 1) = s.tableau.rows + next ∧ t.objective = s.objective := by
  unfold State.expelAt at h
  split at h
  · cases h
    exact ⟨rfl, rfl⟩
  · next j hj =>
    obtain ⟨u, hexchange, h⟩ := Fault.bind_eq_ok.1 h
    cases h
    refine ⟨?_, (State.exchange_eq_ok hexchange).1⟩
    show u.tableau.rows + (i + 1) = s.tableau.rows + (i + 1)
    rw [rows_of_exchange hexchange]
  · cases h
    refine ⟨?_, rfl⟩
    show (s.tableau.eraseRow i).rows + (i + 1) = s.tableau.rows + i
    rw [Tableau.rows_eraseRow hi]
    omega

/-- **One round of the expulsion.** -/
theorem expelAt_sheet {i : Nat} (hi : i < s.tableau.rows) (hfirst : first ≤ s.tableau.cols) :
    s.sheet.expelAt first tolerance i =
      (s.expelAt first tolerance i).map fun round => (round.1, round.2.sheet) := by
  have hbasis : i < s.basis.length := by rw [s.length_basis]; exact hi
  unfold Sheet.expelAt State.expelAt State.expulsion
  rw [show getAt s.sheet.basis i = _ from getAt_of_lt hbasis 0, ok_bind]
  show (if s.basis.getD i 0 < first then _ else _) = _
  by_cases hbasic : s.basis.getD i 0 < first
  · rw [if_pos hbasic, if_pos hbasic]
    rfl
  · rw [if_neg hbasic, if_neg hbasic,
      show replacement s.sheet.tableau first tolerance i = _ from replacement_eq hi hfirst, ok_bind]
    cases s.replacement first tolerance i with
    | some j =>
        dsimp only
        rw [exchange_sheet]
        cases hexchange : s.exchange i j with
        | error fault => rfl
        | ok next =>
            have hi' : i < next.tableau.rows := by
              rw [rows_of_exchange hexchange]
              exact hi
            have hcols := next.cols_pos
            show (rhsColumn next.tableau >>= fun j => next.tableau.withCell i j 0 >>= _) = _
            rw [rhsColumn_of_pos hcols, ok_bind, withCell_of_lt hi' (by omega), ok_bind]
            rfl
    | none =>
        dsimp only
        rw [show s.sheet.tableau.eraseRowAt i = _ from eraseRowAt_of_lt hi, ok_bind,
          show eraseAt s.sheet.basis i = _ from eraseAt_of_lt hbasis, ok_bind]
        rfl

/-- **The whole expulsion.** -/
theorem expelArtificials_sheet {left i : Nat} (hrows : s.tableau.rows = i + left)
    (hfirst : first ≤ s.tableau.cols) :
    expelArtificials first tolerance left i s.sheet =
      (s.expelArtificials first tolerance left i).map State.sheet := by
  induction left generalizing i s with
  | zero => rfl
  | succ left ih =>
      refine Fault.bind_eq_map (expelAt_sheet (by omega) hfirst) fun round hround => ?_
      obtain ⟨hrows', hobjective⟩ := shape_of_expelAt (by omega) hround
      refine ih (by omega) ?_
      rw [round.2.cols_tableau, hobjective, ← s.cols_tableau]
      exact hfirst

omit [Add K] in
theorem objective_of_expelArtificials {left i : Nat} (hrows : s.tableau.rows = i + left)
    {t : State K} (h : s.expelArtificials first tolerance left i = .ok t) :
    t.objective = s.objective := by
  induction left generalizing i s with
  | zero => cases h; rfl
  | succ left ih =>
      obtain ⟨round, hround, hrest⟩ := Fault.bind_eq_ok.1 h
      obtain ⟨hrows', hobjective⟩ := shape_of_expelAt (by omega) hround
      exact (ih (by omega) hrest).trans hobjective

end Expulsion

/-! ### Both phases -/

section Solve

variable [One K] [Neg K] [Add K] [Sub K] [Mul K] [Div K] [LT K] [DecidableLT K] [LE K]
  [DecidableLE K] [BEq K] [Selectable K] {p : Program K} {settings : Settings K}

/-- A pass keeps the costs. -/
theorem objective_of_reaches {s t : State K} {sign : K} (h : State.Reaches settings sign s t) :
    t.objective = s.objective := by
  induction h with
  | refl => rfl
  | tail _ hstep ih =>
      obtain ⟨row, col, next, -, hexchange, rfl⟩ := hstep.exists_exchange
      exact (State.exchange_eq_ok hexchange).1.trans ih

omit [Neg K] [Add K] [Sub K] [Mul K] [Div K] [LT K] [DecidableLT K] [LE K] [DecidableLE K] [BEq K]
  [Selectable K] in
theorem fillUp_artificialCosts [Neg K] (p : Program K) :
    fillUp (List.replicate p.firstArtificial (0 : K))
      (p.firstArtificial + p.artificialRows.length) 1 =
        .ok (EqualityForm.ofProgram p).artificialCosts := by
  have hlength : (List.replicate p.firstArtificial (0 : K)).length ≤
      p.firstArtificial + p.artificialRows.length := by simp
  refine (if_pos hlength).trans (congrArg Except.ok (List.ext_getElem (by simp) fun j hj hj' => ?_))
  simp only [EqualityForm.artificialCosts, List.getElem_map, List.getElem_range,
    List.getElem_append, List.getElem_replicate, List.length_replicate]
  rfl

/-- The search works on all the columns of the equality form, artificial ones included. -/
theorem cols_of_searchPass {begun : State K} {pass : Pass K} {phase : Phase} {sign : K}
    (hbegun : State.ofTableau (EqualityForm.ofProgram p).artificialCosts
      (EqualityForm.ofProgram p).tableau (EqualityForm.ofProgram p).basis = .ok begun)
    (hpass : begun.pass settings phase sign = .ok pass) :
    pass.state.tableau.cols = p.firstArtificial + p.artificialRows.length + 1 := by
  rw [pass.state.cols_tableau, objective_of_reaches (State.reaches_of_pass hpass).1,
    (State.ofTableau_eq_ok hbegun).1, EqualityForm.length_artificialCosts,
    EqualityForm.cols_ofProgram, Nat.add_sub_cancel]

omit [Selectable K] in
/-- **What the search hands over**: the artificial variables are expelled, and then their columns
are dropped. The right-hand side is where it was, since the expulsion erases rows only. -/
theorem handOver_eq {first width iterations : Nat} {tolerance : K} {s : State K}
    (hcols : s.tableau.cols = width + 1) (hfirst : first ≤ width) :
    (expelArtificials first tolerance s.tableau.rows 0 s.sheet >>= fun final =>
      final.tableau.columnAt width >>= fun rhs =>
        final.tableau.columnsBetweenAt 0 first >>= fun t =>
          putBack t rhs >>= fun t => pure (.feasible t final.basis iterations)) =
      s.expelArtificials first tolerance s.tableau.rows 0 >>= fun final =>
        pure (Feasibility.feasible ((final.tableau.columnsBetween 0 first).appendColumn
          (final.tableau.column (final.tableau.cols - 1))) final.basis iterations) := by
  rw [expelArtificials_sheet (Nat.zero_add _).symm (by omega)]
  cases hexpel : s.expelArtificials first tolerance s.tableau.rows 0 with
  | error fault => rfl
  | ok final =>
      have hcols' : final.tableau.cols = width + 1 := by
        rw [final.cols_tableau, objective_of_expelArtificials (Nat.zero_add _).symm hexpel,
          ← s.cols_tableau, hcols]
      have hlength : (final.tableau.column width).length =
          (final.tableau.columnsBetween 0 first).rows := Tableau.length_column _ _
      show (final.tableau.columnAt width >>= fun rhs =>
        final.tableau.columnsBetweenAt 0 first >>= fun t => putBack t rhs >>= _) = _
      rw [columnAt_of_lt (by omega), ok_bind, columnsBetweenAt_of_le (by omega), ok_bind,
        putBack_of_length hlength, ok_bind, ok_bind, hcols', Nat.add_sub_cancel]
      rfl

/-- **The search.** -/
theorem searchFeasible_eq (p : Program K) (settings : Settings K) :
    searchFeasible (EqualityForm.ofProgram p) settings =
      ((EqualityForm.ofProgram p).searchFeasible settings).map (·.result) := by
  have hcolumn : rhsColumn (EqualityForm.ofProgram p).tableau =
      .ok (p.firstArtificial + p.artificialRows.length) := rhsColumn_of_pos (Nat.succ_pos _)
  unfold searchFeasible EqualityForm.searchFeasible
  rw [hcolumn, ok_bind]
  show (fillUp (List.replicate p.firstArtificial 0) _ 1 >>= _) = _
  rw [fillUp_artificialCosts, ok_bind]
  refine Fault.bind_eq_map (start_eq _ _ _) fun begun hbegun => ?_
  refine Fault.bind_eq_map (pass_priced begun settings .one _) fun pass hpass => ?_
  unfold EqualityForm.feasibilityOf
  cases houtcome : pass.outcome with
  | unbounded =>
      simp only [passed, houtcome]
      rfl
  | exhausted =>
      simp only [passed, houtcome]
      rfl
  | optimal =>
      simp only [passed, houtcome]
      show (if settings.tolerance < magnitude pass.state.objectiveValue then _ else _) = _
      by_cases hsum : settings.tolerance < magnitude pass.state.objectiveValue
      · simp only [if_pos hsum]
        rfl
      · simp only [if_neg hsum]
        refine (handOver_eq (cols_of_searchPass hbegun hpass) (Nat.le_add_right _ _)).trans ?_
        show _ = Except.map _ ((pass.state.expelArtificials p.firstArtificial settings.tolerance
          pass.state.tableau.rows 0 >>= _) >>= _)
        cases pass.state.expelArtificials p.firstArtificial settings.tolerance
          pass.state.tableau.rows 0 <;> rfl

/-! ### Extraction -/

omit [One K] [Sub K] [Div K] [LT K] [DecidableLT K] [LE K] [DecidableLE K] [BEq K]
  [Selectable K] [Neg K] [Mul K] in
/-- **The values**, written down row by row: the last row in which a column is basic stays. -/
theorem values_eq (s : State K) :
    values s.objective.length s.tableau s.basis =
      .ok ((List.range s.objective.length).map s.value) := by
  have hcols := s.cols_pos
  let made (k : Nat) : List K := (List.range s.objective.length).map fun j =>
    ((List.range k).reverse.find? fun i => s.basis.getD i 0 == j).elim 0 fun i => s.rhs i + 0
  have hblank : List.replicate s.objective.length (0 : K) = made 0 := by
    simp [made, List.map_const']
  have hlast : made s.basis.length = (List.range s.objective.length).map s.value := by
    refine List.map_congr_left fun j _ => ?_
    rw [s.length_basis]
    show (s.lastRowOf j).elim 0 _ = _
    unfold State.value
    cases s.lastRowOf j <;> rfl
  rw [values, hblank, ← hlast]
  refine foldlM_zipIdx_eq_ok made fun k b hb => ?_
  obtain ⟨hk, rfl⟩ := List.getElem?_eq_some_iff.1 hb
  have hcost : s.basis[k] < (made k).length := by
    simpa [made] using s.basis_lt _ (List.getElem_mem hk)
  rw [rhsAt_of_lt (s.length_basis ▸ hk) hcols, ok_bind, setAt_of_lt hcost]
  refine congrArg Except.ok (List.ext_getElem (by simp [made]) fun j hj hj' => ?_)
  rw [List.getElem_set]
  simp only [made, List.getElem_map, List.getElem_range, List.range_succ, List.reverse_append,
    List.reverse_singleton, List.singleton_append, List.find?_cons, List.getD_eq_getElem _ _ hk]
  by_cases hbj : s.basis[k] = j
  · rw [if_pos hbj, beq_iff_eq.2 hbj]
    rfl
  · rw [if_neg hbj, beq_eq_false_iff_ne.2 hbj]

omit [One K] [Sub K] [Div K] [LT K] [DecidableLT K] [LE K] [DecidableLE K] [BEq K]
  [Selectable K] in
theorem solutionOf_priced (status : Status) (s : State K) (variableCount iterations : Nat) :
    solutionOf status s.priced variableCount iterations =
      .ok (.ofState status s variableCount iterations) := by
  show (values s.objective.length s.tableau s.basis >>= _) = _
  rw [values_eq, ok_bind]
  rfl

omit [One K] [Neg K] [Add K] [Sub K] [Mul K] [Div K] [LT K] [DecidableLT K] [LE K]
  [DecidableLE K] [BEq K] [Selectable K] in
theorem fillUp_extendedCosts (p : Program K) :
    fillUp p.objective p.firstArtificial 0 = .ok p.extendedCosts := by
  have hfirst : p.firstArtificial = p.objective.length + p.constraintCount := rfl
  rw [fillUp, hfirst, if_pos (Nat.le_add_right _ _), Nat.add_sub_cancel_left]
  rfl

/-- **The second phase.** -/
theorem secondPhase_eq (p : Program K) (settings : Settings K) (t : Tableau K) (basis : List Nat)
    (earlier : Nat) :
    secondPhase p settings t basis earlier =
      (p.secondPhase settings t basis earlier).map (·.solution) := by
  unfold secondPhase Program.secondPhase
  rw [fillUp_extendedCosts, ok_bind]
  refine Fault.bind_eq_map (start_eq _ _ _) fun begun _ => ?_
  refine Fault.bind_eq_map (pass_priced begun settings .two _) fun pass _ => ?_
  refine Fault.bind_eq_map_of_same fun iterations _ => ?_
  unfold Program.solutionOf
  cases pass.outcome with
  | optimal => exact solutionOf_priced _ _ _ _
  | unbounded => rfl
  | exhausted => exact solutionOf_priced _ _ _ _

/-- **A solve** of a program whose constraints fit its objective. -/
theorem solveFitting_eq (hfit : p.mismatch = none) :
    solveFitting p settings = (p.solveFitting settings).map (·.solution) := by
  unfold solveFitting Program.solveFitting
  rw [equalityForm_eq hfit, ok_bind]
  dsimp only
  by_cases hartificials : (EqualityForm.ofProgram p).hasArtificials = true
  · rw [if_pos hartificials, if_pos hartificials]
    refine Fault.bind_eq_map (searchFeasible_eq p settings) fun search _ => ?_
    cases search.result with
    | feasible t basis iterations =>
        dsimp only
        rw [secondPhase_eq]
        cases p.secondPhase settings t basis iterations <;> rfl
    | infeasible iterations => rfl
    | exhausted iterations => rfl
  · rw [if_neg hartificials, if_neg hartificials, secondPhase_eq]
    cases p.secondPhase settings (EqualityForm.ofProgram p).tableau
      (EqualityForm.ofProgram p).basis 0 <;> rfl

end Solve

end Checked

/-- **A solve by checked operations** comes to what a solve comes to, faults included. -/
theorem Program.solveChecked_eq_map [One K] [Neg K] [Add K] [Sub K] [Mul K] [Div K] [LT K]
    [DecidableLT K] [LE K] [DecidableLE K] [BEq K] [Selectable K] (p : Program K)
    (settings : Settings K) : p.solveChecked settings = (p.solve settings).map (·.solution) := by
  unfold solveChecked solve
  cases hfit : p.mismatch with
  | some e => rfl
  | none =>
      dsimp only
      rw [Checked.solveFitting_eq hfit]
      cases p.solveFitting settings <;> rfl

/-! ### Room -/

section Room

variable [One K] [Neg K] [Add K] [Sub K] [Mul K] [Div K] [LT K] [DecidableLT K] [LE K]
  [DecidableLE K] [BEq K] [Selectable K]

omit [Add K] [Sub K] [Mul K] [LT K] [DecidableLT K] [Selectable K] in
theorem State.shape_of_ofTableau {objective : List K} {t : Tableau K} {basis : List Nat}
    {s : State K} (h : State.ofTableau objective t basis = .ok s) :
    s.tableau.rows = t.rows ∧ s.tableau.cols = t.cols := by
  obtain ⟨-, hrepair, -⟩ := State.ofTableau_eq_ok h
  have hrows := congrArg (·.1.rows) hrepair
  have hcols := congrArg (·.1.cols) hrepair
  exact ⟨by simpa using hrows, by simpa using hcols⟩

theorem State.Step.shape {settings : Settings K} {sign : K} {s t : State K}
    (h : State.Step settings sign s t) :
    t.tableau.rows = s.tableau.rows ∧ t.tableau.cols = s.tableau.cols := by
  obtain ⟨row, col, next, -, hexchange, rfl⟩ := h.exists_exchange
  refine ⟨Checked.rows_of_exchange (t := next) hexchange, ?_⟩
  rw [State.cols_tableau, s.cols_tableau]
  exact congrArg (·.length + 1) (State.exchange_eq_ok hexchange).1

omit [Add K] [Selectable K] in
/-- A round gives the next row to look at, or the same one with a row less. -/
theorem State.next_le_of_expelAt {s t : State K} {first i next : Nat} {tolerance : K}
    (h : s.expelAt first tolerance i = .ok (next, t)) : next ≤ i + 1 := by
  unfold State.expelAt at h
  split at h
  · cases h
    exact le_rfl
  · obtain ⟨_, -, h⟩ := Fault.bind_eq_ok.1 h
    cases h
    exact le_rfl
  · cases h
    exact i.le_succ

namespace Program

variable {p : Program K} {settings : Settings K} {stage : Stage} {s : State K}

/-- A table that a solve meets in the stage has no more rows and columns than the equality form. In
an expulsion its rows are those that are done with and those that are left. -/
structure Within (p : Program K) (stage : Stage) (t : Tableau K) : Prop where
  rows_le : t.rows ≤ p.constraintCount
  cols_le : t.cols ≤ p.firstArtificial + p.artificialRows.length + 1
  rows_eq : ∀ row left, stage = .expulsion row left → t.rows = row + left

/-- **No table of a solve is larger than the equality form.** -/
theorem Visits.within (h : p.Visits settings stage s) : p.Within stage s.tableau := by
  induction h with
  | searchStart _ _ hstart =>
      obtain ⟨hrows, hcols⟩ := State.shape_of_ofTableau hstart
      exact ⟨hrows.le, hcols.le, fun _ _ h => nomatch h⟩
  | searchStep _ hstep ih =>
      obtain ⟨hrows, hcols⟩ := hstep.shape
      exact ⟨hrows ▸ ih.rows_le, hcols ▸ ih.cols_le, fun _ _ h => nomatch h⟩
  | expulsionStart _ _ _ ih =>
      refine ⟨ih.rows_le, ih.cols_le, fun row left h => ?_⟩
      cases h
      exact (Nat.zero_add _).symm
  | @expulsionStep s t row left next _ hround ih =>
      have hrows := ih.rows_eq row (left + 1) rfl
      obtain ⟨hleft, hobjective⟩ := Checked.shape_of_expelAt (by omega) hround
      have hcols : t.tableau.cols = s.tableau.cols := by
        rw [t.cols_tableau, s.cols_tableau, hobjective]
      have hnext := State.next_le_of_expelAt hround
      have hbound := ih.rows_le
      refine ⟨by omega, hcols ▸ ih.cols_le, fun _ _ h => ?_⟩
      cases h
      omega
  | @handover s _ _ _ hstart ih =>
      obtain ⟨hrows, hcols⟩ := State.shape_of_ofTableau hstart
      have hhanded : (p.handedOver s).cols = p.firstArtificial + 1 := rfl
      exact ⟨hrows ▸ ih.rows_le, by omega, fun _ _ h => nomatch h⟩
  | directStart _ _ hstart =>
      obtain ⟨hrows, hcols⟩ := State.shape_of_ofTableau hstart
      exact ⟨hrows.le, hcols.le, fun _ _ h => nomatch h⟩
  | secondStep _ hstep ih =>
      obtain ⟨hrows, hcols⟩ := hstep.shape
      exact ⟨hrows ▸ ih.rows_le, hcols ▸ ih.cols_le, fun _ _ h => nomatch h⟩

/-- **A solve that has room for its equality form never runs out of room.** Every table that it
meets could have been made from nothing, and where the artificial columns have been dropped there is
room to append the right-hand side. -/
theorem hasRoom_of_visits (hroom : Tableau.HasRoom (EqualityForm.ofProgram p).tableau.rows
      (EqualityForm.ofProgram p).tableau.cols) (h : p.Visits settings stage s) :
    Tableau.HasRoom s.tableau.rows s.tableau.cols ∧
      (s.tableau.columnsBetween 0 p.firstArtificial).appendColumnAt
        (s.tableau.column (s.tableau.cols - 1)) = .ok (p.handedOver s) := by
  have hwithin := h.within
  refine ⟨hroom.mono hwithin.rows_le hwithin.cols_le, ?_⟩
  exact (if_pos (Tableau.length_column _ _)).trans
    (if_pos (hroom.mono hwithin.rows_le (Nat.succ_le_succ (Nat.le_add_right _ _))))

end Program

end Room

/-! ### Faults -/

namespace State

variable {first i : Nat} {tolerance : ℚ} {s : State ℚ}

/-- **The expulsion has a result.** -/
theorem Emptied.exists_expelArtificials (h : Emptied first i s) (htol : 0 ≤ tolerance)
    {left : Nat} (hrows : s.tableau.rows = i + left) :
    ∃ t, s.expelArtificials first tolerance left i = .ok t := by
  induction left generalizing i s with
  | zero => exact ⟨s, rfl⟩
  | succ left ih =>
      have hround : ∃ next t, s.expelAt first tolerance i = .ok (next, t) := by
        have hi : i < s.tableau.rows := by omega
        rcases h.canonical.expelAt_cases htol hi h.first_le with ⟨-, hkeep⟩ |
          ⟨j, u, -, -, -, -, -, -, hexchange⟩ | ⟨-, -, herase⟩
        · exact ⟨_, _, hkeep⟩
        · exact ⟨_, _, hexchange⟩
        · exact ⟨_, _, herase⟩
      obtain ⟨next, t, hround⟩ := hround
      obtain ⟨hemptied, hleft⟩ := h.expelAt htol hrows hround
      obtain ⟨u, hu⟩ := ih hemptied hleft
      exact ⟨u, Fault.bind_eq_ok.2 ⟨(next, t), hround, hu⟩⟩

end State

namespace Program

variable {p : Program ℚ} {settings : Settings ℚ}

/-- The search has no fault but an overflow of its counter. -/
theorem fault_of_searchFeasible (htol : 0 ≤ settings.tolerance) {fault : Fault}
    (h : (EqualityForm.ofProgram p).searchFeasible settings = .error fault) :
    fault = .counterOverflow := by
  have hcols : (EqualityForm.ofProgram p).tableau.cols =
      (EqualityForm.ofProgram p).artificialCosts.length + 1 := by simp
  obtain ⟨start, hstart, hobjective, htableau, hset, -⟩ :=
    State.exists_ofTableau hcols (EqualityForm.isBasis_ofProgram p)
  have hcanonical : start.Canonical := by
    rw [State.Canonical, htableau, hset]
    exact EqualityForm.isBasis_ofProgram p
  rw [EqualityForm.searchFeasible, hstart, Checked.ok_bind] at h
  rcases Fault.bind_eq_error.1 h with hpass | ⟨pass, hpass, h⟩
  · exact hcanonical.fault_of_pass htol hpass
  rcases Fault.bind_eq_error.1 h with hresult | ⟨result, -, h⟩
  · obtain ⟨hlast, hsame⟩ := hcanonical.reaches htol (State.reaches_of_pass hpass).1
    have hemptied : pass.state.Emptied (EqualityForm.ofProgram p).firstArtificial 0 := by
      refine ⟨hlast, ?_, fun k hk => absurd hk k.not_lt_zero⟩
      rw [hsame.objective, hobjective, EqualityForm.length_artificialCosts,
        EqualityForm.cols_ofProgram]
      exact Nat.le_add_right _ _
    obtain ⟨final, hfinal⟩ := hemptied.exists_expelArtificials htol (Nat.zero_add _).symm
    unfold EqualityForm.feasibilityOf at hresult
    dsimp only at hresult
    split at hresult
    · cases hresult
    · cases hresult
    · split at hresult
      · cases hresult
      · rw [hfinal] at hresult
        cases hresult
  · cases h

/-- The second phase, from a canonical basis, has no fault but an overflow of a counter. -/
theorem fault_of_secondPhase (htol : 0 ≤ settings.tolerance) {t : Tableau ℚ} {basis : List Nat}
    {earlier : Nat} (hcols : t.cols = p.firstArtificial + 1) (hbasis : t.IsBasis basis)
    {fault : Fault} (h : p.secondPhase settings t basis earlier = .error fault) :
    fault = .counterOverflow := by
  rw [← p.length_extendedCosts] at hcols
  obtain ⟨start, hstart, -, htableau, hset, -⟩ := State.exists_ofTableau hcols hbasis
  have hcanonical : start.Canonical := by
    rw [State.Canonical, htableau, hset]
    exact hbasis
  rw [secondPhase, hstart, Checked.ok_bind] at h
  rcases Fault.bind_eq_error.1 h with hpass | ⟨pass, -, h⟩
  · exact hcanonical.fault_of_pass htol hpass
  · rcases Fault.bind_eq_error.1 h with htotal | ⟨iterations, -, h⟩
    · unfold totalIterations at htotal
      split at htotal
      · cases htotal
      · cases htotal
        rfl
    · cases h

/-- **A solve has no fault but an overflow of a counter.** -/
theorem fault_of_solveFitting (htol : 0 ≤ settings.tolerance) (hfit : p.mismatch = none)
    {fault : Fault} (h : p.solveFitting settings = .error fault) : fault = .counterOverflow := by
  unfold solveFitting at h
  dsimp only at h
  split at h
  · next hartificials =>
    rcases Fault.bind_eq_error.1 h with hsearch | ⟨search, hsearch, h⟩
    · exact fault_of_searchFeasible htol hsearch
    · obtain ⟨hfinds, -⟩ := finds_of_searchFeasible hfit hartificials hsearch
      cases hresult : search.result with
      | feasible tableau basis iterations =>
          rw [hresult] at hfinds h
          cases hfinds with
          | feasible hvisits =>
              have hbasis := isBasis_handedOver (tracks_of_visits htol hvisits)
              rcases Fault.bind_eq_error.1 h with hsecond | ⟨run, -, h⟩
              · exact fault_of_secondPhase htol rfl hbasis hsecond
              · cases h
      | infeasible iterations => rw [hresult] at h; cases h
      | exhausted iterations => rw [hresult] at h; cases h
  · next hnone =>
    rcases Fault.bind_eq_error.1 h with hsecond | ⟨run, -, h⟩
    · exact fault_of_secondPhase htol (cols_of_not_hasArtificials (Bool.eq_false_iff.2 hnone))
        (EqualityForm.isBasis_ofProgram p) hsecond
    · cases h

/-- The error of a program names a constraint with a wrong number of coefficients. -/
theorem mismatch_eq_some {e : ModelError} (h : p.mismatch = some e) :
    ∃ i c, p.constraints[i]? = some c ∧ c.coefficients.length ≠ p.variableCount ∧
      e = .dimensionMismatch (i + 1) c.coefficients.length p.variableCount := by
  obtain ⟨i, c, hc, hmisfit, -, he⟩ := mismatch_eq_some_iff.1 h
  exact ⟨i, c, hc, hmisfit, he⟩

/-- **A solve never asks for anything that is not there**, for constraints stored in any way, also
without constraints or variables. Done by checked operations only, it comes to the same. A program
with a wrong number of coefficients is refused before a state is met; any other one has a solution,
unless a counter overflows, which is the only fault of all that can arise. No exchange is made at
an entry that is zero, so no row is divided by zero. -/
theorem solve_by_checked_operations (p : Program ℚ) {settings : Settings ℚ}
    (htol : 0 ≤ settings.tolerance) :
    p.solveChecked settings = (p.solve settings).map (·.solution) ∧
    ((∃ c ∈ p.constraints, c.coefficients.length ≠ p.variableCount) →
      (∃ i c, p.constraints[i]? = some c ∧ c.coefficients.length ≠ p.variableCount ∧
        p.solveChecked settings = .error (.model
          (.dimensionMismatch (i + 1) c.coefficients.length p.variableCount))) ∧
      ∀ stage s, ¬p.Visits settings stage s) ∧
    ((∀ c ∈ p.constraints, c.coefficients.length = p.variableCount) →
      (∃ solution, p.solveChecked settings = .ok solution) ∨
        p.solveChecked settings = .error (.fault .counterOverflow)) ∧
    ∀ stage s row col, p.Visits settings stage s → p.Exchanges settings stage s row col →
      s.tableau.entry row col ≠ 0 := by
  refine ⟨solveChecked_eq_map p settings, fun hwrong => ?_, fun hright => ?_,
    fun stage s row col hvisits hexchanges => ?_⟩
  · have hrefused : p.mismatch ≠ none := fun hfit => by
      obtain ⟨c, hc, hne⟩ := hwrong
      exact hne (mismatch_eq_none.1 hfit c hc)
    refine ⟨?_, fun stage s hvisits => hrefused hvisits.mismatch_eq_none⟩
    obtain ⟨e, he⟩ := Option.ne_none_iff_exists'.1 hrefused
    obtain ⟨i, c, hc, hne, rfl⟩ := mismatch_eq_some he
    refine ⟨i, c, hc, hne, ?_⟩
    rw [solveChecked, he]
  · have hfit := mismatch_eq_none.2 hright
    rw [solveChecked, hfit, Checked.solveFitting_eq hfit]
    cases hrun : p.solveFitting settings with
    | ok run => exact Or.inl ⟨run.solution, rfl⟩
    | error fault =>
        rw [fault_of_solveFitting htol hfit hrun]
        exact Or.inr rfl
  · exact ((tracks_of_visits htol hvisits).exchanges htol hexchanges).2.2

/-- The last constraint is stored with a right-hand side below zero, one row is erased and one
artificial variable expelled. With one coefficient too few in a further constraint the program is
refused. -/
theorem solve_by_checked_operations_stored_raw :
    let p : Program ℚ := ⟨.minimize, [1, 1], [⟨[1, 1], .equal, 2⟩, ⟨[2, 2], .equal, 4⟩,
      ⟨[1, -1], .atLeast, 2⟩, ⟨[-1, 0], .atMost, -1⟩]⟩
    let q := p.push ⟨[1], .atMost, 3⟩
    let settings : Settings ℚ := ⟨some 5, 1 / 1000⟩
    let s : State ℚ := ⟨[0, 0, 0, 0, 0, 0, 1, 1, 1],
      ⟨4, 10, #[1, 1, 0, 0, 0, 0, 1, 0, 0, 2, 2, 2, 0, 0, 0, 0, 0, 1, 0, 4,
        1, -1, 0, 0, -1, 0, 0, 0, 1, 2, -1, 0, 0, 0, 0, 1, 0, 0, 0, -1], rfl⟩,
      [6, 7, 8, 5], 0, rfl, rfl, by decide⟩
    0 ≤ settings.tolerance ∧
      (∀ c ∈ p.constraints, c.coefficients.length = p.variableCount) ∧
      (∃ solution, p.solveChecked settings = .ok solution ∧
        solution.values = [2, 0, 0, 0, 0, 1]) ∧
      (∃ c ∈ q.constraints, c.coefficients.length ≠ q.variableCount) ∧
      (∃ e, q.solveChecked settings = .error (.model e)) ∧
      p.Visits settings .search s ∧ p.Exchanges settings .search s 0 0 ∧
      s.tableau.entry 0 0 ≠ 0 := by
  intro p q settings s
  have htol : 0 ≤ settings.tolerance := by decide +kernel
  have hright : ∀ c ∈ p.constraints, c.coefficients.length = p.variableCount := by decide +kernel
  have hwrong : ∃ c ∈ q.constraints, c.coefficients.length ≠ q.variableCount := by decide +kernel
  have hvalues : (p.solve settings).map (·.solution.values) = .ok [2, 0, 0, 0, 0, 1] := by
    decide +kernel
  have hvisits : p.Visits settings .search s :=
    .searchStart (by decide +kernel) (by decide +kernel) (by decide +kernel)
  have hexchanges : p.Exchanges settings .search s 0 0 := .search (by decide +kernel)
  obtain ⟨hsame, -, hsolved, hpivots⟩ := solve_by_checked_operations p htol
  obtain ⟨-, hrefused, -⟩ := solve_by_checked_operations q htol
  obtain ⟨⟨i, c, -, -, he⟩, -⟩ := hrefused hwrong
  refine ⟨htol, hright, ?_, hwrong, ⟨_, he⟩, hvisits, hexchanges,
    hpivots .search s 0 0 hvisits hexchanges⟩
  have hchecked : (p.solveChecked settings).map (·.values) = .ok [2, 0, 0, 0, 0, 1] := by
    rw [hsame]
    cases hrun : p.solve settings with
    | error e => rw [hrun] at hvalues; cases hvalues
    | ok run => rw [hrun] at hvalues; exact hvalues
  rcases hsolved hright with ⟨solution, hsolution⟩ | herror
  · rw [hsolution] at hchecked
    exact ⟨solution, hsolution, Except.ok.inj hchecked⟩
  · rw [herror] at hchecked
    cases hchecked

end Program

end SimplexMethod
