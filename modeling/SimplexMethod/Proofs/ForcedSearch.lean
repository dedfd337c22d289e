import SimplexMethod.Proofs.Assembly
import SimplexMethod.Proofs.IdleConstraint

/-!
# SimplexMethod.Proofs.ForcedSearch

**A search that is forced changes nothing.** A program whose constraints are all upper bounds is
solved without a search for a feasible basis. One constraint that says nothing makes the solve go
the other way: through a pass over artificial costs, the expulsion of an artificial variable and the
dropping of columns. The answer is the same.

Both sides are brought into one form for this. A search that has nothing to look for finds the basis
that is there (`searchFeasible_of_not_hasArtificials`), so every solve answers as if it had searched
(`map_solution_solveFitting`). Two solves that search are compared stage by stage: what the searches
find (`Found`), and what the second phases answer (`Solution.IdleSlack`).
-/

namespace SimplexMethod

open Tableau (rowBefore)

/-! ### Nothing to search for -/

/-- Nothing is dropped if all columns are kept. -/
theorem Tableau.dropColumns_self {t : Tableau ℚ} {n : Nat} (hcols : t.cols = n + 1) :
    t.dropColumns n = t := by
  refine ext_entry rfl (by rw [cols_dropColumns, hcols]) fun i j hi hj => ?_
  rcases Nat.lt_succ_iff_lt_or_eq.1 hj with hlt | rfl
  · exact entry_dropColumns t hi hlt
  · have hrhs : (t.dropColumns j).rhs i = t.rhs i := rhs_dropColumns t hi
    rwa [rhs, rhs, cols_dropColumns, hcols, Nat.add_sub_cancel] at hrhs

/-- Without artificial columns in the basis there is nothing to expel. -/
theorem State.expelArtificials_of_emptied {first : Nat} {tolerance : ℚ} {s : State ℚ}
    (h : ∀ k < s.tableau.rows, s.basis.getD k 0 < first) {i left : Nat}
    (hrows : s.tableau.rows = i + left) : s.expelArtificials first tolerance left i = .ok s := by
  induction left generalizing i with
  | zero => rfl
  | succ left ih =>
      have hkeep : s.expelAt first tolerance i = .ok (i + 1, s) := by
        rw [expelAt, expulsion, if_pos (h i (by omega))]
      unfold expelArtificials
      rw [hkeep]
      exact ih (by omega)

namespace EqualityForm

variable {p : Program ℚ} {settings : Settings ℚ}

/-- Without artificial columns nothing has a cost in the search. -/
theorem Starts.getD_objective_of_none {s : State ℚ} (h : Starts p s)
    (hnone : p.artificialRows = []) (j : Nat) : s.objective.getD j 0 = 0 := by
  have hlength := h.length
  rw [hnone, List.length_nil, Nat.add_zero] at hlength
  by_cases hj : j < s.objective.length
  · rw [State.getD_objective_of_artificialCosts h.objective hj]
    rw [hlength] at hj
    exact if_pos hj
  · exact List.getD_eq_default _ _ (not_lt.1 hj)

/-- **A search that has nothing to look for** finds the basis that is there. -/
theorem searchFeasible_of_not_hasArtificials (htol : 0 ≤ settings.tolerance)
    (hnone : (ofProgram p).hasArtificials = false) :
    ∃ events, (ofProgram p).searchFeasible settings =
      .ok ⟨.feasible (ofProgram p).tableau (ofProgram p).basis 0, events⟩ := by
  have hrows : p.artificialRows = [] := by
    simpa [EqualityForm.hasArtificials, EqualityForm.ofProgram] using hnone
  obtain ⟨s, hs, hstarts⟩ := exists_starts p
  have hbasic : ∀ i, s.basicCost i = 0 := fun i => hstarts.getD_objective_of_none hrows _
  have hlength := hstarts.length
  rw [hrows, List.length_nil, Nat.add_zero] at hlength
  have hprice : s.price (Direction.sign .minimize) settings.tolerance = none := by
    refine State.price_eq_none.2 fun j _ => ?_
    rw [State.reducedCost_eq_sum, hstarts.getD_objective_of_none hrows,
      Finset.sum_eq_zero fun i _ => by rw [hbasic, zero_mul], sub_zero, mul_zero]
    exact neg_nonpos.2 htol
  have hverdict : s.verdict settings (Direction.sign .minimize) = .stop .optimal := by
    rw [State.verdict, hprice]
  have hvalue : s.objectiveValue = 0 := by
    rw [State.objectiveValue_eq_sum]
    exact Finset.sum_eq_zero fun i _ => by rw [hbasic, zero_mul]
  have hexpel : s.expelArtificials (ofProgram p).firstArtificial settings.tolerance
      s.tableau.rows 0 = .ok s := by
    refine State.expelArtificials_of_emptied (fun k hk => ?_) (Nat.zero_add _).symm
    have hlt := s.basis_getD_lt hk
    rwa [hlength] at hlt
  have hdropped : s.tableau.dropColumns (ofProgram p).firstArtificial = (ofProgram p).tableau := by
    rw [hstarts.tableau, Tableau.dropColumns_self]
    rw [cols_ofProgram, hrows]
    rfl
  refine ⟨_, searchFeasible_eq_ok.2 ⟨s, _, hs,
    State.pass_eq_ok.2 ⟨_, State.improve_of_stop hverdict, rfl⟩, ?_, rfl⟩⟩
  unfold feasibilityOf
  dsimp only
  rw [hvalue, magnitude_eq_abs, abs_zero, if_neg (not_lt.2 htol), hexpel]
  show Except.ok (Feasibility.feasible (s.tableau.dropColumns (ofProgram p).firstArtificial)
    s.basis s.iterations) = _
  rw [hdropped, hstarts.basis, hstarts.iterations]

/-! ### The search -/

/-- What two searches find: the same, up to the column of the idle slack and the row of the idle
constraint. -/
inductive Found (gap : Nat) : Feasibility ℚ → Feasibility ℚ → Prop where
  | feasible {s w : State ℚ} (iterations : Nat) : State.Expelled gap s w →
      Found gap (.feasible (s.tableau.dropColumns gap) s.basis iterations)
        (.feasible (w.tableau.dropColumns (gap + 1)) w.basis iterations)
  | infeasible (iterations : Nat) : Found gap (.infeasible iterations) (.infeasible iterations)
  | exhausted (iterations : Nat) : Found gap (.exhausted iterations) (.exhausted iterations)

/-- The last states of the two passes are judged in the same way. -/
theorem feasibilityOf_pushIdle (htol : 0 ≤ settings.tolerance) {pass pass' : Pass ℚ}
    (hsame : pass'.outcome = pass.outcome)
    (hwide : State.Widens p.firstArtificial pass.state pass'.state)
    (hwait : State.Waiting p.firstArtificial pass.state pass'.state) :
    Alike (Found p.firstArtificial) ((ofProgram p).feasibilityOf settings pass)
      ((ofProgram p.pushIdle).feasibilityOf settings pass') := by
  unfold feasibilityOf
  dsimp only
  rw [hsame, hwide.iterations, hwide.objectiveValue_eq]
  cases pass.outcome with
  | unbounded => exact .ok (.infeasible _)
  | exhausted => exact .ok (.exhausted _)
  | optimal =>
      dsimp only
      split
      · exact .ok (.infeasible _)
      · have hs : State.Emptied p.firstArtificial 0 pass.state :=
          ⟨hwide.canonical, hwide.gap_le, fun k hk => absurd hk k.not_lt_zero⟩
        have hw : State.Emptied (p.firstArtificial + 1) 0 pass'.state :=
          ⟨hwide.canonical_wide, hwide.gap_lt, fun k hk => absurd hk k.not_lt_zero⟩
        obtain ⟨t, u, ht, hu, hend⟩ :=
          hwide.exists_expelArtificials hwait htol hs hw (Nat.zero_add _).symm
        rw [show (ofProgram p).firstArtificial = p.firstArtificial from rfl,
          show (ofProgram p.pushIdle).firstArtificial = p.pushIdle.firstArtificial from rfl,
          Program.firstArtificial_pushIdle, hwait.rows, ht, hu]
        exact .ok (.feasible _ hend)

/-- **The two searches find the same.** -/
theorem searchFeasible_pushIdle (p : Program ℚ) (htol : 0 ≤ settings.tolerance) :
    Alike (fun search search' => Found p.firstArtificial search.result search'.result)
      ((ofProgram p).searchFeasible settings) ((ofProgram p.pushIdle).searchFeasible settings) := by
  obtain ⟨s, hs, hstarts⟩ := exists_starts p
  obtain ⟨w, hw, hstarts'⟩ := exists_starts p.pushIdle
  have hprice : ∀ j, (0 : ℚ) ≤ Direction.sign .minimize * idlePrice p.firstArtificial j := by
    intro j
    rw [Direction.sign]
    unfold idlePrice
    split <;> norm_num
  have hsim := State.Widens.simulation p.firstArtificial htol hprice
    fun hwide (hwait : State.Waiting p.firstArtificial _ _) hrow hcol hpivot ht hu =>
      (hwait.exchanged hwide hrow hcol hpivot ht hu).count
  unfold searchFeasible
  rw [hs, hw]
  refine (hsim.pass ⟨hstarts.widens hstarts', hstarts.addedCosts hstarts',
    hstarts.waiting hstarts'⟩ .one).bind fun pass pass' hpass => ?_
  obtain ⟨hwide, -, hwait⟩ := hpass.state
  exact (feasibilityOf_pushIdle htol hpass.outcome hwide hwait).bind fun _ _ hfound => .ok hfound

end EqualityForm

/-! ### The answer -/

/-- The second answer is the first one with one more slack at the end, which is zero and has no
reduced cost; without values the answers are the same. -/
inductive Solution.IdleSlack : Solution ℚ → Solution ℚ → Prop where
  | point {solution : Solution ℚ} {value : ℚ} :
      solution.objectiveValue = .number value →
      solution.variableCount ≤ solution.values.length →
      IdleSlack solution { solution with
        values := solution.values ++ [0], reducedCosts := solution.reducedCosts ++ [0] }
  | withoutPoint (status : Status) {value : Extended ℚ} (iterations variableCount : Nat) :
      (∀ x, value ≠ .number x) →
      IdleSlack (.withoutPoint status value iterations variableCount)
        (.withoutPoint status value iterations variableCount)

/-- What one more slack changes about an answer. -/
theorem Solution.IdleSlack.agrees {a b : Solution ℚ} (h : IdleSlack a b) :
    b.status = a.status ∧ b.objectiveValue = a.objectiveValue ∧ b.iterations = a.iterations ∧
      b.variablePart = a.variablePart ∧
      (∀ value, a.objectiveValue = .number value →
        b.slackPart = a.slackPart ++ [0] ∧ b.reducedCosts = a.reducedCosts ++ [0]) ∧
      ((∀ value, a.objectiveValue ≠ .number value) →
        a.values = [] ∧ a.reducedCosts = [] ∧ b.values = [] ∧ b.reducedCosts = []) := by
  cases h with
  | point hvalue hlength =>
      refine ⟨rfl, rfl, rfl, List.take_append_of_le_length hlength, fun _ _ => ⟨?_, rfl⟩,
        fun hnone => absurd hvalue (hnone _)⟩
      exact List.drop_append_of_le_length hlength
  | withoutPoint status iterations variableCount hvalue =>
      exact ⟨rfl, rfl, rfl, rfl, fun x hx => absurd hx (hvalue x), fun _ => ⟨rfl, rfl, rfl, rfl⟩⟩

namespace State.Widens

variable {gap : Nat} {s w : State ℚ}

/-- **The last states of the second phase are listed alike.** -/
theorem idleSlack_ofState (h : Widens gap s w) (hcosts : AddedCosts gap 0 s w)
    (hlast : Last gap s w) (status : Status) (iterations : Nat) {variableCount : Nat}
    (hcount : variableCount ≤ gap) :
    Solution.IdleSlack (.ofState status s variableCount iterations)
      (.ofState status w variableCount iterations) := by
  have hcolumn : ∀ j ∈ List.range gap, rowBefore gap j = j :=
    fun j hj => Tableau.rowBefore_of_lt (List.mem_range.1 hj)
  have hvalues : (List.range w.objective.length).map w.value =
      (List.range s.objective.length).map s.value ++ [0] := by
    rw [hlast.length_wide, hlast.length, List.range_succ, List.map_append, List.map_singleton,
      h.value_gap]
    refine congrArg (· ++ [0]) (List.map_congr_left fun j hj => ?_)
    rw [← h.value_eq, hcolumn j hj]
  have hreduced : w.reducedCosts.map (· + 0) = s.reducedCosts.map (· + 0) ++ [0] := by
    have hgap : w.reducedCost gap = 0 := hcosts gap (Or.inl rfl) h.gap_lt
    rw [reducedCosts, reducedCosts, hlast.length_wide, hlast.length, List.range_succ,
      List.map_append, List.map_append, List.map_singleton, List.map_singleton, hgap, add_zero]
    refine congrArg (fun xs : List ℚ => xs.map (· + 0) ++ [0]) (List.map_congr_left fun j hj => ?_)
    rw [← h.reducedCost_eq (hlast.length.symm ▸ List.mem_range.1 hj), hcolumn j hj]
  have hlength : variableCount ≤ ((List.range s.objective.length).map s.value).length := by
    rw [List.length_map, List.length_range, hlast.length]
    exact hcount
  unfold Solution.ofState
  rw [h.objectiveValue_eq, hvalues, hreduced]
  exact .point rfl hlength

end State.Widens

namespace Program

variable {p : Program ℚ} {settings : Settings ℚ}

/-- The last states of the two passes are answered alike. -/
theorem solutionOf_pushIdle {pass pass' : Pass ℚ} (hsame : pass'.outcome = pass.outcome)
    (hwide : State.Widens p.firstArtificial pass.state pass'.state)
    (hcosts : State.Widens.AddedCosts p.firstArtificial 0 pass.state pass'.state)
    (hlast : State.Last p.firstArtificial pass.state pass'.state) (iterations : Nat) :
    Solution.IdleSlack (p.solutionOf pass iterations) (p.pushIdle.solutionOf pass' iterations) := by
  have hcount : p.variableCount ≤ p.firstArtificial := Nat.le_add_right _ _
  unfold solutionOf
  rw [hsame]
  cases pass.outcome with
  | optimal => exact hwide.idleSlack_ofState hcosts hlast .optimal iterations hcount
  | exhausted => exact hwide.idleSlack_ofState hcosts hlast .exhausted iterations hcount
  | unbounded =>
      refine .withoutPoint .unbounded iterations p.variableCount ?_
      cases p.direction <;> exact fun _ => nofun

/-- **The second phases answer alike**, after the same number of exchanges. -/
theorem secondPhase_pushIdle (htol : 0 ≤ settings.tolerance) {s w : State ℚ}
    (h : State.Expelled p.firstArtificial s w) (earlier : Nat) :
    Alike (fun run run' => Solution.IdleSlack run.solution run'.solution)
      (p.secondPhase settings (s.tableau.dropColumns p.firstArtificial) s.basis earlier)
      (p.pushIdle.secondPhase settings (w.tableau.dropColumns (p.firstArtificial + 1)) w.basis
        earlier) := by
  have hlength := p.length_extendedCosts
  have hlength' : (p.extendedCosts ++ [0]).length = p.firstArtificial + 1 := by
    rw [List.length_append, hlength]
    rfl
  obtain ⟨t, ht, hover⟩ := h.emptied.exists_handedOver hlength
  obtain ⟨u, hu, hover'⟩ := h.emptied_wide.exists_handedOver hlength'
  have hprice : ∀ j, (0 : ℚ) ≤ p.direction.sign * (0 : Nat → ℚ) j := fun _ => (mul_zero _).ge
  have hsim := State.Widens.simulation p.firstArtificial htol hprice
    fun _ (hlast : State.Last p.firstArtificial _ _) _ _ _ ht hu => (hlast.exchanged ht hu).count
  unfold secondPhase
  rw [ht, p.extendedCosts_pushIdle, hu]
  refine (hsim.pass ⟨h.widens_handedOver hlength hover hover',
    h.addedCosts_handedOver hlength hover hover',
    State.Expelled.last_handedOver hlength hover hover'⟩ .two).bind fun pass pass' hpass => ?_
  obtain ⟨hwide, hcosts, hlast⟩ := hpass.state
  rw [hwide.iterations]
  cases totalIterations earlier pass.state.iterations with
  | error fault => exact .error fault
  | ok iterations => exact .ok (solutionOf_pushIdle hpass.outcome hwide hcosts hlast iterations)

/-- The answer of a solve that always searches for a feasible basis. -/
def solveSearched (p : Program ℚ) (settings : Settings ℚ) : Except Fault (Solution ℚ) := do
  let search ← (EqualityForm.ofProgram p).searchFeasible settings
  match search.result with
  | .feasible tableau basis iterations =>
    let run ← p.secondPhase settings tableau basis iterations
    return run.solution
  | .infeasible iterations => return .infeasible iterations p.variableCount
  | .exhausted iterations => return .exhausted iterations p.variableCount

/-- **Every solve answers as if it had searched.** -/
theorem map_solution_solveFitting (htol : 0 ≤ settings.tolerance) :
    (p.solveFitting settings).map (·.solution) = p.solveSearched settings := by
  unfold solveFitting solveSearched
  dsimp only
  cases hartificials : (EqualityForm.ofProgram p).hasArtificials with
  | false =>
      obtain ⟨events, hsearch⟩ :=
        EqualityForm.searchFeasible_of_not_hasArtificials htol hartificials
      rw [if_neg Bool.false_ne_true, hsearch]
      dsimp only [bind, Except.bind]
      cases p.secondPhase settings (EqualityForm.ofProgram p).tableau
        (EqualityForm.ofProgram p).basis 0 <;> rfl
  | true =>
      rw [if_pos rfl]
      cases (EqualityForm.ofProgram p).searchFeasible settings with
      | error fault => rfl
      | ok search =>
          obtain ⟨result, events⟩ := search
          cases result with
          | feasible tableau basis iterations =>
              dsimp only [bind, Except.bind]
              cases p.secondPhase settings tableau basis iterations <;> rfl
          | infeasible iterations => rfl
          | exhausted iterations => rfl

theorem solveSearched_pushIdle (p : Program ℚ) (htol : 0 ≤ settings.tolerance) :
    Alike Solution.IdleSlack (p.solveSearched settings) (p.pushIdle.solveSearched settings) := by
  unfold solveSearched
  refine (EqualityForm.searchFeasible_pushIdle p htol).bind fun search search' hfound => ?_
  obtain ⟨result, events⟩ := search
  obtain ⟨result', events'⟩ := search'
  cases hfound with
  | feasible iterations hend =>
      exact (secondPhase_pushIdle htol hend iterations).bind fun _ _ hslack => .ok hslack
  | infeasible iterations => exact .ok (.withoutPoint .infeasible iterations _ fun _ => nofun)
  | exhausted iterations => exact .ok (.withoutPoint .exhausted iterations _ fun _ => nofun)

/-- **Both solves answer alike or have the same fault.** -/
theorem solveFitting_pushIdle (p : Program ℚ) (htol : 0 ≤ settings.tolerance) :
    Alike (fun run run' => Solution.IdleSlack run.solution run'.solution)
      (p.solveFitting settings) (p.pushIdle.solveFitting settings) := by
  refine Alike.of_map (f := Run.solution) (g := Run.solution) ?_
  rw [map_solution_solveFitting htol, map_solution_solveFitting htol]
  exact solveSearched_pushIdle p htol

/-- **A search that is forced changes nothing.** That zero times every variable is at least zero is
a constraint that says nothing and needs an artificial variable. A program with it has the same
fault or an answer with the same status, the same objective value, the same number of exchanges and
the same values of the variables. If values are reported, those of the slacks and the reduced costs
are followed by one zero; otherwise both answers list none. This holds for constraints stored in any
way, under every cap and any tolerance that is not negative. -/
theorem solve_push_idle (p : Program ℚ) (settings : Settings ℚ) (htol : 0 ≤ settings.tolerance) :
    let q := p.push ⟨List.replicate p.variableCount 0, .atLeast, 0⟩
    p.add (List.replicate p.variableCount 0) ">=" 0 = .ok q ∧
      (∀ e, q.solve settings = .error e ↔ p.solve settings = .error e) ∧
      ∀ run, p.solve settings = .ok run → ∃ run', q.solve settings = .ok run' ∧
        run'.solution.status = run.solution.status ∧
        run'.solution.objectiveValue = run.solution.objectiveValue ∧
        run'.solution.iterations = run.solution.iterations ∧
        run'.solution.variablePart = run.solution.variablePart ∧
        (∀ value, run.solution.objectiveValue = .number value →
          run'.solution.slackPart = run.solution.slackPart ++ [0] ∧
          run'.solution.reducedCosts = run.solution.reducedCosts ++ [0]) ∧
        ((∀ value, run.solution.objectiveValue ≠ .number value) →
          run.solution.values = [] ∧ run.solution.reducedCosts = [] ∧
          run'.solution.values = [] ∧ run'.solution.reducedCosts = []) := by
  intro q
  have hadd : p.add (List.replicate p.variableCount 0) ">=" 0 = .ok q := by
    have htoken : Relation.ofToken ">=" = .ok .atLeast := by decide
    rw [add, htoken]
    show Except.ok (p.push (Constraint.normalize _)) = .ok q
    rw [Constraint.normalize, if_neg (lt_irrefl _)]
  have hfits : q.mismatch = p.mismatch := mismatch_pushIdle p
  have halike : Alike _ (p.solveFitting settings) (q.solveFitting settings) :=
    solveFitting_pushIdle p htol
  refine ⟨hadd, ?_⟩
  unfold solve
  rw [hfits]
  cases p.mismatch with
  | some e =>
      refine ⟨fun _ => Iff.rfl, fun run hrun => ?_⟩
      cases hrun
  | none =>
      dsimp only
      generalize p.solveFitting settings = result at halike ⊢
      generalize q.solveFitting settings = result' at halike ⊢
      cases halike with
      | error fault =>
          refine ⟨fun _ => Iff.rfl, fun run hrun => ?_⟩
          cases hrun
      | @ok run run' hslack =>
          refine ⟨fun e => ⟨fun h => ?_, fun h => ?_⟩, fun first hfirst => ?_⟩
          · cases h
          · cases h
          · cases hfirst
            exact ⟨run', rfl, hslack.agrees⟩

/-- Two upper bounds need no search. With the constraint that says nothing there is one. -/
theorem solve_push_idle_upper_bounds :
    let p : Program ℚ := ⟨.maximize, [3, 2], [⟨[1, 1], .atMost, 4⟩, ⟨[1, 0], .atMost, 3⟩]⟩
    let settings : Settings ℚ := ⟨some 10, 1 / 1000⟩
    0 ≤ settings.tolerance ∧ (EqualityForm.ofProgram p).hasArtificials = false ∧
      ∃ run', (p.push ⟨[0, 0], .atLeast, 0⟩).solve settings = .ok run' ∧
        run'.solution.status = .optimal ∧ run'.solution.objectiveValue = .number 11 ∧
        run'.solution.variablePart = [3, 1] ∧ run'.solution.slackPart = [0, 0, 0] ∧
        run'.solution.reducedCosts = [0, 0, 2, 1, 0] := by
  intro p settings
  have htol : 0 ≤ settings.tolerance := by decide +kernel
  have hanswer : (p.solve settings).map (·.solution) =
      .ok ⟨.optimal, .number 11, [3, 1, 0, 0], [0, 0, 2, 1], 2, 2⟩ := by decide +kernel
  refine ⟨htol, by decide, ?_⟩
  cases hrun : p.solve settings with
  | error e => rw [hrun] at hanswer; cases hanswer
  | ok run =>
      rw [hrun] at hanswer
      have hsolution := Except.ok.inj hanswer
      obtain ⟨-, -, hruns⟩ := solve_push_idle p settings htol
      obtain ⟨run', hrun', hstatus, hvalue, -, hvariables, hpoint, -⟩ := hruns run hrun
      dsimp only at hsolution
      rw [hsolution] at hstatus hvalue hvariables hpoint
      obtain ⟨hslacks, hreduced⟩ := hpoint 11 rfl
      exact ⟨run', hrun', hstatus, hvalue, hvariables, hslacks, hreduced⟩

end Program

end SimplexMethod
