import SimplexMethod.Proofs.SecondPhase

/-!
# SimplexMethod.Proofs.Answer

**What an answer says about the program**, over exact numbers. `Answered` lists the ways in which a
solve comes to an answer, and `solve_cases` says that there are no others: where the
program is well formed, only a counter without room keeps a solve from answering. Each
of the main results is a case analysis of it, brought back to the constraints that the
caller gave:

* `solve_optimal`: an optimal answer is a feasible point than which none is better;
* `solve_infeasible_iff`: the answer is infeasible exactly if there is no feasible
  point;
* `solve_unbounded_iff`: the answer is unbounded exactly if there are feasible points
  beyond every bound.
-/

namespace SimplexMethod

/-- The end of the line that better objective values lie towards. -/
def Direction.limit : Direction → Extended ℚ
  | .maximize => .infinity
  | .minimize => .negInfinity

/-! ### Solving -/

namespace Program

variable {p : Program ℚ} {cap : Option Nat}

/-- The ways in which a solve comes to its answer. -/
inductive Answered (p : Program ℚ) (cap : Option Nat) : Solution ℚ → Prop where
  /-- The search found that nothing is admitted. -/
  | infeasible {iterations : Nat} :
      (¬∃ v, p.Admits v) → Answered p cap (.infeasible iterations p.variableCount)
  /-- The cap ended the search. -/
  | unsearched {iterations : Nat} : Answered p cap (.exhausted iterations p.variableCount)
  /-- The second phase ended at an optimal state. -/
  | optimal {s : State ℚ} {pass : Pass ℚ} {iterations : Nat} :
      s.Represents p → s.pass ⟨cap, 0⟩ .two p.direction.sign = .ok pass →
      pass.outcome = .optimal →
      Answered p cap (.ofState .optimal pass.state p.variableCount iterations)
  /-- The second phase ended at a state with an unbounded column. -/
  | unbounded {s : State ℚ} {pass : Pass ℚ} {iterations : Nat} :
      s.Represents p → s.pass ⟨cap, 0⟩ .two p.direction.sign = .ok pass →
      pass.outcome = .unbounded →
      Answered p cap (.unbounded p.direction iterations p.variableCount)
  /-- The cap ended the second phase. -/
  | stopped {s : State ℚ} {pass : Pass ℚ} {iterations : Nat} :
      s.Represents p → s.pass ⟨cap, 0⟩ .two p.direction.sign = .ok pass →
      pass.outcome = .exhausted →
      Answered p cap (.ofState .exhausted pass.state p.variableCount iterations)

theorem answered_solutionOf {s : State ℚ} {pass : Pass ℚ} (hs : s.Represents p)
    (hpass : s.pass ⟨cap, 0⟩ .two p.direction.sign = .ok pass) (iterations : Nat) :
    Answered p cap (p.solutionOf pass iterations) := by
  unfold solutionOf
  cases houtcome : pass.outcome with
  | optimal => exact .optimal hs hpass houtcome
  | unbounded => exact .unbounded hs hpass houtcome
  | exhausted => exact .stopped hs hpass houtcome

/-- **The second phase answers**, unless the counter runs out of room. -/
theorem secondPhase_cases {tableau : Tableau ℚ} {basis : List Nat}
    (h : p.FeasibleBasis tableau basis) (cap : Option Nat) (earlier : Nat) :
    (∃ run, p.secondPhase ⟨cap, 0⟩ tableau basis earlier = .ok run ∧
        Answered p cap run.solution) ∨
      p.secondPhase ⟨cap, 0⟩ tableau basis earlier = .error .counterOverflow := by
  obtain ⟨s, hs, hobjective, htableau, -, hfeasible⟩ := h.exists_ofTableau
  have hrepresents : s.Represents p := ⟨hfeasible, hobjective, htableau ▸ h.solves⟩
  unfold secondPhase
  rw [hs]
  cases hpass : s.pass ⟨cap, 0⟩ .two p.direction.sign with
  | error f =>
      have hcounter := hfeasible.canonical.fault_of_pass le_rfl hpass
      refine Or.inr ?_
      rw [← hcounter]
      simp only [bind, Except.bind, hpass]
  | ok pass =>
      by_cases hroom : earlier + pass.state.iterations < counterLimit
      · refine Or.inl ⟨⟨p.solutionOf pass (earlier + pass.state.iterations), pass.events⟩, ?_,
          answered_solutionOf hrepresents hpass _⟩
        simp only [bind, Except.bind, hpass, totalIterations, if_pos hroom, pure, Except.pure]
      · refine Or.inr ?_
        simp only [bind, Except.bind, hpass, totalIterations, if_neg hroom]

theorem cols_of_not_hasArtificials (hnone : (EqualityForm.ofProgram p).hasArtificials = false) :
    (EqualityForm.ofProgram p).tableau.cols = p.firstArtificial + 1 := by
  have hrows : p.artificialRows = [] := by
    simpa [EqualityForm.hasArtificials, EqualityForm.ofProgram] using hnone
  rw [EqualityForm.cols_ofProgram, hrows]
  rfl

/-- Without artificial variables the equations have no further columns. -/
theorem solves_of_not_hasArtificials (hnone : (EqualityForm.ofProgram p).hasArtificials = false)
    (v : Nat → ℚ) : (EqualityForm.ofProgram p).tableau.Solves v ↔
      (EqualityForm.ofProgram p).tableau.Solves (upTo p.firstArtificial v) := by
  refine Tableau.solves_congr fun j hj => ?_
  rw [cols_of_not_hasArtificials hnone, Nat.add_sub_cancel] at hj
  rw [upTo_of_lt v hj]

/-- Without artificial variables the equality form is a feasible basis itself. -/
theorem feasibleBasis_of_not_hasArtificials (hrhs : ∀ c ∈ p.constraints, 0 ≤ c.rhs)
    (hnone : (EqualityForm.ofProgram p).hasArtificials = false) :
    p.FeasibleBasis (EqualityForm.ofProgram p).tableau (EqualityForm.ofProgram p).basis :=
  ⟨cols_of_not_hasArtificials hnone, solves_of_not_hasArtificials hnone,
    EqualityForm.rhs_ofProgram_nonneg hrhs, EqualityForm.isBasis_ofProgram p⟩

/-- **A solve answers**, unless the counter runs out of room. -/
theorem solveFitting_cases (hrhs : ∀ c ∈ p.constraints, 0 ≤ c.rhs) (cap : Option Nat) :
    (∃ run, p.solveFitting ⟨cap, 0⟩ = .ok run ∧ Answered p cap run.solution) ∨
      p.solveFitting ⟨cap, 0⟩ = .error .counterOverflow := by
  unfold solveFitting
  by_cases hartificials : (EqualityForm.ofProgram p).hasArtificials = true
  · rw [if_pos hartificials]
    rcases EqualityForm.searchFeasible_cases hrhs cap with
      ⟨⟨result, events⟩, hsearch, hsound⟩ | herror
    · rw [hsearch]
      cases hsound with
      | @feasible tableau basis iterations hbasis =>
          simp only [bind, Except.bind]
          rcases secondPhase_cases hbasis cap iterations with ⟨run, hrun, hanswered⟩ | herror
          · rw [hrun]
            exact Or.inl ⟨_, rfl, hanswered⟩
          · rw [herror]
            exact Or.inr rfl
      | infeasible hnone => exact Or.inl ⟨_, rfl, .infeasible hnone⟩
      | exhausted => exact Or.inl ⟨_, rfl, .unsearched⟩
    · rw [herror]
      exact Or.inr rfl
  · rw [if_neg hartificials]
    have hbasis := feasibleBasis_of_not_hasArtificials hrhs (Bool.eq_false_iff.2 hartificials)
    rcases secondPhase_cases hbasis cap 0 with ⟨run, hrun, hanswered⟩ | herror
    · rw [hrun]
      exact Or.inl ⟨_, rfl, hanswered⟩
    · rw [herror]
      exact Or.inr rfl

theorem solve_cases (hfit : p.mismatch = none) (hrhs : ∀ c ∈ p.constraints, 0 ≤ c.rhs)
    (cap : Option Nat) :
    (∃ run, p.solve ⟨cap, 0⟩ = .ok run ∧ Answered p cap run.solution) ∨
      p.solve ⟨cap, 0⟩ = .error (.fault .counterOverflow) := by
  unfold solve
  rw [hfit]
  rcases solveFitting_cases hrhs cap with ⟨run, hrun, hanswered⟩ | herror
  · refine Or.inl ⟨run, ?_, hanswered⟩
    simp only [hrun]
    rfl
  · refine Or.inr ?_
    simp only [herror]
    rfl

/-- A program with an answer is well formed, and the answer comes about in one of the ways
listed. -/
theorem answered_of_solve (hrhs : ∀ c ∈ p.constraints, 0 ≤ c.rhs) {solution : Solution ℚ}
    (h : (p.solve ⟨cap, 0⟩).map (·.solution) = .ok solution) :
    p.mismatch = none ∧ Answered p cap solution := by
  cases hfit : p.mismatch with
  | some e =>
      unfold solve at h
      rw [hfit] at h
      cases h
  | none =>
      refine ⟨rfl, ?_⟩
      rcases solve_cases hfit hrhs cap with ⟨run, hrun, hanswered⟩ | herror
      · rw [hrun] at h
        cases h
        exact hanswered
      · rw [herror] at h
        cases h

/-! ### What the answers mean -/

namespace Answered

variable {solution : Solution ℚ}

/-- An optimal answer lists a feasible point and its slacks, and no feasible point is better. -/
theorem exists_optimal (h : Answered p cap solution) (hfit : p.mismatch = none)
    (hstatus : solution.status = .optimal) :
    ∃ x, solution.values = p.extension x ∧ solution.variableCount = p.variableCount ∧
      solution.objectiveValue = .number (dot p.objective x) ∧
      FeasiblePoint p.variableCount p.constraints x ∧
      ∀ y, FeasiblePoint p.variableCount p.constraints y →
        ¬p.direction.Better (dot p.objective y) (dot p.objective x) := by
  cases h with
  | infeasible _ => cases hstatus
  | unsearched => cases hstatus
  | optimal hs hpass houtcome =>
      have hend := hs.of_pass hpass
      refine ⟨_, hend.values_eq hfit, rfl, ?_, hend.feasiblePoint_value hfit, fun y hy => ?_⟩
      · rw [← hend.objectiveValue_eq]
        exact congrArg Extended.number (add_zero _)
      · exact hs.not_better_of_pass hfit hpass houtcome hy
  | unbounded _ _ _ => cases hstatus
  | stopped _ _ _ => cases hstatus

/-- The answer is infeasible exactly if no point is feasible. -/
theorem infeasible_iff (h : Answered p cap solution) (hfit : p.mismatch = none)
    (hstatus : solution.status ≠ .exhausted) :
    solution.status = .infeasible ↔ ¬∃ x, FeasiblePoint p.variableCount p.constraints x := by
  cases h with
  | infeasible hnone =>
      rw [exists_admits_iff hfit] at hnone
      exact ⟨fun _ => hnone, fun _ => rfl⟩
  | unsearched => exact absurd rfl hstatus
  -- every state of the second phase stands for a feasible point
  | optimal hs _ _ => exact iff_of_false nofun (not_not_intro ⟨_, hs.feasiblePoint_value hfit⟩)
  | unbounded hs _ _ => exact iff_of_false nofun (not_not_intro ⟨_, hs.feasiblePoint_value hfit⟩)
  | stopped _ _ _ => exact absurd rfl hstatus

/-- The answer is unbounded exactly if there are feasible points beyond every bound. -/
theorem unbounded_iff (h : Answered p cap solution) (hfit : p.mismatch = none)
    (hstatus : solution.status ≠ .exhausted) :
    solution.status = .unbounded ↔ ∀ bound, ∃ x,
      FeasiblePoint p.variableCount p.constraints x ∧
        p.direction.Better (dot p.objective x) bound := by
  cases h with
  | infeasible hnone =>
      rw [exists_admits_iff hfit] at hnone
      refine iff_of_false nofun fun hbeyond => ?_
      obtain ⟨x, hx, -⟩ := hbeyond 0
      exact absurd ⟨x, hx⟩ hnone
  | unsearched => exact absurd rfl hstatus
  | optimal hs hpass houtcome =>
      refine iff_of_false nofun fun hbeyond => ?_
      -- the objective value of the optimal point is a bound
      obtain ⟨x, hx, hbetter⟩ := hbeyond (dot p.objective (p.point _))
      exact absurd hbetter (hs.not_better_of_pass hfit hpass houtcome hx)
  | unbounded hs hpass houtcome =>
      exact ⟨fun _ => hs.exists_better_of_pass hfit hpass houtcome, fun _ => rfl⟩
  | stopped _ _ _ => exact absurd rfl hstatus

/-- The objective value of an unbounded answer is the end of the line in its direction. -/
theorem objectiveValue_of_unbounded (h : Answered p cap solution)
    (hstatus : solution.status = .unbounded) :
    solution.objectiveValue = p.direction.limit := by
  cases h with
  | infeasible _ => cases hstatus
  | unsearched => cases hstatus
  | optimal _ _ _ => cases hstatus
  | unbounded _ _ _ => rfl
  | stopped _ _ _ => cases hstatus

end Answered

/-! ### Solving what a caller has built -/

/-- **An optimal answer is right.** Its values are a non-negative point that satisfies the
constraints as they were given, followed by the slack of every stored constraint there; its
objective value is the one at this point, and no other feasible point has a better one. -/
theorem solve_optimal (direction : Direction) (objective : List ℚ) (requests : List (Request ℚ))
    (cap : Option Nat) {solution : Solution ℚ}
    (h : ((build direction objective requests).solve ⟨cap, 0⟩).map (·.solution) = .ok solution)
    (hstatus : solution.status = .optimal) :
    let p := build direction objective requests
    let given := requests.flatMap Request.given
    let x := solution.variablePart
    solution.values.length = p.variableCount + p.constraintCount ∧
      (∀ v ∈ solution.values, 0 ≤ v) ∧
      (∀ c ∈ given, c.Holds x) ∧
      solution.slackPart = p.constraints.map (·.slack x) ∧
      solution.objectiveValue = .number (dot objective x) ∧
      ∀ y, FeasiblePoint objective.length given y →
        ¬direction.Better (dot objective y) (dot objective x) := by
  intro p given x
  obtain ⟨hfit, hanswered⟩ := answered_of_solve rhs_nonneg_of_build h
  obtain ⟨z, hvalues, hcount, hobjective, hfeasible, hbest⟩ :=
    hanswered.exists_optimal hfit hstatus
  have hgiven := feasiblePoint_build.1 hfeasible
  have hx : x = z := by
    show solution.values.take solution.variableCount = z
    rw [hvalues, hcount, ← hfeasible.length]
    exact List.take_left
  have hslacks : solution.slackPart = p.constraints.map (·.slack z) := by
    show solution.values.drop solution.variableCount = _
    rw [hvalues, hcount, ← hfeasible.length]
    exact List.drop_left
  rw [hx]
  refine ⟨?_, fun v hv => ?_, hgiven.holds, hslacks, ?_, fun y hy => ?_⟩
  · rw [hvalues, extension, List.length_append, List.length_map, hfeasible.length]
    rfl
  · rw [hvalues] at hv
    exact nonneg_of_mem_extension hfeasible hv
  · rw [objective_build] at hobjective
    exact hobjective
  · have hbest' := hbest y (feasiblePoint_build.2 hy)
    rw [direction_build, objective_build] at hbest'
    exact hbest'

/-- The second constraint repeats the first one, and its row is erased on the way. -/
theorem solve_optimal_redundant :
    let requests : List (Request ℚ) := [.add [1, 1] "=" 4, .add [-2, -2] "=" (-8),
      .push ⟨[-1, 1], .atLeast, -2⟩, .addUpperBounds [[1, 0, 5]]]
    let solution : Solution ℚ := ⟨.optimal, .number 9, [3, 1, 0, 0, 0, 2], [0, 0, 0, 0, -1 / 2, 0],
      2, 2⟩
    ((build .minimize [2, 3] requests).solve ⟨none, 0⟩).map (·.solution) = .ok solution ∧
      solution.status = .optimal ∧
      (∀ c ∈ requests.flatMap Request.given, c.Holds [3, 1]) ∧
      ∀ y, FeasiblePoint 2 (requests.flatMap Request.given) y →
        ¬dot [2, 3] y < dot [2, 3] [3, 1] := by
  intro requests solution
  have hsolve : ((build .minimize [2, 3] requests).solve ⟨none, 0⟩).map (·.solution) =
      .ok solution := by decide +kernel
  obtain ⟨-, -, hholds, -, -, hbest⟩ := solve_optimal .minimize [2, 3] requests none hsolve rfl
  exact ⟨hsolve, rfl, hholds, hbest⟩

/-- **A program is answered as infeasible exactly if it is**, unless the cap was reached before this
was known. Without an answer the counter has run out of room. -/
theorem solve_infeasible_iff (direction : Direction) (objective : List ℚ)
    (requests : List (Request ℚ)) (cap : Option Nat)
    (hfit : (build direction objective requests).mismatch = none) :
    (∀ run, (build direction objective requests).solve ⟨cap, 0⟩ = .ok run →
      run.solution.status ≠ .exhausted →
        (run.solution.status = .infeasible ↔
          ¬∃ x, FeasiblePoint objective.length (requests.flatMap Request.given) x)) ∧
      ∀ e, (build direction objective requests).solve ⟨cap, 0⟩ = .error e →
        e = .fault .counterOverflow := by
  rcases solve_cases hfit rhs_nonneg_of_build cap with ⟨run, hrun, hanswered⟩ | herror
  · rw [hrun]
    constructor
    · intro run' hrun' hstatus
      cases hrun'
      rw [hanswered.infeasible_iff hfit hstatus]
      exact not_congr (exists_congr fun _ => feasiblePoint_build)
    · intro e he
      cases he
  · rw [herror]
    constructor
    · intro run hrun
      cases hrun
    · intro e he
      cases he
      rfl

/-- Two constraints that contradict each other. -/
theorem solve_infeasible_iff_contradiction :
    let requests : List (Request ℚ) := [.add [1, 1] ">=" 4, .add [1, 1] "<=" 3]
    (build .maximize [1, 1] requests).mismatch = none ∧
      ((build .maximize [1, 1] requests).solve ⟨none, 0⟩).map (·.solution.status) =
        .ok .infeasible ∧
      ¬∃ x, FeasiblePoint 2 (requests.flatMap Request.given) x := by
  intro requests
  have hfit : (build .maximize [1, 1] requests).mismatch = none := by decide +kernel
  have hsolve : ((build .maximize [1, 1] requests).solve ⟨none, 0⟩).map (·.solution.status) =
      .ok .infeasible := by decide +kernel
  refine ⟨hfit, hsolve, ?_⟩
  cases hrun : (build .maximize [1, 1] requests).solve ⟨none, 0⟩ with
  | error e => rw [hrun] at hsolve; cases hsolve
  | ok run =>
      rw [hrun] at hsolve
      have hstatus : run.solution.status = .infeasible := Except.ok.inj hsolve
      have hcapped : run.solution.status ≠ .exhausted := by
        rw [hstatus]
        decide
      obtain ⟨hiff, -⟩ := solve_infeasible_iff .maximize [1, 1] requests none hfit
      exact (hiff run hrun hcapped).1 hstatus

/-- **A program is answered as unbounded exactly if it is**, unless the cap was reached before this
was known, and then the objective value is the end of the line in its direction. -/
theorem solve_unbounded_iff (direction : Direction) (objective : List ℚ)
    (requests : List (Request ℚ)) (cap : Option Nat) {solution : Solution ℚ}
    (h : ((build direction objective requests).solve ⟨cap, 0⟩).map (·.solution) = .ok solution)
    (hstatus : solution.status ≠ .exhausted) :
    (solution.status = .unbounded ↔ ∀ bound, ∃ x,
      FeasiblePoint objective.length (requests.flatMap Request.given) x ∧
        direction.Better (dot objective x) bound) ∧
      (solution.status = .unbounded → solution.objectiveValue = direction.limit) := by
  obtain ⟨hfit, hanswered⟩ := answered_of_solve rhs_nonneg_of_build h
  constructor
  · rw [hanswered.unbounded_iff hfit hstatus, direction_build, objective_build]
    refine forall_congr' fun bound => exists_congr fun x => and_congr_left' ?_
    exact feasiblePoint_build
  · intro hunbounded
    have hvalue := hanswered.objectiveValue_of_unbounded hunbounded
    rw [direction_build] at hvalue
    exact hvalue

/-- The second variable can be as large as one likes. -/
theorem solve_unbounded_iff_ray :
    let requests : List (Request ℚ) := [.add [1, 1] ">=" 1, .add [1, -1] "<=" 3]
    let solution : Solution ℚ := ⟨.unbounded, .negInfinity, [], [], 2, 2⟩
    ((build .minimize [1, -1] requests).solve ⟨none, 0⟩).map (·.solution) = .ok solution ∧
      solution.status ≠ .exhausted ∧
      ∀ bound, ∃ x, FeasiblePoint 2 (requests.flatMap Request.given) x ∧ dot [1, -1] x < bound := by
  intro requests solution
  have hsolve : ((build .minimize [1, -1] requests).solve ⟨none, 0⟩).map (·.solution) =
      .ok solution := by decide +kernel
  have hcapped : solution.status ≠ .exhausted := by decide
  obtain ⟨hiff, -⟩ := solve_unbounded_iff .minimize [1, -1] requests none hsolve hcapped
  exact ⟨hsolve, hcapped, hiff.1 rfl⟩

end Program

end SimplexMethod
