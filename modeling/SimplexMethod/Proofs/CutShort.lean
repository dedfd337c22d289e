import SimplexMethod.Proofs.Certificate
import SimplexMethod.Proofs.Cycling

/-!
# SimplexMethod.Proofs.CutShort

**An answer that was cut short can be used.** Every state of the second phase stands for a feasible
point of the program, not only the last one, so an answer with values lists such a point wherever
the cap ended the pass. A longer cap leads to an answer that is at least as good.

The comparison of two caps rests on one fact about passes: a state has at most one next state
(`State.rightUnique_step`), so whatever a pass reaches is on the way to its end
(`State.Reaches.of_stop`). The shorter pass ends on the way of the longer one, and along the way no
exchange makes the objective value worse.

The two passes have to begin at one state for this. `Program.SecondBegins` says what the second
phase begins with; a search that came to its end is the same search under a longer cap.
-/

namespace SimplexMethod

namespace State

/-! ### One way only -/

section Steps

variable {K : Type} [Zero K] [One K] [Neg K] [Add K] [Sub K] [Mul K] [Div K] [LT K] [DecidableLT K]
  [LE K] [DecidableLE K] [BEq K] [Selectable K] {settings settings' : Settings K} {phase : Phase}
  {sign : K} {s t u : State K}

/-- A state has at most one next state. -/
theorem rightUnique_step (settings : Settings K) (sign : K) :
    Relator.RightUnique (Step settings sign) := by
  intro s t u ht hu
  obtain ⟨row, col, next, hverdict, hnext, rfl⟩ := ht.exists_exchange
  obtain ⟨row', col', next', hverdict', hnext', rfl⟩ := hu.exists_exchange
  rw [hverdict] at hverdict'
  cases hverdict'
  rw [hnext] at hnext'
  cases hnext'
  rfl

/-- **The end of a pass is reached from every state on the way.** -/
theorem Reaches.of_stop (ht : Reaches settings sign s t) (hu : Reaches settings sign s u)
    {outcome : Outcome} (hstop : u.verdict settings sign = .stop outcome) :
    Reaches settings sign t u := by
  rcases ht.total_of_right_unique (rightUnique_step settings sign) hu with htu | hut
  · exact htu
  · have heq : t = u := Reaches.eq_of_stop hut hstop
    rw [heq]
    exact .refl

/-- A step below a cap is one below a longer cap. -/
theorem Step.of_relaxed (hstep : Step settings sign s t) (h : settings.Relaxed settings') :
    Step settings' sign s t := by
  obtain ⟨row, col, next, hverdict, hnext, rfl⟩ := hstep.exists_exchange
  have hgoes : s.verdict settings sign ≠ .stop .exhausted := by simp [hverdict]
  exact .exchange ((verdict_of_relaxed h hgoes).trans hverdict) hnext

theorem Reaches.of_relaxed (hreaches : Reaches settings sign s t)
    (h : settings.Relaxed settings') : Reaches settings' sign s t := by
  induction hreaches with
  | refl => exact .refl
  | tail _ hstep ih => exact ih.tail (hstep.of_relaxed h)

/-- **A pass ends on the way of the pass with a longer cap.** -/
theorem reaches_of_longer_pass (h : settings.Relaxed settings') {pass pass' : Pass K}
    (hpass : s.pass settings phase sign = .ok pass)
    (hpass' : s.pass settings' phase sign = .ok pass') :
    Reaches settings' sign pass.state pass'.state := by
  obtain ⟨hshort, -⟩ := reaches_of_pass hpass
  obtain ⟨hlong, hstop⟩ := reaches_of_pass hpass'
  exact (hshort.of_relaxed h).of_stop hlong hstop

end Steps

/-- Whatever a pass reaches has an objective value that is no worse. -/
theorem Feasible.signed_objectiveValue_le_of_reaches {cap : Option Nat} {sign : ℚ} {s t : State ℚ}
    (hs : s.Feasible) (h : Reaches ⟨cap, 0⟩ sign s t) :
    sign * s.objectiveValue ≤ sign * t.objectiveValue := by
  induction h with
  | refl => exact le_rfl
  | tail hreaches hstep ih =>
      exact ih.trans ((hs.reaches hreaches).signed_objectiveValue_le_of_step hstep)

end State

namespace Program

/-! ### What the second phase begins with -/

section Begins

variable {K : Type} [Zero K] [One K] [Neg K] [Add K] [Sub K] [Mul K] [Div K] [LT K] [DecidableLT K]
  [LE K] [DecidableLE K] [BEq K] [Selectable K] {p : Program K} {settings settings' : Settings K}

/-- The second phase of a solve begins with the table and the basis, after `earlier` exchanges. -/
inductive SecondBegins (p : Program K) (settings : Settings K) :
    Tableau K → List Nat → (earlier : Nat) → Prop where
  /-- With the equality form itself. -/
  | direct :
      (EqualityForm.ofProgram p).hasArtificials = false →
      SecondBegins p settings (EqualityForm.ofProgram p).tableau (EqualityForm.ofProgram p).basis 0
  /-- With what the search has found. -/
  | searched {tableau : Tableau K} {basis : List Nat} {earlier : Nat} {events : List (Event K)} :
      (EqualityForm.ofProgram p).hasArtificials = true →
      (EqualityForm.ofProgram p).searchFeasible settings =
        .ok ⟨.feasible tableau basis earlier, events⟩ →
      SecondBegins p settings tableau basis earlier

namespace SecondBegins

variable {tableau tableau' : Tableau K} {basis basis' : List Nat} {earlier earlier' : Nat}

/-- There is no more than one thing to begin with. -/
theorem unique (h : p.SecondBegins settings tableau basis earlier)
    (h' : p.SecondBegins settings tableau' basis' earlier') :
    tableau' = tableau ∧ basis' = basis ∧ earlier' = earlier := by
  cases h with
  | direct hnone =>
      cases h' with
      | direct _ => exact ⟨rfl, rfl, rfl⟩
      | searched hartificials _ => rw [hnone] at hartificials; cases hartificials
  | searched hartificials hsearch =>
      cases h' with
      | direct hnone => rw [hartificials] at hnone; cases hnone
      | searched _ hsearch' =>
          rw [hsearch] at hsearch'
          cases hsearch'
          exact ⟨rfl, rfl, rfl⟩

/-- **A longer cap changes nothing about what the second phase begins with**, once it begins. -/
theorem of_relaxed (hbegins : p.SecondBegins settings tableau basis earlier)
    (h : settings.Relaxed settings') : p.SecondBegins settings' tableau basis earlier := by
  cases hbegins with
  | direct hnone => exact .direct hnone
  | searched hartificials hsearch =>
      exact .searched hartificials ((EqualityForm.searchFeasible_of_relaxed h hsearch).1 nofun)

end SecondBegins

/-- **An answer with values comes from a second phase**, of which it lists the last state. -/
theorem Assembles.exists_pass {run : Run K} (h : p.Assembles settings run)
    (hvalues : run.solution.values ≠ []) :
    ∃ tableau basis earlier start pass iterations,
      p.SecondBegins settings tableau basis earlier ∧
      State.ofTableau p.extendedCosts tableau basis = .ok start ∧
      start.pass settings .two p.direction.sign = .ok pass ∧
      run.solution = .ofState run.solution.status pass.state p.variableCount iterations := by
  obtain ⟨tableau, basis, earlier, second, hbegins, hsecond, hsolution⟩ :
      ∃ tableau basis earlier second, p.SecondBegins settings tableau basis earlier ∧
        p.secondPhase settings tableau basis earlier = .ok second ∧
        run.solution = second.solution := by
    cases h with
    | direct hnone hsecond => exact ⟨_, _, _, _, .direct hnone, hsecond, rfl⟩
    | searched hartificials hsearch hsecond =>
        exact ⟨_, _, _, _, .searched hartificials hsearch, hsecond, rfl⟩
    | infeasible _ _ => exact absurd rfl hvalues
    | exhausted _ _ => exact absurd rfl hvalues
  obtain ⟨start, pass, hstart, hpass, -, rfl⟩ := secondPhase_eq_ok.1 hsecond
  refine ⟨tableau, basis, earlier, start, pass, earlier + pass.state.iterations, hbegins, hstart,
    hpass, ?_⟩
  rw [hsolution] at hvalues ⊢
  unfold solutionOf at hvalues ⊢
  cases houtcome : pass.outcome with
  | optimal => rfl
  | unbounded =>
      rw [houtcome] at hvalues
      exact absurd rfl hvalues
  | exhausted => rfl

end Begins

/-! ### Feasible points along the way -/

variable {p : Program ℚ} {cap : Option Nat} {solution : Solution ℚ}

/-- What the second phase begins with is a feasible basis. -/
theorem SecondBegins.feasibleBasis (hrhs : ∀ c ∈ p.constraints, 0 ≤ c.rhs) {tableau : Tableau ℚ}
    {basis : List Nat} {earlier : Nat} (h : p.SecondBegins ⟨cap, 0⟩ tableau basis earlier) :
    p.FeasibleBasis tableau basis := by
  cases h with
  | direct hnone => exact feasibleBasis_of_not_hasArtificials hrhs hnone
  | searched _ hsearch =>
      rcases EqualityForm.searchFeasible_cases hrhs cap with ⟨search, hok, hsound⟩ | herror
      · rw [hsearch] at hok
        cases hok
        cases hsound with
        | feasible hbasis => exact hbasis
      · rw [hsearch] at herror
        cases herror

/-- The state that the second phase begins at stands for a feasible point. -/
theorem FeasibleBasis.represents {tableau : Tableau ℚ} {basis : List Nat} {start : State ℚ}
    (h : p.FeasibleBasis tableau basis)
    (hstart : State.ofTableau p.extendedCosts tableau basis = .ok start) : start.Represents p := by
  obtain ⟨s, hs, hobjective, htableau, -, hfeasible⟩ := h.exists_ofTableau
  rw [hstart] at hs
  cases hs
  exact ⟨hfeasible, hobjective, htableau ▸ h.solves⟩

end Program

/-- **What an answer says that lists a state of the second phase**: a feasible point, its slacks and
its cost. -/
theorem State.Represents.solution_eq {p : Program ℚ} {s : State ℚ} (h : s.Represents p)
    (hfit : p.mismatch = none) {solution : Solution ℚ} {iterations : Nat}
    (hsolution : solution = .ofState solution.status s p.variableCount iterations) :
    FeasiblePoint p.variableCount p.constraints solution.variablePart ∧
      solution.values = p.extension solution.variablePart ∧
      solution.slackPart = p.constraints.map (·.slack solution.variablePart) ∧
      solution.objectiveValue = .number s.objectiveValue ∧
      s.objectiveValue = dot p.objective solution.variablePart := by
  have hpoint := h.feasiblePoint_value hfit
  have hvalues : solution.values = p.extension (p.point s.value) := by
    rw [hsolution]
    exact h.values_eq hfit
  have hcount : solution.variableCount = (p.point s.value).length := by
    rw [hpoint.length, hsolution]
    rfl
  have hvariables : solution.variablePart = p.point s.value := by
    rw [Solution.variablePart, hvalues, hcount]
    exact List.take_left
  have hslacks : solution.slackPart = p.constraints.map (·.slack (p.point s.value)) := by
    rw [Solution.slackPart, hvalues, hcount]
    exact List.drop_left
  rw [hvariables]
  refine ⟨hpoint, hvalues, hslacks, ?_, h.objectiveValue_eq⟩
  rw [hsolution]
  exact congrArg Extended.number (add_zero _)

namespace Program

variable {p : Program ℚ} {cap : Option Nat} {solution : Solution ℚ}

/-- An answer with values lists the last state of a pass over feasible points. -/
theorem exists_pass_of_solve (hrhs : ∀ c ∈ p.constraints, 0 ≤ c.rhs)
    (h : (p.solve ⟨cap, 0⟩).map (·.solution) = .ok solution) (hvalues : solution.values ≠ []) :
    p.mismatch = none ∧ ∃ tableau basis earlier start pass iterations,
      p.SecondBegins ⟨cap, 0⟩ tableau basis earlier ∧
      State.ofTableau p.extendedCosts tableau basis = .ok start ∧ start.Represents p ∧
      start.pass ⟨cap, 0⟩ .two p.direction.sign = .ok pass ∧
      solution = .ofState solution.status pass.state p.variableCount iterations := by
  cases hrun : p.solve ⟨cap, 0⟩ with
  | error e => rw [hrun] at h; cases h
  | ok run =>
      rw [hrun] at h
      cases h
      obtain ⟨hfit, hassembles⟩ := solve_eq_ok.1 hrun
      obtain ⟨tableau, basis, earlier, start, pass, iterations, hbegins, hstart, hpass, hlast⟩ :=
        hassembles.exists_pass hvalues
      exact ⟨hfit, tableau, basis, earlier, start, pass, iterations, hbegins, hstart,
        (hbegins.feasibleBasis hrhs).represents hstart, hpass, hlast⟩

/-! ### Answers under two caps -/

/-- **A longer cap leads to an answer that is no worse**, if both answers have values. -/
theorem objectiveValue_of_longer_cap (hrhs : ∀ c ∈ p.constraints, 0 ≤ c.rhs) {cap' : Option Nat}
    (hrelaxed : Settings.Relaxed (⟨cap, 0⟩ : Settings ℚ) ⟨cap', 0⟩)
    (h : (p.solve ⟨cap, 0⟩).map (·.solution) = .ok solution) (hvalues : solution.values ≠ [])
    {longer : Solution ℚ} (hlonger : (p.solve ⟨cap', 0⟩).map (·.solution) = .ok longer)
    (hvalues' : longer.values ≠ []) :
    ¬p.direction.Better (dot p.objective solution.variablePart)
      (dot p.objective longer.variablePart) := by
  obtain ⟨hfit, tableau, basis, earlier, start, pass, iterations, hbegins, hstart, hs, hpass,
    hlast⟩ := exists_pass_of_solve hrhs h hvalues
  obtain ⟨-, _, _, _, start', pass', iterations', hbegins', hstart', -, hpass', hlast'⟩ :=
    exists_pass_of_solve hrhs hlonger hvalues'
  -- both second phases begin at the same state
  obtain ⟨rfl, rfl, -⟩ := (hbegins.of_relaxed hrelaxed).unique hbegins'
  rw [hstart] at hstart'
  cases hstart'
  have hend := hs.of_pass hpass
  have hon := State.reaches_of_longer_pass hrelaxed hpass hpass'
  have hgain := hend.feasible.signed_objectiveValue_le_of_reaches hon
  obtain ⟨-, -, -, -, hcost⟩ := hend.solution_eq hfit hlast
  obtain ⟨-, -, -, -, hcost'⟩ := (hs.of_pass hpass').solution_eq hfit hlast'
  rw [Direction.better_iff, ← hcost, ← hcost']
  exact not_lt.2 hgain

/-- **An answer that was cut short can be used.** An answer with values, whatever its status, lists
a non-negative point that satisfies the constraints as they were given and the slack of every
stored constraint there, and its objective value is the one at this point. If a longer cap leads to
an answer with values as well, its objective value is not worse. -/
theorem solve_cut_short (direction : Direction) (objective : List ℚ) (requests : List (Request ℚ))
    {m : Nat} {cap : Option Nat} (hle : ∀ m', cap = some m' → m ≤ m') {solution : Solution ℚ}
    (h : ((build direction objective requests).solve ⟨some m, 0⟩).map (·.solution) = .ok solution)
    (hvalues : solution.values ≠ []) :
    let p := build direction objective requests
    let given := requests.flatMap Request.given
    let x := solution.variablePart
    solution.values.length = p.variableCount + p.constraintCount ∧
      (∀ v ∈ solution.values, 0 ≤ v) ∧
      (∀ c ∈ given, c.Holds x) ∧
      solution.slackPart = p.constraints.map (·.slack x) ∧
      solution.objectiveValue = .number (dot objective x) ∧
      ∀ longer : Solution ℚ, (p.solve ⟨cap, 0⟩).map (·.solution) = .ok longer →
        longer.values ≠ [] → ∃ value, longer.objectiveValue = .number value ∧
          ¬direction.Better (dot objective x) value := by
  intro p given x
  have hrhs : ∀ c ∈ p.constraints, 0 ≤ c.rhs := rhs_nonneg_of_build
  have hobjective : p.objective = objective := objective_build direction objective requests
  obtain ⟨hfit, -, -, -, start, pass, iterations, -, -, hs, hpass, hlast⟩ :=
    exists_pass_of_solve hrhs h hvalues
  obtain ⟨hfeasible, hextension, hslacks, hvalue, hcost⟩ :=
    (hs.of_pass hpass).solution_eq hfit hlast
  refine ⟨?_, fun v hv => ?_, (feasiblePoint_build.1 hfeasible).holds, hslacks, ?_,
    fun longer hlonger hvalues' => ?_⟩
  · rw [hextension, extension, List.length_append, List.length_map, hfeasible.length]
    rfl
  · rw [hextension] at hv
    exact nonneg_of_mem_extension hfeasible hv
  · rw [hvalue, hcost, hobjective]
  · have hworse := objectiveValue_of_longer_cap hrhs (Settings.relaxed_of_le 0 hle) h hvalues
      hlonger hvalues'
    obtain ⟨-, -, -, -, start', pass', iterations', -, -, hs', hpass', hlast'⟩ :=
      exists_pass_of_solve hrhs hlonger hvalues'
    obtain ⟨-, -, -, hvalue', hcost'⟩ := (hs'.of_pass hpass').solution_eq hfit hlast'
    rw [direction_build, objective_build] at hworse
    rw [hcost', hobjective] at hvalue'
    exact ⟨_, hvalue', hworse⟩

/-- One exchange in the second phase leads to a feasible point with the cost `25 / 2`, two to one
with the cost `13`. -/
theorem solve_cut_short_before_optimum :
    let requests : List (Request ℚ) := [.add [1, 1, 1] ">=" 1, .add [2, 3, 1] "<=" 5,
      .add [4, 1, 2] "<=" 11, .add [-3, -4, -2] ">=" (-8)]
    let p := build .maximize [5, 4, 3] requests
    let solution : Solution ℚ := ⟨.exhausted, .number (25 / 2), [5 / 2, 0, 0, 3 / 2, 0, 1, 1 / 2],
      [0, 7 / 2, -1 / 2, 0, 5 / 2, 0, 0], 2, 3⟩
    (p.solve ⟨some 1, 0⟩).map (·.solution) = .ok solution ∧ solution.values ≠ [] ∧
      (∀ c ∈ requests.flatMap Request.given, c.Holds [5 / 2, 0, 0]) ∧
      (p.solve ⟨some 2, 0⟩).map (·.solution.objectiveValue) = .ok (.number 13) ∧
      ∀ longer : Solution ℚ, (p.solve ⟨some 2, 0⟩).map (·.solution) = .ok longer →
        longer.values ≠ [] → ∃ value, longer.objectiveValue = .number value ∧ 25 / 2 ≤ value := by
  intro requests p solution
  have hle : ∀ m', some 2 = some m' → 1 ≤ m' := by
    rintro _ ⟨⟩
    exact Nat.le_succ 1
  have hsolve : (p.solve ⟨some 1, 0⟩).map (·.solution) = .ok solution := by decide +kernel
  have hvalues : solution.values ≠ [] := nofun
  have hlonger : (p.solve ⟨some 2, 0⟩).map (·.solution.objectiveValue) = .ok (.number 13) := by
    decide +kernel
  obtain ⟨-, -, hholds, -, hcost, hworse⟩ :=
    solve_cut_short .maximize [5, 4, 3] requests hle hsolve hvalues
  have hdot : dot [5, 4, 3] solution.variablePart = 25 / 2 := (Extended.number.inj hcost).symm
  refine ⟨hsolve, hvalues, hholds, hlonger, fun longer hlong hvalues' => ?_⟩
  obtain ⟨value, hvalue, hbetter⟩ := hworse longer hlong hvalues'
  rw [hdot] at hbetter
  exact ⟨value, hvalue, not_lt.1 hbetter⟩

end Program

end SimplexMethod
