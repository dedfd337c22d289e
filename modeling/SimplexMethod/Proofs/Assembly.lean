import SimplexMethod.Solve

/-!
# SimplexMethod.Proofs.Assembly

**How a run is put together.** `Program.Assembles` opens a solve once: it lists the four ways in
which a run comes from a search and a second phase, and `solve_eq_ok` says that there are no others.
The search and the second phase are opened in the same way, down to the pass that each of them
makes. Whatever is to be shown of a solve is shown of a pass first and then case by case.

Nothing is assumed of the numbers.
-/

namespace SimplexMethod

variable {K : Type} [Zero K] [One K] [Neg K] [Add K] [Sub K] [Mul K] [Div K] [LT K] [DecidableLT K]
  [LE K] [DecidableLE K] [BEq K] [Selectable K] {settings : Settings K}

namespace EqualityForm

variable {form : EqualityForm K}

omit [Selectable K] in
/-- What the last state of a pass over the artificial costs may say. -/
theorem feasibilityOf_cases {pass : Pass K} {result : Feasibility K}
    (h : form.feasibilityOf settings pass = .ok result) :
    (pass.outcome = .unbounded ∧ result = .infeasible pass.state.iterations) ∨
    (pass.outcome = .exhausted ∧ result = .exhausted pass.state.iterations) ∨
    (pass.outcome = .optimal ∧ settings.tolerance < magnitude pass.state.objectiveValue ∧
      result = .infeasible pass.state.iterations) ∨
    (pass.outcome = .optimal ∧ ¬settings.tolerance < magnitude pass.state.objectiveValue ∧
      ∃ final, pass.state.expelArtificials form.firstArtificial settings.tolerance
          pass.state.tableau.rows 0 = .ok final ∧
        result = .feasible ((final.tableau.columnsBetween 0 form.firstArtificial).appendColumn
          (final.tableau.column (final.tableau.cols - 1))) final.basis pass.state.iterations) := by
  unfold feasibilityOf at h
  dsimp only at h
  split at h
  · next houtcome =>
    cases h
    exact Or.inl ⟨houtcome, rfl⟩
  · next houtcome =>
    cases h
    exact Or.inr (Or.inl ⟨houtcome, rfl⟩)
  · next houtcome =>
    refine Or.inr (Or.inr ?_)
    split at h
    · next hsum =>
      cases h
      exact Or.inl ⟨houtcome, hsum, rfl⟩
    · next hsum =>
      obtain ⟨final, hexpel, h⟩ := Fault.bind_eq_ok.1 h
      cases h
      exact Or.inr ⟨houtcome, hsum, final, hexpel, rfl⟩

/-- A search is a pass over the artificial costs, and what its last state says. -/
theorem searchFeasible_eq_ok {search : FeasibilitySearch K} :
    form.searchFeasible settings = .ok search ↔
      ∃ start pass, State.ofTableau form.artificialCosts form.tableau form.basis = .ok start ∧
        start.pass settings .one (Direction.sign .minimize) = .ok pass ∧
        form.feasibilityOf settings pass = .ok search.result ∧ search.events = pass.events := by
  unfold searchFeasible
  constructor
  · intro h
    obtain ⟨start, hstart, h⟩ := Fault.bind_eq_ok.1 h
    obtain ⟨pass, hpass, h⟩ := Fault.bind_eq_ok.1 h
    obtain ⟨result, hresult, h⟩ := Fault.bind_eq_ok.1 h
    cases h
    exact ⟨start, pass, hstart, hpass, hresult, rfl⟩
  · rintro ⟨start, pass, hstart, hpass, hresult, hevents⟩
    refine Fault.bind_eq_ok.2 ⟨start, hstart, Fault.bind_eq_ok.2 ⟨pass, hpass,
      Fault.bind_eq_ok.2 ⟨search.result, hresult, ?_⟩⟩⟩
    rw [← hevents]
    rfl

end EqualityForm

namespace Program

variable {p : Program K}

/-- A second phase is a pass over the costs of the program, and what its last state says. -/
theorem secondPhase_eq_ok {tableau : Tableau K} {basis : List Nat} {earlier : Nat} {run : Run K} :
    p.secondPhase settings tableau basis earlier = .ok run ↔
      ∃ start pass, State.ofTableau p.extendedCosts tableau basis = .ok start ∧
        start.pass settings .two p.direction.sign = .ok pass ∧
        earlier + pass.state.iterations < counterLimit ∧
        run = ⟨p.solutionOf pass (earlier + pass.state.iterations), pass.events⟩ := by
  unfold secondPhase
  constructor
  · intro h
    obtain ⟨start, hstart, h⟩ := Fault.bind_eq_ok.1 h
    obtain ⟨pass, hpass, h⟩ := Fault.bind_eq_ok.1 h
    obtain ⟨iterations, htotal, h⟩ := Fault.bind_eq_ok.1 h
    unfold totalIterations at htotal
    split at htotal
    · next hroom =>
      cases htotal
      cases h
      exact ⟨start, pass, hstart, hpass, hroom, rfl⟩
    · cases htotal
  · rintro ⟨start, pass, hstart, hpass, hroom, rfl⟩
    exact Fault.bind_eq_ok.2 ⟨start, hstart, Fault.bind_eq_ok.2 ⟨pass, hpass,
      Fault.bind_eq_ok.2 ⟨_, if_pos hroom, rfl⟩⟩⟩

/-- The ways in which a run is put together. -/
inductive Assembles (p : Program K) (settings : Settings K) : Run K → Prop where
  /-- No basis has to be searched for. -/
  | direct {second : Run K} :
      (EqualityForm.ofProgram p).hasArtificials = false →
      p.secondPhase settings (EqualityForm.ofProgram p).tableau (EqualityForm.ofProgram p).basis 0 =
        .ok second →
      Assembles p settings ⟨second.solution,
        .prepared (EqualityForm.ofProgram p).tableau false :: second.events⟩
  /-- The search finds a basis for the second phase. -/
  | searched {tableau : Tableau K} {basis : List Nat} {iterations : Nat} {events : List (Event K)}
      {second : Run K} :
      (EqualityForm.ofProgram p).hasArtificials = true →
      (EqualityForm.ofProgram p).searchFeasible settings =
        .ok ⟨.feasible tableau basis iterations, events⟩ →
      p.secondPhase settings tableau basis iterations = .ok second →
      Assembles p settings ⟨second.solution,
        .prepared (EqualityForm.ofProgram p).tableau true :: (events ++ second.events)⟩
  /-- The search finds that there is no feasible point. -/
  | infeasible {iterations : Nat} {events : List (Event K)} :
      (EqualityForm.ofProgram p).hasArtificials = true →
      (EqualityForm.ofProgram p).searchFeasible settings = .ok ⟨.infeasible iterations, events⟩ →
      Assembles p settings ⟨.infeasible iterations p.variableCount,
        .prepared (EqualityForm.ofProgram p).tableau true :: events⟩
  /-- The cap ends the search. -/
  | exhausted {iterations : Nat} {events : List (Event K)} :
      (EqualityForm.ofProgram p).hasArtificials = true →
      (EqualityForm.ofProgram p).searchFeasible settings = .ok ⟨.exhausted iterations, events⟩ →
      Assembles p settings ⟨.exhausted iterations p.variableCount,
        .prepared (EqualityForm.ofProgram p).tableau true :: events⟩

theorem assembles_of_solveFitting {run : Run K} (h : p.solveFitting settings = .ok run) :
    p.Assembles settings run := by
  unfold solveFitting at h
  dsimp only at h
  split at h
  · next hartificials =>
    obtain ⟨⟨result, events⟩, hsearch, h⟩ := Fault.bind_eq_ok.1 h
    rw [hartificials] at h
    cases result with
    | feasible tableau basis iterations =>
        obtain ⟨second, hsecond, h⟩ := Fault.bind_eq_ok.1 h
        cases h
        exact .searched hartificials hsearch hsecond
    | infeasible iterations =>
        cases h
        exact .infeasible hartificials hsearch
    | exhausted iterations =>
        cases h
        exact .exhausted hartificials hsearch
  · next hartificials =>
    have hnone := Bool.eq_false_iff.2 hartificials
    obtain ⟨second, hsecond, h⟩ := Fault.bind_eq_ok.1 h
    rw [hnone] at h
    cases h
    exact .direct hnone hsecond

theorem Assembles.solveFitting {run : Run K} (h : p.Assembles settings run) :
    p.solveFitting settings = .ok run := by
  unfold Program.solveFitting
  cases h with
  | direct hnone hsecond =>
      rw [if_neg (Bool.eq_false_iff.1 hnone), hnone]
      exact Fault.bind_eq_ok.2 ⟨_, hsecond, rfl⟩
  | searched hartificials hsearch hsecond =>
      rw [if_pos hartificials, hartificials]
      exact Fault.bind_eq_ok.2 ⟨_, hsearch, Fault.bind_eq_ok.2 ⟨_, hsecond, rfl⟩⟩
  | infeasible hartificials hsearch =>
      rw [if_pos hartificials, hartificials]
      exact Fault.bind_eq_ok.2 ⟨_, hsearch, rfl⟩
  | exhausted hartificials hsearch =>
      rw [if_pos hartificials, hartificials]
      exact Fault.bind_eq_ok.2 ⟨_, hsearch, rfl⟩

/-- **A solve opened.** -/
theorem solve_eq_ok {run : Run K} :
    p.solve settings = .ok run ↔ p.mismatch = none ∧ p.Assembles settings run := by
  unfold solve
  cases hfit : p.mismatch with
  | some e => simp
  | none =>
      constructor
      · intro h
        refine ⟨rfl, assembles_of_solveFitting ?_⟩
        cases hrun : p.solveFitting settings with
        | error f => rw [hrun] at h; cases h
        | ok run' => rw [hrun] at h; cases h; rfl
      · rintro ⟨-, h⟩
        simp only [h.solveFitting]
        rfl

/-- A program is refused as not well formed exactly if it is not, and then nothing is told. -/
theorem solve_eq_model_error {e : ModelError} :
    p.solve settings = .error (.model e) ↔ p.mismatch = some e := by
  unfold solve
  cases p.mismatch with
  | some e' => simp
  | none =>
      refine iff_of_false ?_ nofun
      cases p.solveFitting settings with
      | error f => nofun
      | ok run => nofun

end Program

end SimplexMethod
