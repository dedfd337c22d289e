import SimplexMethod.Proofs.Answer
import SimplexMethod.Proofs.Drift

/-!
# SimplexMethod.Proofs.StoredRaw

**Constraints stored as they are.** `Program.push` takes a constraint with a right-hand side of any
sign, and the solve begins at a basic solution that may be negative then. What is lost, and what is
not, depends on where the first phase ends: on the search if there are artificial variables,
otherwise on the second phase itself. If it ends at a feasible state (`Program.EndsFeasible`), the
answer is sound, and then it is the one that the normalised constraints lead to, because the two
programs have the same points.

The argument forgets how the phase came to its end. A state at which the verdict is to stop is a
pass of its own (`State.exists_pass_of_stop`), so all that is known about passes from feasible
states applies to the pass from the last state.

Normalised constraints always end so (`endsFeasible_of_rhs_nonneg`). Without normalising, the phase
may stop at a negative right-hand side, and the answer is wrong in any way: see
`solve_misreads_raw`.
-/

namespace SimplexMethod

/-- Two objective values of which neither is better are equal. -/
theorem Direction.eq_of_not_better {d : Direction} {a b : ℚ} (hab : ¬d.Better a b)
    (hba : ¬d.Better b a) : a = b := by
  cases d with
  | maximize => exact le_antisymm (not_lt.1 hab) (not_lt.1 hba)
  | minimize => exact le_antisymm (not_lt.1 hba) (not_lt.1 hab)

/-! ### Passes that are over at once -/

/-- The verdict is to stop. -/
def Verdict.isStop : Verdict → Bool
  | .stop _ => true
  | .exchange _ _ => false

namespace State

variable {K : Type} [Zero K] [One K] [Neg K] [Add K] [Sub K] [Mul K] [Div K] [LT K] [DecidableLT K]
  [LE K] [DecidableLE K] [BEq K] [Selectable K] {settings : Settings K} {sign : K} {s : State K}

/-- Where the verdict is to stop, a pass is over as soon as it begins. -/
theorem exists_pass_of_stop (phase : Phase) {outcome : Outcome}
    (h : s.verdict settings sign = .stop outcome) :
    ∃ events, s.pass settings phase sign = .ok ⟨outcome, s, events⟩ :=
  ⟨_, pass_eq_ok.2 ⟨_, improve_of_stop h, rfl⟩⟩

end State

namespace Program

/-! ### Normalised programs -/

/-- The program with every constraint normalised. -/
def normalized {K : Type} [Zero K] [Neg K] [LT K] [DecidableLT K] (p : Program K) : Program K :=
  { p with constraints := p.constraints.map Constraint.normalize }

theorem rhs_normalized_nonneg (p : Program ℚ) : ∀ c ∈ p.normalized.constraints, 0 ≤ c.rhs := by
  intro c hc
  obtain ⟨d, -, rfl⟩ := List.mem_map.1 hc
  exact d.rhs_normalize_nonneg

/-! ### Where the first phase ends -/

/-- The first phase of a solve stops at states without negative right-hand sides only. -/
structure EndsFeasible (p : Program ℚ) (settings : Settings ℚ) : Prop where
  search : ∀ s outcome, p.Visits settings .search s →
    s.verdict settings (Direction.sign .minimize) = .stop outcome →
    ∀ i < s.tableau.rows, 0 ≤ s.rhs i
  direct : (EqualityForm.ofProgram p).hasArtificials = false →
    ∀ s outcome, p.Visits settings .second s →
      s.verdict settings p.direction.sign = .stop outcome → ∀ i < s.tableau.rows, 0 ≤ s.rhs i

variable {p q : Program ℚ} {cap cap' : Option Nat}

/-- Over exact numbers without a tolerance nothing is hidden. -/
theorem sharp_exact (p : Program ℚ) (cap : Option Nat) : p.Sharp ⟨cap, 0⟩ where
  search := fun _ _ _ _ _ ⟨_, _, hpos, hle⟩ => absurd hpos (not_lt.2 hle)
  sum := fun _ _ _ hsum => abs_nonpos_iff.1 hsum
  second := fun _ _ _ _ _ ⟨_, _, hpos, hle⟩ => absurd hpos (not_lt.2 hle)

/-- **Normalised constraints end at feasible states.** -/
theorem endsFeasible_of_rhs_nonneg (hrhs : ∀ c ∈ p.constraints, 0 ≤ c.rhs) (cap : Option Nat) :
    p.EndsFeasible ⟨cap, 0⟩ where
  search := fun _ _ hs _ => ((p.sharp_exact cap).keeps le_rfl hrhs hs).rhs_nonneg
  direct := fun _ _ _ hs _ => ((p.sharp_exact cap).keeps le_rfl hrhs hs).rhs_nonneg

/-- The visited states, and with them those at which a phase stops, can be listed. -/
theorem endsFeasible_of_trail {settings : Settings ℚ} {n : Nat}
    (hlength : (p.trail settings n).length < n)
    (hsearch : ∀ x ∈ p.trail settings n, x.1 = .search →
      (x.2.verdict settings (Direction.sign .minimize)).isStop = true →
      ∀ i < x.2.tableau.rows, 0 ≤ x.2.rhs i)
    (hdirect : (EqualityForm.ofProgram p).hasArtificials = false →
      ∀ x ∈ p.trail settings n, x.1 = .second →
        (x.2.verdict settings p.direction.sign).isStop = true →
        ∀ i < x.2.tableau.rows, 0 ≤ x.2.rhs i) : p.EndsFeasible settings where
  search := fun s _ hs hstop =>
    hsearch (.search, s) ((visits_iff_mem_trail hlength).1 hs) rfl (by rw [hstop]; rfl)
  direct := fun hnone s _ hs hstop =>
    hdirect hnone (.second, s) ((visits_iff_mem_trail hlength).1 hs) rfl (by rw [hstop]; rfl)

namespace EndsFeasible

/-- **A search that ends at a feasible state is sound.** -/
theorem soundFor (hends : p.EndsFeasible ⟨cap, 0⟩) (hfit : p.mismatch = none)
    (hartificials : (EqualityForm.ofProgram p).hasArtificials = true)
    {search : FeasibilitySearch ℚ}
    (h : (EqualityForm.ofProgram p).searchFeasible ⟨cap, 0⟩ = .ok search) :
    search.result.SoundFor p := by
  obtain ⟨start, pass, hstart, hpass, hresult, -⟩ := EqualityForm.searchFeasible_eq_ok.1 h
  obtain ⟨hobjective, htableau, -, hcanonical⟩ :=
    State.of_ofTableau (EqualityForm.isBasis_ofProgram p) hstart
  obtain ⟨hreaches, hstop⟩ := State.reaches_of_pass hpass
  obtain ⟨hlast, hsame⟩ := hcanonical.reaches le_rfl hreaches
  have hvisits := (Visits.searchStart hfit hartificials hstart).reaches_search hreaches
  have hfeasible : pass.state.Feasible := ⟨hlast, hends.search _ _ hvisits hstop⟩
  obtain ⟨events, hrest⟩ := State.exists_pass_of_stop .one hstop
  obtain ⟨result, hjudged, hsound⟩ := EqualityForm.exists_feasibilityOf
    (hsame.objective.trans hobjective) (fun v => by rw [hsame.solves, htableau]) hfeasible hrest
  -- what the last state says does not depend on the way to it
  have hsaid : (EqualityForm.ofProgram p).feasibilityOf ⟨cap, 0⟩ pass = .ok result := hjudged
  rw [hresult] at hsaid
  cases hsaid
  exact hsound

/-- Without artificial variables the last state of the second phase stands for a feasible point. -/
theorem represents (hends : p.EndsFeasible ⟨cap, 0⟩) (hfit : p.mismatch = none)
    (hnone : (EqualityForm.ofProgram p).hasArtificials = false) {start : State ℚ} {pass : Pass ℚ}
    (hstart : State.ofTableau p.extendedCosts (EqualityForm.ofProgram p).tableau
      (EqualityForm.ofProgram p).basis = .ok start)
    (hpass : start.pass ⟨cap, 0⟩ .two p.direction.sign = .ok pass) : pass.state.Represents p := by
  obtain ⟨hobjective, htableau, -, hcanonical⟩ :=
    State.of_ofTableau (EqualityForm.isBasis_ofProgram p) hstart
  obtain ⟨hreaches, hstop⟩ := State.reaches_of_pass hpass
  obtain ⟨hlast, hsame⟩ := hcanonical.reaches le_rfl hreaches
  have hvisits := (Visits.directStart hfit hnone hstart).reaches_second hreaches
  refine ⟨⟨hlast, hends.direct hnone _ _ hvisits hstop⟩, hsame.objective.trans hobjective,
    fun v => ?_⟩
  rw [hsame.solves, htableau]
  exact solves_of_not_hasArtificials hnone v

end EndsFeasible

/-- The last state of a pass decides what the answer says. -/
theorem answered_of_last {pass : Pass ℚ}
    (hstop : pass.state.verdict ⟨cap, 0⟩ p.direction.sign = .stop pass.outcome)
    (hlast : pass.state.Represents p) (iterations : Nat) :
    Answered p cap (p.solutionOf pass iterations) := by
  obtain ⟨events, hrest⟩ := State.exists_pass_of_stop .two hstop
  exact answered_solutionOf hlast hrest iterations

/-- **An answer is sound if the first phase ends at a feasible state.** -/
theorem EndsFeasible.answered (hends : p.EndsFeasible ⟨cap, 0⟩) {run : Run ℚ}
    (h : p.solve ⟨cap, 0⟩ = .ok run) : p.mismatch = none ∧ Answered p cap run.solution := by
  obtain ⟨hfit, hassembles⟩ := solve_eq_ok.1 h
  refine ⟨hfit, ?_⟩
  cases hassembles with
  | direct hnone hsecond =>
      obtain ⟨start, pass, hstart, hpass, -, rfl⟩ := secondPhase_eq_ok.1 hsecond
      exact answered_of_last (State.reaches_of_pass hpass).2
        (hends.represents hfit hnone hstart hpass) _
  | searched hartificials hsearch hsecond =>
      cases hends.soundFor hfit hartificials hsearch with
      | feasible hbasis =>
          rcases secondPhase_cases hbasis cap _ with ⟨second, hok, hanswered⟩ | herror
          · rw [hsecond] at hok
            cases hok
            exact hanswered
          · rw [hsecond] at herror
            cases herror
  | infeasible hartificials hsearch =>
      cases hends.soundFor hfit hartificials hsearch with
      | infeasible hnone => exact .infeasible hnone
  | exhausted _ _ => exact .unsearched

/-! ### Answers to one set of points -/

theorem Answered.objectiveValue_of_infeasible {solution : Solution ℚ}
    (h : Answered p cap solution) (hstatus : solution.status = .infeasible) :
    solution.objectiveValue = .infinity := by
  cases h with
  | infeasible _ => rfl
  | unsearched => cases hstatus
  | optimal _ _ _ => cases hstatus
  | unbounded _ _ _ => cases hstatus
  | stopped _ _ _ => cases hstatus

/-- The two programs ask for the best of the same points. -/
structure SamePoints (p q : Program ℚ) : Prop where
  direction : q.direction = p.direction
  objective : q.objective = p.objective
  points : ∀ x, FeasiblePoint q.variableCount q.constraints x ↔
    FeasiblePoint p.variableCount p.constraints x

theorem samePoints_normalized (p : Program ℚ) : p.SamePoints p.normalized :=
  ⟨rfl, rfl, fun _ => feasiblePoint_map_normalize⟩

/-- **The points determine status and objective value.** -/
theorem Answered.agree {solution solution' : Solution ℚ} (hsame : p.SamePoints q)
    (h : Answered p cap solution) (h' : Answered q cap' solution') (hfit : p.mismatch = none)
    (hfit' : q.mismatch = none) (hstatus : solution.status ≠ .exhausted)
    (hstatus' : solution'.status ≠ .exhausted) :
    solution'.status = solution.status ∧ solution'.objectiveValue = solution.objectiveValue := by
  have hinfeasible : solution'.status = .infeasible ↔ solution.status = .infeasible := by
    rw [h.infeasible_iff hfit hstatus, h'.infeasible_iff hfit' hstatus']
    exact not_congr (exists_congr hsame.points)
  have hunbounded : solution'.status = .unbounded ↔ solution.status = .unbounded := by
    rw [h.unbounded_iff hfit hstatus, h'.unbounded_iff hfit' hstatus', hsame.direction,
      hsame.objective]
    exact forall_congr' fun bound => exists_congr fun x => and_congr_left fun _ => hsame.points x
  cases hkind : solution.status with
  | infeasible =>
      have hkind' := hinfeasible.2 hkind
      refine ⟨hkind', ?_⟩
      rw [h.objectiveValue_of_infeasible hkind, h'.objectiveValue_of_infeasible hkind']
  | unbounded =>
      have hkind' := hunbounded.2 hkind
      refine ⟨hkind', ?_⟩
      rw [h.objectiveValue_of_unbounded hkind, h'.objectiveValue_of_unbounded hkind',
        hsame.direction]
  | exhausted => exact absurd hkind hstatus
  | optimal =>
      have hkind' : solution'.status = .optimal := by
        rw [hkind] at hinfeasible hunbounded
        cases hother : solution'.status with
        | optimal => rfl
        | infeasible => exact absurd (hinfeasible.1 hother) nofun
        | unbounded => exact absurd (hunbounded.1 hother) nofun
        | exhausted => exact absurd hother hstatus'
      refine ⟨hkind', ?_⟩
      obtain ⟨x, -, -, hvalue, hx, hbest⟩ := h.exists_optimal hfit hkind
      obtain ⟨y, -, -, hvalue', hy, hbest'⟩ := h'.exists_optimal hfit' hkind'
      have hyx := hbest y ((hsame.points y).1 hy)
      have hxy := hbest' x ((hsame.points x).2 hx)
      rw [hsame.direction, hsame.objective] at hxy
      rw [hvalue, hvalue', hsame.objective, Direction.eq_of_not_better hyx hxy]

/-! ### Solving what is stored -/

/-- **What normalising is for.** Take any program, with right-hand sides of any sign. If none is
negative, the first phase of the solve ends at feasible states. If it does, the program with every
constraint normalised is answered with the same status and the same objective value, whenever
neither of the two solves is ended by its cap. -/
theorem solve_stored_raw (p : Program ℚ) (cap : Option Nat) :
    ((∀ c ∈ p.constraints, 0 ≤ c.rhs) → p.EndsFeasible ⟨cap, 0⟩) ∧
    (p.EndsFeasible ⟨cap, 0⟩ → ∀ cap' run run', p.solve ⟨cap, 0⟩ = .ok run →
      p.normalized.solve ⟨cap', 0⟩ = .ok run' → run.solution.status ≠ .exhausted →
      run'.solution.status ≠ .exhausted →
        run'.solution.status = run.solution.status ∧
        run'.solution.objectiveValue = run.solution.objectiveValue) := by
  refine ⟨fun hrhs => endsFeasible_of_rhs_nonneg hrhs cap,
    fun hends cap' run run' hrun hrun' hstatus hstatus' => ?_⟩
  obtain ⟨hfit, hanswered⟩ := hends.answered hrun
  have hnormalized := endsFeasible_of_rhs_nonneg p.rhs_normalized_nonneg cap'
  obtain ⟨hfit', hanswered'⟩ := hnormalized.answered hrun'
  exact hanswered.agree p.samePoints_normalized hanswered' hfit hfit' hstatus hstatus'

/-- The first constraint is stored with a negative right-hand side. The only exchange of the search
makes up for it. -/
theorem solve_stored_raw_made_up_for :
    let p : Program ℚ := ⟨.maximize, [1, -1], [⟨[-1, 0], .atMost, -2⟩, ⟨[1, 1], .atLeast, 3⟩,
      ⟨[1, 0], .atMost, 5⟩]⟩
    p.EndsFeasible ⟨none, 0⟩ ∧
      (p.solve ⟨none, 0⟩).map (·.solution.objectiveValue) = .ok (.number 5) ∧
      ∃ run', p.normalized.solve ⟨none, 0⟩ = .ok run' ∧ run'.solution.status = .optimal ∧
        run'.solution.objectiveValue = .number 5 := by
  intro p
  have hends : p.EndsFeasible ⟨none, 0⟩ := endsFeasible_of_trail (n := 20) (by decide +kernel)
    (by decide +kernel) (by decide +kernel)
  have hsolve : (p.solve ⟨none, 0⟩).map (fun run =>
      (run.solution.status, run.solution.objectiveValue)) = .ok (.optimal, .number 5) := by
    decide +kernel
  have hsolve' : (p.normalized.solve ⟨none, 0⟩).map (·.solution.status) = .ok .optimal := by
    decide +kernel
  cases hrun : p.solve ⟨none, 0⟩ with
  | error e => rw [hrun] at hsolve; cases hsolve
  | ok run =>
      cases hrun' : p.normalized.solve ⟨none, 0⟩ with
      | error e => rw [hrun'] at hsolve'; cases hsolve'
      | ok run' =>
          rw [hrun] at hsolve
          rw [hrun'] at hsolve'
          obtain ⟨hstatus, hvalue⟩ := Prod.mk.inj (Except.ok.inj hsolve)
          have hstatus' : run'.solution.status = .optimal := Except.ok.inj hsolve'
          obtain ⟨-, hsame⟩ := (solve_stored_raw p none).2 hends none run run' hrun hrun'
            (by rw [hstatus]; nofun) (by rw [hstatus']; nofun)
          exact ⟨hends, congrArg Except.ok hvalue, run', rfl, hstatus', hsame.trans hvalue⟩

/-- **A negative right-hand side may be taken for a feasible one.** That a variable is at least two
is stored as an upper bound with both sides negated, and zero is called its least value. That it is
at most four is stored as a lower bound with both sides negated, and no value is found for it. -/
theorem solve_misreads_raw :
    let p : Program ℚ := .push ⟨.minimize, [1], []⟩ ⟨[-1], .atMost, -2⟩
    let q : Program ℚ := .push ⟨.minimize, [1], []⟩ ⟨[-1], .atLeast, -4⟩
    (p.solve ⟨none, 0⟩).map (·.solution) = .ok ⟨.optimal, .number 0, [0, -2], [-1, 0], 0, 1⟩ ∧
      (p.normalized.solve ⟨none, 0⟩).map (·.solution) =
        .ok ⟨.optimal, .number 2, [2, 0], [0, -1], 1, 1⟩ ∧
      (q.solve ⟨none, 0⟩).map (·.solution.status) = .ok .infeasible ∧
      (q.normalized.solve ⟨none, 0⟩).map (·.solution.status) = .ok .optimal := by
  decide +kernel

end Program

end SimplexMethod
