import SimplexMethod.Proofs.Drift
import SimplexMethod.Proofs.Transcript

/-!
# SimplexMethod.Proofs.SearchBound

**When the search for a basis is unbounded.** A sum of artificial variables is never below zero, so
it cannot fall without limit. All the same the search may come to the verdict that it does
(`solve_search_unbounded`): pricing compares the sum of the entries in the artificial rows with the
tolerance, while the ratio test compares each entry by itself, and entries that count as zero can
have a sum that does not.

There is no other way. A column that is priced in has a positive entry in some artificial row
(`State.exists_artificial_of_price`), and unless that counts as zero it limits the column. So where
the search overlooks nothing (`Program.SearchOverlooks`) it ends at its minimum, and the answer is
infeasible exactly if that minimum is above the tolerance. With tolerance zero nothing is ever
overlooked.
-/

namespace SimplexMethod

/-! ### Columns priced in by the sum of the artificial variables -/

namespace State

variable {s : State ℚ} {form : EqualityForm ℚ} {settings : Settings ℚ} {tolerance : ℚ} {col : Nat}

theorem basicCost_nonneg_of_artificialCosts (h : s.objective = form.artificialCosts) {i : Nat}
    (hi : i < s.tableau.rows) : 0 ≤ s.basicCost i := by
  rw [basicCost, getD_objective_of_artificialCosts h (s.basis_getD_lt hi)]
  split
  · exact le_rfl
  · exact zero_le_one

theorem objectiveValue_nonneg_of_artificialCosts (h : s.objective = form.artificialCosts)
    (hrhs : ∀ i < s.tableau.rows, 0 ≤ s.rhs i) : 0 ≤ s.objectiveValue := by
  rw [objectiveValue_eq_sum]
  refine Finset.sum_nonneg fun i hi => ?_
  have hi' := Finset.mem_range.1 hi
  exact mul_nonneg (basicCost_nonneg_of_artificialCosts h hi') (hrhs i hi')

/-- A column is priced in for the sum of its entries in the artificial rows. -/
theorem lt_sum_of_price (h : s.objective = form.artificialCosts)
    (hprice : s.price (Direction.sign .minimize) tolerance = some col) :
    tolerance < ∑ i ∈ Finset.range s.tableau.rows, s.basicCost i * s.tableau.entry i col := by
  obtain ⟨hcol, himproves⟩ := price_eq_some hprice
  have hcost : 0 ≤ s.objective.getD col 0 := by
    rw [getD_objective_of_artificialCosts h hcol]
    split
    · exact le_rfl
    · exact zero_le_one
  rw [reducedCost_eq_sum, Direction.sign] at himproves
  linarith

/-- **A column is priced in for a positive entry in the row of an artificial variable.** -/
theorem exists_artificial_of_price (h : s.objective = form.artificialCosts) (htol : 0 ≤ tolerance)
    (hprice : s.price (Direction.sign .minimize) tolerance = some col) :
    ∃ i < s.tableau.rows, form.firstArtificial ≤ s.basis.getD i 0 ∧ 0 < s.tableau.entry i col := by
  by_contra hnone
  have hsum : ∑ i ∈ Finset.range s.tableau.rows, s.basicCost i * s.tableau.entry i col ≤ 0 := by
    refine Finset.sum_nonpos fun i hi => ?_
    have hi' := Finset.mem_range.1 hi
    rw [basicCost, getD_objective_of_artificialCosts h (s.basis_getD_lt hi')]
    split
    · rw [zero_mul]
    · next hbasic =>
      rw [one_mul]
      exact not_lt.1 fun hpos => hnone ⟨i, hi', not_lt.1 hbasic, hpos⟩
  linarith [lt_sum_of_price h hprice]

/-- **An unbounded verdict overlooks an entry**, if no right-hand side is negative. -/
theorem overlooks_of_unbounded (h : s.objective = form.artificialCosts)
    (htol : 0 ≤ settings.tolerance) (hrhs : ∀ i < s.tableau.rows, 0 ≤ s.rhs i)
    (hverdict : s.verdict settings (Direction.sign .minimize) = .stop .unbounded) :
    ∃ col, s.price (Direction.sign .minimize) settings.tolerance = some col ∧
      s.tableau.Overlooks settings.tolerance col := by
  obtain ⟨col, hprice, hratio⟩ := verdict_eq_unbounded hverdict
  obtain ⟨i, hi, -, hpos⟩ := exists_artificial_of_price h htol hprice
  refine ⟨col, hprice, i, hi, hpos, not_lt.1 fun habove => ?_⟩
  -- an entry above the tolerance limits the column
  have hneg := Tableau.ratioTest_eq_none.1 hratio i hi habove
  exact absurd hneg (not_lt.2 (div_nonneg (hrhs i hi) hpos.le))

end State

namespace Program

variable {p : Program ℚ} {settings : Settings ℚ} {s : State ℚ}

/-! ### States of the search -/

/-- In some state of the search a column is priced in that has a positive entry which counts as
zero. -/
def SearchOverlooks (p : Program ℚ) (settings : Settings ℚ) : Prop :=
  ∃ s col, p.Visits settings .search s ∧
    s.price (Direction.sign .minimize) settings.tolerance = some col ∧
    s.tableau.Overlooks settings.tolerance col

theorem not_searchOverlooks_of_exact (hexact : settings.tolerance = 0) :
    ¬p.SearchOverlooks settings := by
  rintro ⟨s, col, -, -, i, -, hpos, hle⟩
  rw [hexact] at hle
  exact absurd hpos (not_lt.2 hle)

/-- A search that overlooks nothing makes no right-hand side negative. -/
theorem rhs_nonneg_of_search (htol : 0 ≤ settings.tolerance) (hrhs : ∀ c ∈ p.constraints, 0 ≤ c.rhs)
    (hclear : ¬p.SearchOverlooks settings) (h : p.Visits settings .search s) :
    ∀ i < s.tableau.rows, 0 ≤ s.rhs i := by
  generalize hstage : Stage.search = stage at h
  induction h with
  | searchStart _ _ hstart =>
      exact State.rhs_nonneg_of_ofTableau (EqualityForm.isBasis_ofProgram p)
        (EqualityForm.rhs_ofProgram_nonneg hrhs) hstart
  | searchStep hs hstep ih =>
      refine (tracks_of_visits htol hs).canonical.rhs_nonneg_of_step htol (ih rfl) ?_ hstep
      exact fun row col hverdict hoverlooks =>
        hclear ⟨_, col, hs, (State.verdict_eq_exchange hverdict).1, hoverlooks⟩
  | expulsionStart => cases hstage
  | expulsionStep => cases hstage
  | handover => cases hstage
  | directStart => cases hstage
  | secondStep => cases hstage

/-- **A search is unbounded only where it overlooks something.** -/
theorem searchOverlooks_of_unbounded (htol : 0 ≤ settings.tolerance)
    (hrhs : ∀ c ∈ p.constraints, 0 ≤ c.rhs) (hs : p.Visits settings .search s)
    (hverdict : s.verdict settings (Direction.sign .minimize) = .stop .unbounded) :
    p.SearchOverlooks settings := by
  by_contra hclear
  obtain ⟨-, hobjective⟩ := tracks_of_visits htol hs
  obtain ⟨col, hprice, hoverlooks⟩ := State.overlooks_of_unbounded hobjective htol
    (rhs_nonneg_of_search htol hrhs hclear hs) hverdict
  exact hclear ⟨s, col, hs, hprice, hoverlooks⟩

/-! ### How a search ends -/

/-- The only event of a pass that tells about an end is its last one. -/
theorem phaseEnd_mem_of_pass {phase phase' : Phase} {sign : ℚ} {pass : Pass ℚ} {outcome : Outcome}
    {value : ℚ} (h : s.pass settings phase sign = .ok pass) :
    .phaseEnd phase' outcome value ∈ pass.events ↔
      phase' = phase ∧ outcome = pass.outcome ∧ value = pass.state.objectiveValue := by
  constructor
  · intro hmem
    rcases State.reaches_of_mem_pass h hmem with heq | ⟨row, col, t, heq, -⟩ | heq
    · cases heq
    · cases heq
    · cases heq
      exact ⟨rfl, rfl, rfl⟩
  · rintro ⟨rfl, rfl, rfl⟩
    obtain ⟨run, -, rfl⟩ := State.pass_eq_ok.1 h
    exact List.mem_append_right _ (List.mem_singleton.2 rfl)

/-- When a search says that there is no feasible point. -/
theorem infeasible_of_feasibilityOf {form : EqualityForm ℚ} {pass : Pass ℚ} {result : Feasibility ℚ}
    (h : form.feasibilityOf settings pass = .ok result) :
    (∃ iterations, result = .infeasible iterations) ↔ pass.outcome = .unbounded ∨
      pass.outcome = .optimal ∧ settings.tolerance < |pass.state.objectiveValue| := by
  rw [← magnitude_eq_abs]
  rcases EqualityForm.feasibilityOf_cases h with ⟨houtcome, rfl⟩ | ⟨houtcome, rfl⟩ |
    ⟨houtcome, hsum, rfl⟩ | ⟨houtcome, hsum, final, -, rfl⟩
  · simp [houtcome]
  · simp [houtcome]
  · simp [houtcome, hsum]
  · simp [houtcome, hsum]

/-- What a solve tells about the end of its search, and what it concludes from that. -/
structure SearchEnds (p : Program ℚ) (settings : Settings ℚ) (run : Run ℚ) (pass : Pass ℚ) :
    Prop where
  visits : p.Visits settings .search pass.state
  verdict : pass.state.verdict settings (Direction.sign .minimize) = .stop pass.outcome
  told : ∀ outcome value, .phaseEnd .one outcome value ∈ run.events ↔
    outcome = pass.outcome ∧ value = pass.state.objectiveValue
  infeasible_iff : run.solution.status = .infeasible ↔ pass.outcome = .unbounded ∨
    pass.outcome = .optimal ∧ settings.tolerance < |pass.state.objectiveValue|

theorem exists_pass_of_searchFeasible {search : FeasibilitySearch ℚ} (hfit : p.mismatch = none)
    (hartificials : (EqualityForm.ofProgram p).hasArtificials = true)
    (h : (EqualityForm.ofProgram p).searchFeasible settings = .ok search) :
    ∃ pass : Pass ℚ, p.Visits settings .search pass.state ∧
      pass.state.verdict settings (Direction.sign .minimize) = .stop pass.outcome ∧
      (∀ outcome value, .phaseEnd .one outcome value ∈ search.events ↔
        outcome = pass.outcome ∧ value = pass.state.objectiveValue) ∧
      ((∃ iterations, search.result = .infeasible iterations) ↔ pass.outcome = .unbounded ∨
        pass.outcome = .optimal ∧ settings.tolerance < |pass.state.objectiveValue|) := by
  obtain ⟨start, pass, hstart, hpass, hresult, hevents⟩ := EqualityForm.searchFeasible_eq_ok.1 h
  have hvisits : p.Visits settings .search start := .searchStart hfit hartificials hstart
  obtain ⟨hreaches, hverdict⟩ := State.reaches_of_pass hpass
  refine ⟨pass, hvisits.reaches_search hreaches, hverdict, fun outcome value => ?_,
    infeasible_of_feasibilityOf hresult⟩
  rw [hevents, phaseEnd_mem_of_pass hpass]
  exact and_iff_right rfl

/-- A second phase tells nothing about a search, and never says that there is no feasible point. -/
theorem secondPhase_silent {tableau : Tableau ℚ} {basis : List Nat} {earlier : Nat} {run : Run ℚ}
    (h : p.secondPhase settings tableau basis earlier = .ok run) :
    (∀ outcome value, .phaseEnd .one outcome value ∉ run.events) ∧
      run.solution.status ≠ .infeasible := by
  obtain ⟨start, pass, -, hpass, -, rfl⟩ := secondPhase_eq_ok.1 h
  refine ⟨fun outcome value hmem => ?_, ?_⟩
  · obtain ⟨hphase, -, -⟩ := (phaseEnd_mem_of_pass hpass).1 hmem
    cases hphase
  · rw [status_solutionOf]
    cases pass.outcome <;> nofun

/-- **A solve either makes no search or tells how it ended.** -/
theorem searchEnds_of_solve {run : Run ℚ} (h : p.solve settings = .ok run) :
    ((∀ outcome value, .phaseEnd .one outcome value ∉ run.events) ∧
      run.solution.status ≠ .infeasible) ∨ ∃ pass, p.SearchEnds settings run pass := by
  obtain ⟨hfit, hassembles⟩ := solve_eq_ok.1 h
  cases hassembles with
  | direct _ hsecond => exact Or.inl (by simpa using secondPhase_silent hsecond)
  | searched hartificials hsearch hsecond =>
      obtain ⟨pass, hvisits, hverdict, htold, hinfeasible⟩ :=
        exists_pass_of_searchFeasible hfit hartificials hsearch
      obtain ⟨hsilent, hstatus⟩ := secondPhase_silent hsecond
      refine Or.inr ⟨pass, hvisits, hverdict, fun outcome value => ?_, ?_⟩
      · simpa [hsilent] using htold outcome value
      · rw [← hinfeasible]
        simpa using hstatus
  | infeasible hartificials hsearch =>
      obtain ⟨pass, hvisits, hverdict, htold, hinfeasible⟩ :=
        exists_pass_of_searchFeasible hfit hartificials hsearch
      refine Or.inr ⟨pass, hvisits, hverdict, fun outcome value => ?_, ?_⟩
      · simpa using htold outcome value
      · rw [← hinfeasible]
        exact iff_of_true rfl ⟨_, rfl⟩
  | exhausted hartificials hsearch =>
      obtain ⟨pass, hvisits, hverdict, htold, hinfeasible⟩ :=
        exists_pass_of_searchFeasible hfit hartificials hsearch
      refine Or.inr ⟨pass, hvisits, hverdict, fun outcome value => ?_, ?_⟩
      · simpa using htold outcome value
      · rw [← hinfeasible]
        exact iff_of_false nofun nofun

/-- **A search is bounded where it overlooks nothing.** A verdict that the search is unbounded is
only ever given if in some state of it a column is priced in that has a positive entry which counts
as zero; with tolerance zero no such entry does. Where that does not happen, no solve tells about
an unbounded search, and the answer is infeasible exactly if the search came to its minimum and
found it above the tolerance. -/
theorem search_bounded (direction : Direction) (objective : List ℚ) (requests : List (Request ℚ))
    {settings : Settings ℚ} (htol : 0 ≤ settings.tolerance) :
    let p := build direction objective requests
    (∀ s, p.Visits settings .search s →
      s.verdict settings (Direction.sign .minimize) = .stop .unbounded →
      p.SearchOverlooks settings) ∧
    (settings.tolerance = 0 → ¬p.SearchOverlooks settings) ∧
    (¬p.SearchOverlooks settings → ∀ run, p.solve settings = .ok run →
      (∀ value, .phaseEnd .one .unbounded value ∉ run.events) ∧
      (run.solution.status = .infeasible ↔
        ∃ value, .phaseEnd .one .optimal value ∈ run.events ∧ settings.tolerance < value)) := by
  intro p
  have hrhs : ∀ c ∈ p.constraints, 0 ≤ c.rhs := rhs_nonneg_of_build
  refine ⟨fun s => searchOverlooks_of_unbounded htol hrhs, not_searchOverlooks_of_exact,
    fun hclear run hrun => ?_⟩
  rcases searchEnds_of_solve hrun with ⟨hsilent, hstatus⟩ | ⟨pass, hends⟩
  · refine ⟨hsilent .unbounded, iff_of_false hstatus ?_⟩
    rintro ⟨value, hmem, -⟩
    exact hsilent .optimal value hmem
  · have hbounded : pass.outcome ≠ .unbounded := fun houtcome =>
      hclear (searchOverlooks_of_unbounded htol hrhs hends.visits (houtcome ▸ hends.verdict))
    have hsum : 0 ≤ pass.state.objectiveValue :=
      State.objectiveValue_nonneg_of_artificialCosts (tracks_of_visits htol hends.visits).2
        (rhs_nonneg_of_search htol hrhs hclear hends.visits)
    refine ⟨fun value hmem => hbounded ((hends.told _ _).1 hmem).1.symm, ?_⟩
    rw [hends.infeasible_iff, or_iff_right hbounded, abs_of_nonneg hsum]
    constructor
    · rintro ⟨houtcome, hlarge⟩
      exact ⟨_, (hends.told _ _).2 ⟨houtcome.symm, rfl⟩, hlarge⟩
    · rintro ⟨value, hmem, hlarge⟩
      obtain ⟨houtcome, rfl⟩ := (hends.told _ _).1 hmem
      exact ⟨houtcome.symm, hlarge⟩

/-- Nothing is overlooked if no entry of a visited state is, and the visited states can be
listed. -/
theorem not_searchOverlooks_of_trail {n : Nat} (hlength : (p.trail settings n).length < n)
    (hentries : ∀ x ∈ p.trail settings n, ∀ col < x.2.objective.length,
      ¬x.2.tableau.Overlooks settings.tolerance col) : ¬p.SearchOverlooks settings := by
  rintro ⟨s, col, hs, hprice, hoverlooks⟩
  exact hentries (.search, s) ((visits_iff_mem_trail hlength).1 hs) col
    (State.price_eq_some hprice).1 hoverlooks

/-- Two constraints that exclude each other: the search makes one exchange and cannot bring the
artificial variable below one. -/
theorem search_bounded_contradiction :
    let p : Program ℚ := build .minimize [1] [.add [1] ">=" 2, .add [1] "<=" 1]
    let settings : Settings ℚ := .standard
    0 ≤ settings.tolerance ∧ ¬p.SearchOverlooks settings ∧
      ∃ run, p.solve settings = .ok run ∧ run.solution.iterations = 1 ∧
        (∀ value, .phaseEnd .one .unbounded value ∉ run.events) ∧
        ∃ value, .phaseEnd .one .optimal value ∈ run.events ∧ settings.tolerance < value := by
  intro p settings
  have htol : 0 ≤ settings.tolerance := by decide +kernel
  have hclear : ¬p.SearchOverlooks settings :=
    not_searchOverlooks_of_trail (n := 5) (by decide +kernel) (by decide +kernel)
  have hsolve : (p.solve settings).map (fun run => (run.solution.status, run.solution.iterations)) =
      .ok (.infeasible, 1) := by decide +kernel
  obtain ⟨-, -, hbounded⟩ :=
    search_bounded .minimize [1] [.add [1] ">=" 2, .add [1] "<=" 1] htol
  cases hrun : p.solve settings with
  | error e => rw [hrun] at hsolve; cases hsolve
  | ok run =>
      rw [hrun] at hsolve
      obtain ⟨hstatus, hiterations⟩ := Prod.mk.inj (Except.ok.inj hsolve)
      obtain ⟨hnone, hinfeasible⟩ := hbounded hclear run hrun
      exact ⟨htol, hclear, run, rfl, hiterations, hnone, hinfeasible.1 hstatus⟩

/-- **A search that is called unbounded.** The entries of both rows count as zero, and their sum
does not. So the column is priced in, no row limits it, and the search ends unbounded although the
sum of the artificial variables is at least zero. The answer is infeasible, but `2 ^ 30` satisfies
both constraints. -/
theorem solve_search_unbounded :
    let p : Program ℚ := build .minimize [1]
      [.add [1 / 1073741824] ">=" 1, .add [1 / 1073741824] ">=" 1]
    let settings : Settings ℚ := .standard
    settings.tolerance = 1 / 1000000000 ∧
      (p.solve settings).map (fun run =>
        (run.solution.status, decide (.phaseEnd .one .unbounded 2 ∈ run.events))) =
        .ok (.infeasible, true) ∧
      FeasiblePoint p.variableCount p.constraints [1073741824] := by
  intro p settings
  decide +kernel

end Program

end SimplexMethod
