import SimplexMethod.Proofs.Expulsion
import SimplexMethod.Proofs.Standard
import SimplexMethod.Solve

/-!
# SimplexMethod.Proofs.Search

**The search for a feasible basis finds one exactly if there is a feasible point.** An assignment is
admitted by a program (`Program.Admits`) if it solves the equality form with
artificial variables at zero and nowhere below zero. `Program.FeasibleBasis` is what
the search hands over to the second phase: a canonical basis with non-negative
right-hand sides, whose equations are those of the equality form without the
artificial columns.

The pass over the artificial costs is never unbounded, since the sum of the
artificial variables is at least zero. So it ends at its minimum, and by
`Feasible.signed_cost_le_of_pass` the minimum is zero if anything is admitted. At zero
every basic artificial variable is itself zero (`rhs_eq_zero_of_objectiveValue`), which
is where the loop of `SimplexMethod.Proofs.Expulsion` takes over.
-/

namespace SimplexMethod

namespace Tableau

/-- A basis stays canonical when columns are dropped that are not basic. -/
theorem IsBasis.dropColumns {t : Tableau ℚ} {basis : List Nat} (h : t.IsBasis basis) {n : Nat}
    (hn : ∀ i < t.rows, basis.getD i 0 < n) : (t.dropColumns n).IsBasis basis where
  length := h.length
  lt := hn
  unit := by
    intro i hi k hk
    rw [entry_dropColumns t hk (hn i hi)]
    exact h.unit i hi k hk

end Tableau

namespace Program

variable {p : Program ℚ}

/-- The assignment is a non-negative solution of the equality form without artificial variables. -/
def Admits (p : Program ℚ) (v : Nat → ℚ) : Prop :=
  (∀ j, 0 ≤ v j) ∧ (EqualityForm.ofProgram p).tableau.Solves (upTo p.firstArtificial v)

/-- A program admits an assignment exactly if it has a feasible point. -/
theorem exists_admits_iff (hfit : p.mismatch = none) :
    (∃ v, p.Admits v) ↔ ∃ x, FeasiblePoint p.variableCount p.constraints x := by
  constructor
  · intro h
    obtain ⟨v, hnonneg, hv⟩ := h
    exact ⟨p.point v, feasiblePoint_of_solves hfit hnonneg hv⟩
  · intro h
    obtain ⟨x, hx⟩ := h
    exact ⟨_, extension_nonneg hx, solves_extension hfit hx⟩

/-- A basis to begin the second phase with. -/
structure FeasibleBasis (p : Program ℚ) (tableau : Tableau ℚ) (basis : List Nat) : Prop where
  cols : tableau.cols = p.firstArtificial + 1
  solves : ∀ v, tableau.Solves v ↔
    (EqualityForm.ofProgram p).tableau.Solves (upTo p.firstArtificial v)
  rhs_nonneg : ∀ i < tableau.rows, 0 ≤ tableau.rhs i
  isBasis : tableau.IsBasis basis

/-- The basic columns are not artificial. -/
theorem FeasibleBasis.lt_of_mem {tableau : Tableau ℚ} {basis : List Nat}
    (h : p.FeasibleBasis tableau basis) {b : Nat} (hb : b ∈ basis) : b < p.firstArtificial := by
  have hlt := h.isBasis.lt_of_mem hb
  rw [h.cols] at hlt
  exact hlt

/-- The second phase begins with the basis as it was handed over. -/
theorem FeasibleBasis.exists_ofTableau {tableau : Tableau ℚ} {basis : List Nat}
    (h : p.FeasibleBasis tableau basis) :
    ∃ s, State.ofTableau p.extendedCosts tableau basis = .ok s ∧ s.objective = p.extendedCosts ∧
      s.tableau = tableau ∧ s.basis = basis ∧ s.Feasible := by
  have hcols : tableau.cols = p.extendedCosts.length + 1 := by
    rw [h.cols, length_extendedCosts]
  exact State.exists_feasible hcols h.isBasis h.rhs_nonneg

end Program

/-! ### The sum of the artificial variables -/

namespace EqualityForm

theorem getD_artificialCosts (form : EqualityForm ℚ) {j : Nat} (hj : j < form.tableau.cols - 1) :
    form.artificialCosts.getD j 0 = if j < form.firstArtificial then 0 else 1 := by
  simp [artificialCosts, hj]

end EqualityForm

namespace State

variable {s : State ℚ} {form : EqualityForm ℚ}

theorem getD_objective_of_artificialCosts (h : s.objective = form.artificialCosts) {j : Nat}
    (hj : j < s.objective.length) :
    s.objective.getD j 0 = if j < form.firstArtificial then 0 else 1 := by
  rw [h, EqualityForm.length_artificialCosts] at hj
  rw [h, form.getD_artificialCosts hj]

theorem cost_nonneg_of_artificialCosts (h : s.objective = form.artificialCosts) {v : Nat → ℚ}
    (hnonneg : ∀ j, 0 ≤ v j) : 0 ≤ s.cost v := by
  refine Finset.sum_nonneg fun j hj => mul_nonneg ?_ (hnonneg j)
  rw [getD_objective_of_artificialCosts h (Finset.mem_range.1 hj)]
  split
  · exact le_rfl
  · exact zero_le_one

/-- Assignments without artificial variables cost nothing. -/
theorem cost_upTo_of_artificialCosts (h : s.objective = form.artificialCosts) (v : Nat → ℚ) :
    s.cost (upTo form.firstArtificial v) = 0 := by
  refine Finset.sum_eq_zero fun j hj => ?_
  rw [getD_objective_of_artificialCosts h (Finset.mem_range.1 hj)]
  by_cases hlt : j < form.firstArtificial
  · rw [if_pos hlt, zero_mul]
  · rw [upTo_of_le v (not_lt.1 hlt), mul_zero]

/-- **If the artificial variables sum to zero, each basic one is zero.** -/
theorem rhs_eq_zero_of_objectiveValue (h : s.objective = form.artificialCosts)
    (hrhs : ∀ i < s.tableau.rows, 0 ≤ s.rhs i) (hzero : s.objectiveValue = 0) {k : Nat}
    (hk : k < s.tableau.rows) (hbasic : form.firstArtificial ≤ s.basis.getD k 0) : s.rhs k = 0 := by
  have hcost : ∀ i < s.tableau.rows,
      s.basicCost i = if s.basis.getD i 0 < form.firstArtificial then 0 else 1 :=
    fun i hi => getD_objective_of_artificialCosts h (s.basis_getD_lt hi)
  have hterms : ∀ i ∈ Finset.range s.tableau.rows, 0 ≤ s.basicCost i * s.rhs i := by
    intro i hi
    have hi' := Finset.mem_range.1 hi
    refine mul_nonneg ?_ (hrhs i hi')
    rw [hcost i hi']
    split
    · exact le_rfl
    · exact zero_le_one
  rw [objectiveValue_eq_sum, Finset.sum_eq_zero_iff_of_nonneg hterms] at hzero
  have hterm := hzero k (Finset.mem_range.2 hk)
  rw [hcost k hk, if_neg (not_lt.2 hbasic), one_mul] at hterm
  exact hterm

end State

/-! ### The search -/

/-- What the search may say about a program. -/
inductive Feasibility.SoundFor (p : Program ℚ) : Feasibility ℚ → Prop where
  | feasible {tableau : Tableau ℚ} {basis : List Nat} {iterations : Nat} :
      p.FeasibleBasis tableau basis → SoundFor p (.feasible tableau basis iterations)
  | infeasible {iterations : Nat} : (¬∃ v, p.Admits v) → SoundFor p (.infeasible iterations)
  | exhausted {iterations : Nat} : SoundFor p (.exhausted iterations)

namespace EqualityForm

variable {p : Program ℚ} {cap : Option Nat}

/-- The search begins at a feasible state of the equality form. -/
theorem exists_start (hrhs : ∀ c ∈ p.constraints, 0 ≤ c.rhs) :
    ∃ s, State.ofTableau (ofProgram p).artificialCosts (ofProgram p).tableau (ofProgram p).basis =
        .ok s ∧ s.objective = (ofProgram p).artificialCosts ∧ s.tableau = (ofProgram p).tableau ∧
      s.basis = (ofProgram p).basis ∧ s.Feasible := by
  have hcols : (ofProgram p).tableau.cols = (ofProgram p).artificialCosts.length + 1 := by
    rw [length_artificialCosts, cols_ofProgram, Nat.add_sub_cancel]
  exact State.exists_feasible hcols (isBasis_ofProgram p) (rhs_ofProgram_nonneg hrhs)

/-- **Artificial variables that sum to zero are expelled**, and what is left is a feasible basis. -/
theorem exists_feasibleBasis {s : State ℚ}
    (hobjective : s.objective = (ofProgram p).artificialCosts)
    (hsolves : ∀ v, s.tableau.Solves v ↔ (ofProgram p).tableau.Solves v) (hs : s.Feasible)
    (hzero : s.objectiveValue = 0) :
    ∃ t, s.expelArtificials p.firstArtificial 0 s.tableau.rows 0 = .ok t ∧
      p.FeasibleBasis (t.tableau.dropColumns p.firstArtificial) t.basis := by
  have hfirst : p.firstArtificial ≤ s.objective.length := by
    rw [hobjective, length_artificialCosts, cols_ofProgram]
    omega
  have hstart : State.Expelling (ofProgram p).tableau p.firstArtificial 0 s := by
    refine ⟨hs, hfirst, fun k hk => absurd hk k.not_lt_zero, fun k hk hbasic => ?_, fun v => ?_⟩
    · exact State.rhs_eq_zero_of_objectiveValue hobjective hs.rhs_nonneg hzero hk hbasic
    · exact hsolves _
  obtain ⟨t, ht, hdone⟩ := hstart.expelArtificials (Nat.zero_add _).symm
  have hcols : p.firstArtificial ≤ t.tableau.cols - 1 := by
    rw [t.cols_tableau]
    exact hdone.first_le
  refine ⟨t, ht, rfl, fun v => ?_, fun i hi => ?_, ?_⟩
  · rw [Tableau.solves_dropColumns t.tableau hcols]
    exact hdone.solves v
  · rw [Tableau.rhs_dropColumns t.tableau hi]
    exact hdone.feasible.rhs_nonneg i hi
  · exact hdone.feasible.canonical.dropColumns hdone.done

/-- **The last state of the pass is judged soundly.** -/
theorem exists_feasibilityOf {start : State ℚ}
    (hobjective : start.objective = (ofProgram p).artificialCosts)
    (hsolves : ∀ v, start.tableau.Solves v ↔ (ofProgram p).tableau.Solves v)
    (hstart : start.Feasible) {pass : Pass ℚ}
    (hpass : start.pass ⟨cap, 0⟩ .one (Direction.sign .minimize) = .ok pass) :
    ∃ result, (ofProgram p).feasibilityOf ⟨cap, 0⟩ pass = .ok result ∧ result.SoundFor p := by
  obtain ⟨hend, hsame, -⟩ := hstart.of_pass hpass
  have hcosts := hsame.objective.trans hobjective
  unfold feasibilityOf
  cases houtcome : pass.outcome with
  | exhausted => exact ⟨_, rfl, .exhausted⟩
  | unbounded =>
      -- the sum of the artificial variables cannot fall below zero
      obtain ⟨v, hnonneg, -, hbeyond⟩ := hstart.exists_beyond_of_pass hpass houtcome 0
      have hcost := State.cost_nonneg_of_artificialCosts hobjective hnonneg
      rw [Direction.sign] at hbeyond
      linarith
  | optimal =>
      have hvalue : 0 ≤ pass.state.objectiveValue := by
        rw [← hend.canonical.cost_value]
        exact State.cost_nonneg_of_artificialCosts hcosts
          (hend.canonical.value_nonneg hend.rhs_nonneg)
      dsimp only
      rw [magnitude_eq_abs, abs_of_nonneg hvalue]
      split
      · next hpositive =>
        refine ⟨_, rfl, .infeasible ?_⟩
        intro hadmits
        obtain ⟨v, hnonneg, hv⟩ := hadmits
        have hleast := hstart.signed_cost_le_of_pass hpass houtcome ((hsolves _).2 hv)
          (upTo_nonneg hnonneg _)
        have hcost : start.cost (upTo p.firstArtificial v) = 0 :=
          State.cost_upTo_of_artificialCosts hobjective v
        rw [hcost, Direction.sign] at hleast
        linarith
      · next hnonpos =>
        have hzero := le_antisymm (not_lt.1 hnonpos) hvalue
        obtain ⟨t, ht, hbasis⟩ := exists_feasibleBasis hcosts
          (fun v => (hsame.solves v).trans (hsolves v)) hend hzero
        refine ⟨.feasible _ _ pass.state.iterations, ?_, .feasible hbasis⟩
        rw [show (ofProgram p).firstArtificial = p.firstArtificial from rfl, ht]
        rfl

/-- **The search is sound**, and it fails only for want of room in the counter. -/
theorem searchFeasible_cases (hrhs : ∀ c ∈ p.constraints, 0 ≤ c.rhs) (cap : Option Nat) :
    (∃ search, (ofProgram p).searchFeasible ⟨cap, 0⟩ = .ok search ∧ search.result.SoundFor p) ∨
      (ofProgram p).searchFeasible ⟨cap, 0⟩ = .error .counterOverflow := by
  obtain ⟨start, hok, hobjective, htableau, -, hstart⟩ := exists_start hrhs
  unfold searchFeasible
  rw [hok]
  cases hpass : start.pass ⟨cap, 0⟩ .one (Direction.sign .minimize) with
  | error f =>
      have hcounter := hstart.canonical.fault_of_pass le_rfl hpass
      refine Or.inr ?_
      rw [← hcounter]
      simp only [bind, Except.bind, hpass]
  | ok pass =>
      obtain ⟨result, hresult, hsound⟩ := exists_feasibilityOf hobjective
        (fun v => by rw [htableau]) hstart hpass
      refine Or.inl ⟨⟨result, pass.events⟩, ?_, hsound⟩
      simp only [bind, Except.bind, hpass, hresult, pure, Except.pure]

/-- **What the search hands over to the second phase.** The table has the columns of the variables
and slacks and no others, its equations are those of the equality form without artificial
variables, no right-hand side is negative, and the basis consists of one unit column per row, so
that the second phase begins with table and basis as they are. -/
theorem feasibleBasis_of_searchFeasible (direction : Direction) (objective : List ℚ)
    (requests : List (Request ℚ)) (cap : Option Nat) {tableau : Tableau ℚ} {basis : List Nat}
    {iterations : Nat}
    (h : ((ofProgram (Program.build direction objective requests)).searchFeasible ⟨cap, 0⟩).map
      (·.result) = .ok (.feasible tableau basis iterations)) :
    let p := Program.build direction objective requests
    tableau.cols = p.variableCount + p.constraintCount + 1 ∧
      (∀ v : Nat → ℚ, tableau.Solves v ↔
        (ofProgram p).tableau.Solves (upTo (p.variableCount + p.constraintCount) v)) ∧
      (∀ i < tableau.rows, 0 ≤ tableau.rhs i) ∧
      (∀ b ∈ basis, b < p.variableCount + p.constraintCount) ∧ basis.Nodup ∧
      basis.length = tableau.rows ∧
      (∀ i < tableau.rows, ∀ k < tableau.rows,
        tableau.entry k (basis.getD i 0) = if k = i then 1 else 0) ∧
      ∃ s, State.ofTableau p.extendedCosts tableau basis = .ok s ∧ s.tableau = tableau ∧
        s.basis = basis := by
  intro p
  have hrhs : ∀ c ∈ p.constraints, 0 ≤ c.rhs := Program.rhs_nonneg_of_build
  rcases searchFeasible_cases hrhs cap with ⟨search, hok, hsound⟩ | herror
  · rw [hok] at h
    have hresult : search.result = .feasible tableau basis iterations := Except.ok.inj h
    rw [hresult] at hsound
    cases hsound with
    | feasible hbasis =>
        obtain ⟨s, hs, -, htableau, hset, -⟩ := hbasis.exists_ofTableau
        exact ⟨hbasis.cols, hbasis.solves, hbasis.rhs_nonneg, fun b hb => hbasis.lt_of_mem hb,
          hbasis.isBasis.nodup, hbasis.isBasis.length, hbasis.isBasis.unit, s, hs, htableau, hset⟩
  · rw [herror] at h
    cases h

/-- Of four constraints, the second one repeats the first and is erased, and the artificial variable
of the third one is expelled at an entry below zero. -/
theorem feasibleBasis_of_searchFeasible_degenerate :
    let p : Program ℚ := .build .maximize [1, 2]
      [.add [1, 1] "=" 2, .add [2, 2] "=" 4, .add [1, -1] ">=" 2, .add [1, 0] "<=" 3]
    let tableau : Tableau ℚ :=
      ⟨3, 7, #[1, 0, 0, 0, -1 / 2, 0, 2, 0, 1, 0, 0, 1 / 2, 0, 0, 0, 0, 0, 0, 1 / 2, 1, 1], rfl⟩
    ((ofProgram p).searchFeasible ⟨none, 0⟩).map (·.result) = .ok (.feasible tableau [0, 1, 5] 1) ∧
      tableau.cols = p.variableCount + p.constraintCount + 1 ∧
      ∀ v : Nat → ℚ, tableau.Solves v ↔ (ofProgram p).tableau.Solves (upTo 6 v) := by
  intro p tableau
  have hsearch : ((ofProgram p).searchFeasible ⟨none, 0⟩).map (·.result) =
      .ok (.feasible tableau [0, 1, 5] 1) := by decide +kernel
  obtain ⟨hcols, hsolves, -⟩ := feasibleBasis_of_searchFeasible .maximize [1, 2] _ none hsearch
  exact ⟨hsearch, hcols, hsolves⟩

end EqualityForm

end SimplexMethod
