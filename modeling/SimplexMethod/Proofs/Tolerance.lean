import Mathlib.Data.List.Find
import SimplexMethod.Proofs.Answer
import SimplexMethod.Proofs.Drift

/-!
# SimplexMethod.Proofs.Tolerance

**When a tolerance makes no difference.** One tolerance is used for numbers of different kinds:
reduced costs, entries of the entering column, the sum of the artificial variables and the entries
of a row to be expelled. All of them scale with the rows and the costs that a caller writes down,
and the tolerance does not, so a program with small numbers may be misjudged: `solve_misjudges` has
one that is called unbounded and one that is called infeasible, both wrongly.

A program is `Clear` of the tolerance if each of these numbers that counts as zero is zero, in all
visited states. Then every decision is the one that is made without a tolerance, so both solves go
through the same states and give the same answer (`solve_eq_solve_exact`), and what is
known about exact answers holds for this one.
-/

namespace SimplexMethod

/-- The same choices without a tolerance. -/
def Settings.exact (settings : Settings ℚ) : Settings ℚ := ⟨settings.cap, 0⟩

theorem Direction.abs_sign (d : Direction) : |(d.sign : ℚ)| = 1 := by
  cases d with
  | maximize => exact abs_one
  | minimize => exact (abs_neg 1).trans abs_one

/-- A number that is zero if it counts as zero is compared with the tolerance as with zero. -/
theorem lt_magnitude_iff {tolerance x : ℚ} (htol : 0 ≤ tolerance)
    (hx : |x| ≤ tolerance → x = 0) : tolerance < magnitude x ↔ 0 < magnitude x := by
  rw [magnitude_eq_abs]
  refine ⟨htol.trans_lt, fun hpos => not_le.1 fun hle => ?_⟩
  rw [hx hle, abs_zero] at hpos
  exact lt_irrefl 0 hpos

/-! ### Decisions at a state -/

/-- Pricing is exact where no reduced cost is mistaken for zero. -/
theorem firstImproving_of_clear {reducedCosts : List ℚ} {sign tolerance : ℚ} (htol : 0 ≤ tolerance)
    (hsign : |sign| = 1)
    (h : ∀ j < reducedCosts.length,
      |reducedCosts.getD j 0| ≤ tolerance → reducedCosts.getD j 0 = 0) :
    firstImproving reducedCosts sign tolerance = firstImproving reducedCosts sign 0 := by
  unfold firstImproving
  rw [candidates_eq]
  split
  · next j least hleast =>
    obtain ⟨k, hk, heq⟩ := List.mem_map.1 (isFirstLeast_of_firstLeast hleast).mem
    cases heq
    refine if_congr ⟨fun hlt => ?_, fun hneg => ?_⟩ rfl rfl
    · linarith
    · rw [neg_zero] at hneg
      by_contra hge
      have hsmall : |reducedCosts.getD j 0| ≤ tolerance := by
        rw [← one_mul |reducedCosts.getD j 0|, ← hsign, ← abs_mul, abs_of_neg hneg]
        linarith
      rw [h j (List.mem_range.1 hk) hsmall, mul_zero] at hneg
      exact lt_irrefl 0 hneg
  · rfl

namespace State

variable {settings : Settings ℚ} {sign tolerance : ℚ} {s : State ℚ}

/-- The numbers that decide on the next exchange are zero if they count as zero. -/
structure Clear (s : State ℚ) (tolerance sign : ℚ) : Prop where
  reducedCost : ∀ j < s.objective.length, |s.reducedCost j| ≤ tolerance → s.reducedCost j = 0
  entry : ∀ col, s.price sign tolerance = some col → ¬s.tableau.Overlooks tolerance col

theorem Clear.price_eq (h : s.Clear tolerance sign) (htol : 0 ≤ tolerance) (hsign : |sign| = 1) :
    s.price sign tolerance = s.price sign 0 := by
  refine firstImproving_of_clear htol hsign fun j hj => ?_
  have hj' : j < s.objective.length := by simpa [reducedCosts] using hj
  rw [getD_reducedCosts hj']
  exact h.reducedCost j hj'

/-- **The verdict at a clear state** is the exact one. -/
theorem Clear.verdict_eq (h : s.Clear settings.tolerance sign) (htol : 0 ≤ settings.tolerance)
    (hsign : |sign| = 1) : s.verdict settings sign = s.verdict settings.exact sign := by
  have hprice : s.price sign settings.tolerance = s.price sign settings.exact.tolerance :=
    h.price_eq htol hsign
  unfold verdict
  rw [← hprice]
  split
  · rfl
  · next col hcol =>
    have hratio : s.tableau.ratioTest col settings.tolerance =
        s.tableau.ratioTest col settings.exact.tolerance :=
      Tableau.ratioTest_of_not_overlooks htol (h.entry col hcol)
    rw [hratio]
    rfl

/-- A round of the expulsion is exact where no entry of the row is mistaken for zero. -/
theorem expelAt_of_clear {first i : Nat} (htol : 0 ≤ tolerance)
    (h : ∀ j < first, |s.tableau.entry i j| ≤ tolerance → s.tableau.entry i j = 0) :
    s.expelAt first tolerance i = s.expelAt first 0 i := by
  have hreplacement : s.replacement first tolerance i = s.replacement first 0 i := by
    refine List.find?_congr fun j hj => ?_
    exact decide_eq_decide.2 (lt_magnitude_iff htol (h j (List.mem_range.1 hj)))
  unfold expelAt expulsion
  rw [hreplacement]

/-! ### Passes -/

/-- **A pass depends on the settings through its verdicts only.** -/
theorem improve_congr {settings' : Settings ℚ} {phase : Phase} {room : Nat}
    (h : ∀ t, Reaches settings sign s t → t.verdict settings sign = t.verdict settings' sign) :
    improve settings phase sign room s = improve settings' phase sign room s := by
  induction room using Nat.strongRecOn generalizing s with
  | ind room ih =>
      have hsame := h s .refl
      cases hverdict : s.verdict settings sign with
      | stop outcome =>
          rw [hverdict] at hsame
          rw [improve_of_stop hverdict, improve_of_stop hsame.symm]
      | exchange row col =>
          rw [hverdict] at hsame
          cases hnext : s.exchange row col with
          | error f =>
              rw [improve_of_fault hverdict hnext, improve_of_fault hsame.symm hnext]
          | ok next =>
              cases room with
              | zero =>
                  rw [improve_zero_of_exchange hverdict hnext,
                    improve_zero_of_exchange hsame.symm hnext]
              | succ left =>
                  rw [improve_of_exchange hverdict hnext, improve_of_exchange hsame.symm hnext,
                    ih left left.lt_succ_self fun t ht => h t (.head (.exchange hverdict hnext) ht)]

theorem pass_congr {settings' : Settings ℚ} {phase : Phase}
    (h : ∀ t, Reaches settings sign s t → t.verdict settings sign = t.verdict settings' sign) :
    s.pass settings phase sign = s.pass settings' phase sign := by
  unfold State.pass
  rw [improve_congr h]

end State

/-! ### Solving -/

namespace Program

variable {p : Program ℚ} {settings : Settings ℚ}

/-- The numbers that decide on what a solve does are zero if they count as zero, in all visited
states. -/
structure Clear (p : Program ℚ) (settings : Settings ℚ) : Prop where
  search : ∀ s, p.Visits settings .search s →
    s.Clear settings.tolerance (Direction.sign .minimize)
  sum : ∀ s, p.Visits settings .search s →
    s.verdict settings (Direction.sign .minimize) = .stop .optimal →
    |s.objectiveValue| ≤ settings.tolerance → s.objectiveValue = 0
  expulsion : ∀ s row left, p.Visits settings (.expulsion row (left + 1)) s →
    ∀ j < p.firstArtificial,
      |s.tableau.entry row j| ≤ settings.tolerance → s.tableau.entry row j = 0
  second : ∀ s, p.Visits settings .second s → s.Clear settings.tolerance p.direction.sign

namespace Clear

theorem expelArtificials_eq (h : p.Clear settings) (htol : 0 ≤ settings.tolerance) {row left : Nat}
    {s : State ℚ} (hs : p.Visits settings (.expulsion row left) s) :
    State.expelArtificials p.firstArtificial settings.tolerance left row s =
      State.expelArtificials p.firstArtificial 0 left row s := by
  induction left generalizing row s with
  | zero => rfl
  | succ left ih =>
      unfold State.expelArtificials
      rw [← State.expelAt_of_clear htol (h.expulsion s row left hs)]
      cases hround : s.expelAt p.firstArtificial settings.tolerance row with
      | error f => rfl
      | ok round => exact ih (hs.expulsionStep hround)

theorem feasibilityOf_eq (h : p.Clear settings) (htol : 0 ≤ settings.tolerance) {pass : Pass ℚ}
    (hvisits : p.Visits settings .search pass.state)
    (hverdict : pass.state.verdict settings (Direction.sign .minimize) = .stop pass.outcome) :
    (EqualityForm.ofProgram p).feasibilityOf settings pass =
      (EqualityForm.ofProgram p).feasibilityOf settings.exact pass := by
  unfold EqualityForm.feasibilityOf
  cases houtcome : pass.outcome with
  | unbounded => rfl
  | exhausted => rfl
  | optimal =>
      rw [houtcome] at hverdict
      have hsum : settings.tolerance < magnitude pass.state.objectiveValue ↔
          settings.exact.tolerance < magnitude pass.state.objectiveValue :=
        lt_magnitude_iff htol (h.sum _ hvisits hverdict)
      dsimp only
      by_cases hpositive : settings.tolerance < magnitude pass.state.objectiveValue
      · rw [if_pos hpositive, if_pos (hsum.1 hpositive)]
      · rw [if_neg hpositive, if_neg fun hexact => hpositive (hsum.2 hexact)]
        have hexpel := h.expelArtificials_eq htol (hvisits.expulsionStart hverdict hpositive)
        rw [show (EqualityForm.ofProgram p).firstArtificial = p.firstArtificial from rfl, hexpel]
        rfl

theorem searchFeasible_eq (h : p.Clear settings) (htol : 0 ≤ settings.tolerance)
    (hfit : p.mismatch = none) (hartificials : (EqualityForm.ofProgram p).hasArtificials = true) :
    (EqualityForm.ofProgram p).searchFeasible settings =
      (EqualityForm.ofProgram p).searchFeasible settings.exact := by
  unfold EqualityForm.searchFeasible
  cases hstart : State.ofTableau (EqualityForm.ofProgram p).artificialCosts
      (EqualityForm.ofProgram p).tableau (EqualityForm.ofProgram p).basis with
  | error f => rfl
  | ok start =>
      have hvisits : p.Visits settings .search start := .searchStart hfit hartificials hstart
      have hpass : start.pass settings .one (Direction.sign .minimize) =
          start.pass settings.exact .one (Direction.sign .minimize) :=
        State.pass_congr fun t ht =>
          (h.search t (hvisits.reaches_search ht)).verdict_eq htol (Direction.abs_sign _)
      simp only [bind, Except.bind]
      rw [← hpass]
      cases hrun : start.pass settings .one (Direction.sign .minimize) with
      | error f => rfl
      | ok pass =>
          obtain ⟨hreaches, hverdict⟩ := State.reaches_of_pass hrun
          simp only [h.feasibilityOf_eq htol (hvisits.reaches_search hreaches) hverdict]

theorem secondPhase_eq (h : p.Clear settings) (htol : 0 ≤ settings.tolerance)
    {tableau : Tableau ℚ} {basis : List Nat}
    (hvisits : ∀ s, State.ofTableau p.extendedCosts tableau basis = .ok s →
      p.Visits settings .second s) (earlier : Nat) :
    p.secondPhase settings tableau basis earlier =
      p.secondPhase settings.exact tableau basis earlier := by
  unfold secondPhase
  cases hstart : State.ofTableau p.extendedCosts tableau basis with
  | error f => rfl
  | ok start =>
      have hbegins := hvisits start hstart
      have hpass : start.pass settings .two p.direction.sign =
          start.pass settings.exact .two p.direction.sign :=
        State.pass_congr fun t ht =>
          (h.second t (hbegins.reaches_second ht)).verdict_eq htol (Direction.abs_sign _)
      simp only [bind, Except.bind, hpass]

theorem solveFitting_eq (h : p.Clear settings) (htol : 0 ≤ settings.tolerance)
    (hfit : p.mismatch = none) : p.solveFitting settings = p.solveFitting settings.exact := by
  unfold solveFitting
  by_cases hartificials : (EqualityForm.ofProgram p).hasArtificials = true
  · rw [if_pos hartificials, if_pos hartificials,
      ← h.searchFeasible_eq htol hfit hartificials]
    cases hsearch : (EqualityForm.ofProgram p).searchFeasible settings with
    | error f => rfl
    | ok search =>
        obtain ⟨hfinds, -⟩ := finds_of_searchFeasible hfit hartificials hsearch
        obtain ⟨result, events⟩ := search
        cases hfinds with
        | @feasible s row iterations hvisits =>
            simp only [bind, Except.bind]
            rw [h.secondPhase_eq htol (fun _ => hvisits.handover)]
        | infeasible _ _ _ => rfl
        | unlimited _ _ => rfl
        | exhausted _ _ => rfl
  · rw [if_neg hartificials, if_neg hartificials]
    have hnone := Bool.eq_false_iff.2 hartificials
    simp only [h.secondPhase_eq htol (fun _ => .directStart hfit hnone)]

/-- **A solve of a clear program is exact.** -/
theorem solve_eq_solve_exact (h : p.Clear settings) (htol : 0 ≤ settings.tolerance) :
    p.solve settings = p.solve settings.exact := by
  unfold solve
  cases hfit : p.mismatch with
  | some e => rfl
  | none => simp only [h.solveFitting_eq htol hfit]

end Clear

/-- A program is clear of the tolerance if all entries, reduced costs and sums of artificial
variables are, in each of the visited states, which can be listed. -/
theorem clear_of_trail {n : Nat} (hlength : (p.trail settings n).length < n)
    (hcosts : ∀ x ∈ p.trail settings n, ∀ j < x.2.objective.length,
      |x.2.reducedCost j| ≤ settings.tolerance → x.2.reducedCost j = 0)
    (hentries : ∀ x ∈ p.trail settings n, ∀ i < x.2.tableau.rows, ∀ j < x.2.objective.length,
      |x.2.tableau.entry i j| ≤ settings.tolerance → x.2.tableau.entry i j = 0)
    (hsums : ∀ x ∈ p.trail settings n, x.1 = .search →
      |x.2.objectiveValue| ≤ settings.tolerance → x.2.objectiveValue = 0)
    (htol : 0 ≤ settings.tolerance) : p.Clear settings := by
  have hclear : ∀ stage s sign, p.Visits settings stage s → s.Clear settings.tolerance sign := by
    intro stage s sign hs
    have hmem := (visits_iff_mem_trail hlength).1 hs
    refine ⟨hcosts _ hmem, fun col hprice hoverlooks => ?_⟩
    obtain ⟨i, hi, hpos, hle⟩ := hoverlooks
    have hzero := hentries _ hmem i hi col (State.price_eq_some hprice).1
      (by rwa [abs_of_pos hpos])
    exact hpos.ne' hzero
  refine ⟨fun s hs => hclear _ s _ hs, fun s hs _ => ?_, fun s row left hs j hj => ?_,
    fun s hs => hclear _ s _ hs⟩
  · exact hsums (.search, s) ((visits_iff_mem_trail hlength).1 hs) rfl
  · obtain ⟨hemptied, hrows⟩ := tracks_of_visits htol hs
    have hrow : row < s.tableau.rows := by omega
    exact hentries _ ((visits_iff_mem_trail hlength).1 hs) row hrow j
      (hj.trans_le hemptied.first_le)

/-- **Verdicts under a tolerance.** Where the program is clear of the tolerance, an answer is the
one that is found without it: a program answered as infeasible has no feasible point, and one
answered as unbounded has feasible points beyond every bound. -/
theorem solve_verdicts (direction : Direction) (objective : List ℚ) (requests : List (Request ℚ))
    {settings : Settings ℚ} (htol : 0 ≤ settings.tolerance)
    (hclear : (build direction objective requests).Clear settings) :
    let p := build direction objective requests
    let given := requests.flatMap Request.given
    p.solve settings = p.solve settings.exact ∧
      ∀ run, p.solve settings = .ok run →
        (run.solution.status = .infeasible → ¬∃ x, FeasiblePoint objective.length given x) ∧
        (run.solution.status = .unbounded → ∀ bound, ∃ x, FeasiblePoint objective.length given x ∧
          direction.Better (dot objective x) bound) := by
  intro p given
  have hexact := hclear.solve_eq_solve_exact htol
  refine ⟨hexact, fun run hrun => ?_⟩
  rw [hexact] at hrun
  have hsolution : (p.solve ⟨settings.cap, 0⟩).map (·.solution) = .ok run.solution := by
    rw [show p.solve ⟨settings.cap, 0⟩ = .ok run from hrun]
    rfl
  obtain ⟨hfit, hanswered⟩ := answered_of_solve rhs_nonneg_of_build hsolution
  constructor
  · intro hstatus
    have hnone := (hanswered.infeasible_iff hfit (by rw [hstatus]; decide)).1 hstatus
    rintro ⟨x, hx⟩
    exact hnone ⟨x, feasiblePoint_build.2 hx⟩
  · intro hstatus bound
    obtain ⟨x, hx, hbetter⟩ :=
      (hanswered.unbounded_iff hfit (by rw [hstatus]; decide)).1 hstatus bound
    rw [direction_build, objective_build] at hbetter
    exact ⟨x, feasiblePoint_build.1 hx, hbetter⟩

/-- Two constraints that contradict each other, under the default tolerance. -/
theorem solve_verdicts_contradiction :
    let requests : List (Request ℚ) := [.add [1, 1] ">=" 4, .add [1, 1] "<=" 3]
    let p := build .maximize [1, 1] requests
    let settings : Settings ℚ := .standard
    0 ≤ settings.tolerance ∧ p.Clear settings ∧
      (p.solve settings).map (·.solution.status) = .ok .infeasible ∧
      ¬∃ x, FeasiblePoint 2 (requests.flatMap Request.given) x := by
  intro requests p settings
  have htol : 0 ≤ settings.tolerance := by decide +kernel
  have hclear : p.Clear settings := clear_of_trail (n := 5) (by decide +kernel)
    (by decide +kernel) (by decide +kernel) (by decide +kernel) htol
  have hsolve : (p.solve settings).map (·.solution.status) = .ok .infeasible := by
    decide +kernel
  refine ⟨htol, hclear, hsolve, ?_⟩
  cases hrun : p.solve settings with
  | error e => rw [hrun] at hsolve; cases hsolve
  | ok run =>
      rw [hrun] at hsolve
      obtain ⟨-, hverdicts⟩ := solve_verdicts .maximize [1, 1] requests htol hclear
      exact (hverdicts run hrun).1 (Except.ok.inj hsolve)

/-- **Small coefficients are misjudged.** The same constraint row, once as an upper and once as a
lower bound, with a coefficient that counts as zero under the default tolerance: the first program
is called unbounded although no feasible point is better than `2 ^ 31`, and the second one
infeasible although `2 ^ 31` is a feasible point. -/
theorem solve_misjudges :
    let above : List (Request ℚ) := [.add [1 / 2147483648] "<=" 1]
    let below : List (Request ℚ) := [.add [1 / 2147483648] ">=" 1]
    let settings : Settings ℚ := .standard
    ((build .maximize [1] above).solve settings).map (·.solution.status) = .ok .unbounded ∧
      (∀ x, FeasiblePoint 1 (above.flatMap Request.given) x → dot [1] x ≤ 2147483648) ∧
      ((build .minimize [1] below).solve settings).map (·.solution.status) = .ok .infeasible ∧
      FeasiblePoint 1 (below.flatMap Request.given) [2147483648] := by
  intro above below settings
  refine ⟨by decide +kernel, fun x hx => ?_, by decide +kernel, by decide +kernel⟩
  obtain ⟨a, rfl⟩ := List.length_eq_one_iff.1 hx.length
  have hholds := hx.holds ⟨[1 / 2147483648], .atMost, 1⟩ (by decide +kernel)
  have hrow : 1 / 2147483648 * a ≤ 1 := by
    simpa [Constraint.Holds, Relation.Holds, dot] using hholds
  simp only [dot, List.zipWith_cons_cons, List.zipWith_nil_left, List.sum_singleton, one_mul]
  linarith

end Program

end SimplexMethod
