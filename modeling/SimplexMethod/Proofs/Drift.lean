import SimplexMethod.Proofs.CanonicalStates
import SimplexMethod.Proofs.Trail

/-!
# SimplexMethod.Proofs.Drift

**Right-hand sides under a tolerance.** The ratio test passes over a row whose entry in the entering
column is positive but counts as zero. Such a row falls along with the step, by up to the tolerance
for each unit (`Tableau.rhs_eliminate_ge`), and steps can be of any length: what is
small is the entry, not the right-hand side. `solve_drifts` is a program at which the default
tolerance makes a slack as small as `-3`.

So the tolerance itself is no bound. What does keep right-hand sides from becoming negative, for any
tolerance, is that nothing is passed over in this way (`Program.Sharp`): no exchange overlooks a
positive entry, and a sum of artificial variables that counts as zero is zero.
Expelling artificial variables needs no such condition, since a row at zero can be exchanged at any
entry (`State.Level`).
-/

namespace SimplexMethod

/-! ### Overlooked entries -/

namespace Tableau

variable {t : Tableau ℚ} {col : Nat} {tolerance : ℚ}

/-- The entry of some row in the column is positive and counts as zero. -/
def Overlooks (t : Tableau ℚ) (tolerance : ℚ) (col : Nat) : Prop :=
  ∃ i < t.rows, 0 < t.entry i col ∧ t.entry i col ≤ tolerance

instance : Decidable (t.Overlooks tolerance col) :=
  inferInstanceAs (Decidable (∃ i < t.rows, 0 < t.entry i col ∧ t.entry i col ≤ tolerance))

/-- **Where nothing is overlooked, the ratio test is exact.** -/
theorem ratioTest_of_not_overlooks (htol : 0 ≤ tolerance) (h : ¬t.Overlooks tolerance col) :
    t.ratioTest col tolerance = t.ratioTest col 0 := by
  have hratio : ∀ i ∈ List.range t.rows, t.ratio col tolerance i = t.ratio col 0 i := by
    intro i hi
    have hclear : tolerance < t.entry i col ↔ 0 < t.entry i col :=
      ⟨htol.trans_lt, fun hpos => not_le.1 fun hle => h ⟨i, List.mem_range.1 hi, hpos, hle⟩⟩
    simp only [ratio, hclear]
  unfold ratioTest
  rw [List.filterMap_congr fun i hi => by rw [hratio i hi]]

end Tableau

/-! ### Exchanges of a pass -/

namespace State

variable {settings : Settings ℚ} {sign : ℚ} {s t : State ℚ} {row col : Nat}

/-- An exchange takes a right-hand side below zero by at most the tolerance for each unit of the
step. -/
theorem Canonical.rhs_ge_of_exchange (hs : s.Canonical) (htol : 0 ≤ settings.tolerance)
    (hrhs : ∀ i < s.tableau.rows, 0 ≤ s.rhs i)
    (hverdict : s.verdict settings sign = .exchange row col) (ht : s.exchange row col = .ok t) :
    ∀ i < t.tableau.rows,
      -(settings.tolerance * (s.rhs row / s.tableau.entry row col)) ≤ t.rhs i := by
  obtain ⟨hrow, hcol, hpivot⟩ := of_verdict_exchange htol hverdict
  obtain ⟨-, -, hratio⟩ := verdict_eq_exchange hverdict
  obtain ⟨hexchanged, -⟩ := hs.of_exchange hrow hcol hpivot ht
  intro i hi
  rw [hexchanged.rows] at hi
  show _ ≤ t.tableau.rhs i
  rw [hexchanged.tableau]
  exact Tableau.rhs_eliminate_ge htol hrhs hratio i hi

/-- **A step that overlooks nothing keeps right-hand sides from becoming negative.** -/
theorem Canonical.rhs_nonneg_of_step (hs : s.Canonical) (htol : 0 ≤ settings.tolerance)
    (hrhs : ∀ i < s.tableau.rows, 0 ≤ s.rhs i)
    (hsharp : ∀ row col, s.verdict settings sign = .exchange row col →
      ¬s.tableau.Overlooks settings.tolerance col)
    (hstep : Step settings sign s t) : ∀ i < t.tableau.rows, 0 ≤ t.rhs i := by
  cases hstep with
  | @exchange next row col hverdict hnext =>
      obtain ⟨hprice, -, hratio⟩ := verdict_eq_exchange hverdict
      rw [Tableau.ratioTest_of_not_overlooks htol (hsharp row col hverdict)] at hratio
      have hnonneg := hs.rhs_nonneg_of_exchange hrhs (price_eq_some hprice).1 hratio hnext
      exact hnonneg

/-- A state has the right-hand sides of the table that it is made from. -/
theorem rhs_nonneg_of_ofTableau {objective : List ℚ} {tableau : Tableau ℚ} {basis : List Nat}
    (hbasis : tableau.IsBasis basis) (hrhs : ∀ i < tableau.rows, 0 ≤ tableau.rhs i)
    (h : ofTableau objective tableau basis = .ok s) : ∀ i < s.tableau.rows, 0 ≤ s.rhs i := by
  obtain ⟨-, htableau, -, -⟩ := of_ofTableau hbasis h
  show ∀ i < s.tableau.rows, 0 ≤ s.tableau.rhs i
  rw [htableau]
  exact hrhs

end State

/-! ### Visited states -/

namespace Program

variable {p : Program ℚ} {settings : Settings ℚ} {stage : Stage} {s : State ℚ}

/-- Nothing that counts as zero and is not zero has a say in which exchanges a solve makes. -/
structure Sharp (p : Program ℚ) (settings : Settings ℚ) : Prop where
  search : ∀ s row col, p.Visits settings .search s →
    s.verdict settings (Direction.sign .minimize) = .exchange row col →
    ¬s.tableau.Overlooks settings.tolerance col
  sum : ∀ s, p.Visits settings .search s →
    s.verdict settings (Direction.sign .minimize) = .stop .optimal →
    |s.objectiveValue| ≤ settings.tolerance → s.objectiveValue = 0
  second : ∀ s row col, p.Visits settings .second s →
    s.verdict settings p.direction.sign = .exchange row col →
    ¬s.tableau.Overlooks settings.tolerance col

/-- What is true of the right-hand sides in a stage. -/
def Keeps (p : Program ℚ) : Stage → State ℚ → Prop
  | .expulsion _ _, s => s.Level p.firstArtificial
  | _, s => ∀ i < s.tableau.rows, 0 ≤ s.rhs i

theorem Keeps.rhs_nonneg (h : p.Keeps stage s) : ∀ i < s.tableau.rows, 0 ≤ s.rhs i := by
  cases stage with
  | search => exact h
  | expulsion row left => exact State.Level.nonneg h
  | second => exact h

/-- **No right-hand side becomes negative where the tolerance hides nothing.** -/
theorem Sharp.keeps (hsharp : p.Sharp settings) (htol : 0 ≤ settings.tolerance)
    (hrhs : ∀ c ∈ p.constraints, 0 ≤ c.rhs) (h : p.Visits settings stage s) :
    p.Keeps stage s := by
  induction h with
  | searchStart _ _ hstart =>
      exact State.rhs_nonneg_of_ofTableau (EqualityForm.isBasis_ofProgram p)
        (EqualityForm.rhs_ofProgram_nonneg hrhs) hstart
  | searchStep hs hstep ih =>
      exact (tracks_of_visits htol hs).canonical.rhs_nonneg_of_step htol ih
        (fun row col => hsharp.search _ row col hs) hstep
  | expulsionStart hs hverdict hsum ih =>
      rw [magnitude_eq_abs] at hsum
      have hzero := hsharp.sum _ hs hverdict (not_lt.1 hsum)
      obtain ⟨-, hobjective⟩ := tracks_of_visits htol hs
      exact ⟨ih, fun k hk hbasic =>
        State.rhs_eq_zero_of_objectiveValue hobjective ih hzero hk hbasic⟩
  | expulsionStep hs hround ih =>
      obtain ⟨hemptied, hrows⟩ := tracks_of_visits htol hs
      exact State.Level.expelAt ih hemptied.canonical htol (by omega) hemptied.first_le hround
  | @handover s _ _ hs hstart ih =>
      refine State.rhs_nonneg_of_ofTableau (isBasis_handedOver (tracks_of_visits htol hs))
        (fun i hi => ?_) hstart
      rw [show (p.handedOver s).rhs i = s.rhs i from Tableau.rhs_dropColumns _ hi]
      exact State.Level.nonneg ih i hi
  | directStart _ _ hstart =>
      exact State.rhs_nonneg_of_ofTableau (EqualityForm.isBasis_ofProgram p)
        (EqualityForm.rhs_ofProgram_nonneg hrhs) hstart
  | secondStep hs hstep ih =>
      exact (tracks_of_visits htol hs).canonical.rhs_nonneg_of_step htol ih
        (fun row col => hsharp.second _ row col hs) hstep

/-- The tolerance hides nothing if it hides nothing in any of the visited states, which can be
listed. -/
theorem sharp_of_trail (htol : 0 ≤ settings.tolerance) {n : Nat}
    (hlength : (p.trail settings n).length < n)
    (hentries : ∀ x ∈ p.trail settings n, ∀ col < x.2.objective.length,
      ¬x.2.tableau.Overlooks settings.tolerance col)
    (hsums : ∀ x ∈ p.trail settings n, x.1 = .search →
      |x.2.objectiveValue| ≤ settings.tolerance → x.2.objectiveValue = 0) :
    p.Sharp settings where
  search := fun s _ col hs hverdict =>
    hentries (.search, s) ((visits_iff_mem_trail hlength).1 hs) col
      (State.of_verdict_exchange htol hverdict).2.1
  sum := fun s hs _ => hsums (.search, s) ((visits_iff_mem_trail hlength).1 hs) rfl
  second := fun s _ col hs hverdict =>
    hentries (.second, s) ((visits_iff_mem_trail hlength).1 hs) col
      (State.of_verdict_exchange htol hverdict).2.1

/-! ### Answers -/

/-- The values of an answer are right-hand sides of a visited state, or zero. -/
theorem Concludes.values_nonneg {solution : Solution ℚ} (h : p.Concludes settings solution)
    (htol : 0 ≤ settings.tolerance)
    (hrhs : ∀ s, p.Visits settings .second s → ∀ i < s.tableau.rows, 0 ≤ s.rhs i) :
    ∀ v ∈ solution.values, 0 ≤ v := by
  cases h with
  | infeasible _ _ _ => nofun
  | unlimited _ _ => nofun
  | unsearched _ _ => nofun
  | @second pass iterations hvisits _ =>
      have hvalue : ∀ j, 0 ≤ pass.state.value j :=
        (tracks_of_visits htol hvisits).canonical.value_nonneg (hrhs _ hvisits)
      intro v hv
      unfold solutionOf at hv
      split at hv
      · obtain ⟨j, -, rfl⟩ := List.mem_map.1 hv
        exact hvalue j
      · cases hv
      · obtain ⟨j, -, rfl⟩ := List.mem_map.1 hv
        exact hvalue j

/-- **Right-hand sides under a tolerance.** An exchange takes a right-hand side below zero by at
most the tolerance for each unit of the step. Where the tolerance hides nothing, no right-hand side
is negative in any state that a solve meets, and neither is a value of its answer. -/
theorem rhs_of_visits (direction : Direction) (objective : List ℚ) (requests : List (Request ℚ))
    {settings : Settings ℚ} (htol : 0 ≤ settings.tolerance) :
    let p := build direction objective requests
    (∀ stage s sign row col t, p.Visits settings stage s →
      (∀ i < s.tableau.rows, 0 ≤ s.rhs i) → s.verdict settings sign = .exchange row col →
      s.exchange row col = .ok t → ∀ i < t.tableau.rows,
        -(settings.tolerance * (s.rhs row / s.tableau.entry row col)) ≤ t.rhs i) ∧
    (p.Sharp settings →
      (∀ stage s, p.Visits settings stage s → ∀ i < s.tableau.rows, 0 ≤ s.rhs i) ∧
      ∀ run, p.solve settings = .ok run →
        (∀ phase row col s, .exchange phase col row s ∈ run.events →
          ∀ i < s.tableau.rows, 0 ≤ s.rhs i) ∧
        ∀ v ∈ run.solution.values, 0 ≤ v) := by
  intro p
  refine ⟨fun stage s sign row col t hs hrhs hverdict ht => ?_, fun hsharp => ?_⟩
  · exact (tracks_of_visits htol hs).canonical.rhs_ge_of_exchange htol hrhs hverdict ht
  · have hnonneg : ∀ stage s, p.Visits settings stage s → ∀ i < s.tableau.rows, 0 ≤ s.rhs i :=
      fun stage s hs => (hsharp.keeps htol rhs_nonneg_of_build hs).rhs_nonneg
    refine ⟨hnonneg, fun run hrun => ?_⟩
    obtain ⟨hconcludes, htells⟩ := concludes_of_solve hrun
    exact ⟨fun phase row col s hs => hnonneg _ s (htells _ hs),
      hconcludes.values_nonneg htol (hnonneg .second)⟩

/-- The search expels the artificial variable of the lower bound, and the second phase makes one
exchange. All entries are far from the tolerance. -/
theorem rhs_of_visits_standard :
    let p : Program ℚ := build .maximize [2] [.add [1] ">=" 1, .add [1] "<=" 3]
    let settings : Settings ℚ := .standard
    0 ≤ settings.tolerance ∧ p.Sharp settings ∧
      ((p.solve settings).map (·.solution.values)) = .ok [3, 2, 0] ∧
      ∀ stage s, p.Visits settings stage s → ∀ i < s.tableau.rows, 0 ≤ s.rhs i := by
  intro p settings
  have htol : 0 ≤ settings.tolerance := by decide +kernel
  have hsharp : p.Sharp settings := sharp_of_trail (n := 10) htol (by decide +kernel)
    (by decide +kernel) (by decide +kernel)
  obtain ⟨-, hrhs⟩ := rhs_of_visits .maximize [2] [.add [1] ">=" 1, .add [1] "<=" 3] htol
  exact ⟨htol, hsharp, by decide +kernel, (hrhs hsharp).1⟩

/-- **The tolerance is no bound.** The entry of the first row counts as zero, so the variable is
raised to `2 ^ 33` although the first constraint stops it at `2 ^ 31`. The slack there ends up at
`-3`, in the state after the only exchange and in an answer that is called optimal. -/
theorem solve_drifts :
    let p : Program ℚ :=
      build .maximize [1] [.add [1 / 2147483648] "<=" 1, .add [1] "<=" 8589934592]
    let settings : Settings ℚ := .standard
    let s : State ℚ := ⟨[1, 0, 0],
      ⟨2, 4, #[0, 1, -1 / 2147483648, -3, 1, 0, 1, 8589934592], rfl⟩,
      [1, 0], 1, rfl, rfl, by decide⟩
    settings.tolerance = 1 / 1000000000 ∧
      (p.solve settings).map (fun run =>
        (run.solution.status, run.solution.values,
          decide (.exchange .two 0 1 s ∈ run.events))) =
        .ok (.optimal, [8589934592, -3, 0], true) ∧
      s.rhs 0 < -settings.tolerance := by
  intro p settings s
  decide +kernel

end Program

end SimplexMethod
