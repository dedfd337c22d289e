import Mathlib.Algebra.Order.Field.Basic
import SimplexMethod.Proofs.Cycling
import SimplexMethod.Proofs.SearchBound

/-!
# SimplexMethod.Proofs.ObjectiveValue

**The objective value along a pass.** No state stores its objective value; each computes it afresh
from its basis. `State.Gain` says how the values before and after an exchange are related all the
same: they differ by the reduced cost of the entering column for each unit of the step, which is
never a step for the worse, and a step for the better exactly if the leaving row is not at zero.

The events of a pass tell about the states of one run, exchange by exchange (`State.toldEvents`), so
this is also what a listener sees from one event to the next.

In the search for a feasible basis the objective value has a meaning of its own: it is the sum of
the artificial variables (`Program.artificialSum`), hence never below zero.
-/

namespace SimplexMethod

namespace State

/-! ### What the events of a pass tell about -/

section Told

variable {K : Type} [Zero K] [One K] [Neg K] [Add K] [Sub K] [Mul K] [Div K] [LT K] [DecidableLT K]
  [LE K] [DecidableLE K] [BEq K] [Selectable K] {settings : Settings K} {phase : Phase} {sign : K}
  {s : State K} {pass : Pass K}

/-- The events of `n` exchanges that go through the states `f 0` to `f n`, each made at a cell given
by its row and its column. -/
def toldEvents (phase : Phase) (n : Nat) (cell : Nat → Nat × Nat) (f : Nat → State K) :
    List (Event K) :=
  (List.range n).map fun k => .exchange phase (cell k).2 (cell k).1 (f (k + 1))

omit [Zero K] [One K] [Neg K] [Add K] [Sub K] [Mul K] [Div K] [LT K] [DecidableLT K]
  [LE K] [DecidableLE K] [BEq K] [Selectable K] in
/-- The event of the first exchange comes first. -/
theorem toldEvents_succ (phase : Phase) (n : Nat) (cell : Nat → Nat × Nat) (f : Nat → State K) :
    toldEvents phase (n + 1) cell f =
      .exchange phase (cell 0).2 (cell 0).1 (f 1) ::
        toldEvents phase n (fun k => cell (k + 1)) fun k => f (k + 1) := by
  rw [toldEvents, List.range_succ_eq_map, List.map_cons, List.map_map]
  rfl

/-- **The loop tells about a run, exchange by exchange.** -/
theorem Improves.exists_told {room : Nat} (h : Improves settings phase sign room s pass) :
    ∃ n f cell, IsRun settings sign s n f ∧ f n = pass.state ∧
      (∀ k < n, (f k).verdict settings sign = .exchange (cell k).1 (cell k).2) ∧
      pass.events = toldEvents phase n cell f := by
  induction h with
  | @stop room s outcome _ =>
      exact ⟨0, _, fun _ => (0, 0), .refl settings sign s, rfl, fun k hk => absurd hk k.not_lt_zero,
        rfl⟩
  | @exchange room s next row col rest hverdict hnext _ ih =>
      obtain ⟨n, f, cell, hrun, hlast, hverdicts, hevents⟩ := ih
      refine ⟨n + 1, _, fun k => k.casesOn (row, col) cell, hrun.cons (.exchange hverdict hnext),
        hlast, fun k hk => ?_, ?_⟩
      · cases k with
        | zero => exact hverdict
        | succ k => exact hverdicts k (Nat.lt_of_succ_lt_succ hk)
      · rw [toldEvents_succ]
        show _ :: rest.events = _
        rw [hevents, ← hrun.start]
        rfl

/-- The events of a whole pass. -/
theorem exists_told_of_pass (h : s.pass settings phase sign = .ok pass) :
    ∃ n f cell, IsRun settings sign s n f ∧
      (∀ k < n, (f k).verdict settings sign = .exchange (cell k).1 (cell k).2) ∧
      pass.events = .phaseStart phase s :: toldEvents phase n cell f ++
        [.phaseEnd phase pass.outcome (f n).objectiveValue] := by
  obtain ⟨run, hrun, rfl⟩ := pass_eq_ok.1 h
  obtain ⟨n, f, cell, hisRun, hlast, hverdicts, hevents⟩ := (improves_of_improve hrun).exists_told
  refine ⟨n, f, cell, hisRun, hverdicts, ?_⟩
  rw [hlast, ← hevents]

end Told

/-! ### What an exchange does to the objective value -/

variable {cap : Option Nat} {sign : ℚ} {s t : State ℚ}

/-- The exchange at row `row` and column `col` leads from `s` to `t`, and to a better objective
value unless the row is at zero. -/
structure Gain (settings : Settings ℚ) (sign : ℚ) (s t : State ℚ) (row col : Nat) : Prop where
  verdict : s.verdict settings sign = .exchange row col
  value : t.objectiveValue =
    s.objectiveValue + -s.reducedCost col * (s.rhs row / s.tableau.entry row col)
  le : sign * s.objectiveValue ≤ sign * t.objectiveValue
  lt_iff : sign * s.objectiveValue < sign * t.objectiveValue ↔ 0 < s.rhs row

/-- **Every step gains**, in the exact method from a state without negative right-hand sides. -/
theorem Feasible.exists_gain_of_step (hs : s.Feasible) (hstep : Step ⟨cap, 0⟩ sign s t) :
    ∃ row col, Gain ⟨cap, 0⟩ sign s t row col := by
  obtain ⟨row, col, hverdict, -, hpositive, himproves, hvalue⟩ := hs.exists_gain hstep
  have hrate : 0 < -(sign * s.reducedCost col) := neg_pos.2 himproves
  have hgain : sign * t.objectiveValue - sign * s.objectiveValue =
      -(sign * s.reducedCost col) * (s.rhs row / s.tableau.entry row col) := by
    rw [hvalue]
    ring
  refine ⟨row, col, hverdict, ?_, hs.signed_objectiveValue_le_of_step hstep, ?_⟩
  · rw [hvalue]
    ring
  · rw [← sub_pos, hgain, mul_pos_iff_of_pos_left hrate, div_pos_iff_of_pos_right hpositive]

theorem Feasible.gain_of_isRun (hs : s.Feasible) {n : Nat} {f : Nat → State ℚ}
    (hrun : IsRun ⟨cap, 0⟩ sign s n f) {k : Nat} (hk : k < n) :
    ∃ row col, Gain ⟨cap, 0⟩ sign (f k) (f (k + 1)) row col :=
  (hrun.feasible hs hk.le).exists_gain_of_step (hrun.step k hk)

/-- The events of a pass tell about exchanges that gain. -/
theorem Feasible.gain_of_pass (hs : s.Feasible) {phase : Phase} {pass : Pass ℚ}
    (h : s.pass ⟨cap, 0⟩ phase sign = .ok pass) :
    ∃ n f cell, IsRun ⟨cap, 0⟩ sign s n f ∧
      (∀ k < n, Gain ⟨cap, 0⟩ sign (f k) (f (k + 1)) (cell k).1 (cell k).2) ∧
      pass.events = .phaseStart phase s :: toldEvents phase n cell f ++
        [.phaseEnd phase pass.outcome (f n).objectiveValue] := by
  obtain ⟨n, f, cell, hrun, hverdicts, hevents⟩ := exists_told_of_pass h
  refine ⟨n, f, cell, hrun, fun k hk => ?_, hevents⟩
  obtain ⟨row, col, hgain⟩ := hs.gain_of_isRun hrun hk
  -- a state has one verdict
  have hcell := hgain.verdict.symm.trans (hverdicts k hk)
  cases hcell
  exact hgain

end State

/-! ### The sum of the artificial variables -/

namespace Program

variable {p : Program ℚ} {s : State ℚ}

/-- The sum of the artificial variables at the basic solution of a state of the search. -/
def artificialSum (p : Program ℚ) (s : State ℚ) : ℚ :=
  ∑ k ∈ Finset.range p.artificialRows.length, s.value (p.firstArtificial + k)

/-- **The objective value of the search is the sum of the artificial variables.** -/
theorem objectiveValue_eq_artificialSum (hs : s.Canonical)
    (hobjective : s.objective = (EqualityForm.ofProgram p).artificialCosts) :
    s.objectiveValue = p.artificialSum s := by
  have hlength : s.objective.length = p.firstArtificial + p.artificialRows.length := by
    rw [hobjective, EqualityForm.length_artificialCosts, EqualityForm.cols_ofProgram,
      Nat.add_sub_cancel]
  have hcost : ∀ j < p.firstArtificial + p.artificialRows.length,
      s.objective.getD j 0 = if j < p.firstArtificial then 0 else 1 := fun j hj =>
    State.getD_objective_of_artificialCosts hobjective (hlength ▸ hj)
  have hprogram : ∑ j ∈ Finset.range p.firstArtificial, s.objective.getD j 0 * s.value j = 0 := by
    refine Finset.sum_eq_zero fun j hj => ?_
    have hj' := Finset.mem_range.1 hj
    rw [hcost j (by omega), if_pos hj', zero_mul]
  rw [← hs.cost_value, State.cost, hlength, Finset.sum_range_add, hprogram, zero_add, artificialSum]
  refine Finset.sum_congr rfl fun k hk => ?_
  have hk' := Finset.mem_range.1 hk
  rw [hcost _ (by omega), if_neg (by omega), one_mul]

/-- What is true of every state of the exact search. -/
theorem feasible_of_search {cap : Option Nat} (hrhs : ∀ c ∈ p.constraints, 0 ≤ c.rhs)
    (h : p.Visits ⟨cap, 0⟩ .search s) :
    s.Feasible ∧ 0 ≤ s.objectiveValue ∧ s.objectiveValue = p.artificialSum s := by
  obtain ⟨hcanonical, hobjective⟩ := tracks_of_visits le_rfl h
  have hnonneg := rhs_nonneg_of_search le_rfl hrhs (not_searchOverlooks_of_exact rfl) h
  exact ⟨⟨hcanonical, hnonneg⟩, State.objectiveValue_nonneg_of_artificialCosts hobjective hnonneg,
    objectiveValue_eq_artificialSum hcanonical hobjective⟩

/-- **The objective value never gets worse.** Take any state with a canonical basis and no
right-hand side below zero, and any run of a pass from it, in either direction. Each exchange
changes the objective value by minus the reduced cost of the entering column, times the leaving
right-hand side over the entry exchanged at. So the value never gets worse, and gets better exactly
if the leaving right-hand side is positive; and these are the values that the events of a pass tell
about, one after the other. In the search for a feasible basis the values told about are those of
such states, and each of them is the sum of the artificial variables and not negative. -/
theorem objectiveValue_monotone (direction : Direction) (objective : List ℚ)
    (requests : List (Request ℚ)) (cap : Option Nat) :
    let p := build direction objective requests
    let settings : Settings ℚ := ⟨cap, 0⟩
    (∀ (s : State ℚ) (sign : ℚ), s.Feasible →
      (∀ n f, State.IsRun settings sign s n f →
        ∀ k < n, ∃ row col, State.Gain settings sign (f k) (f (k + 1)) row col) ∧
      ∀ phase pass, s.pass settings phase sign = .ok pass →
        ∃ n f cell, State.IsRun settings sign s n f ∧
          (∀ k < n, State.Gain settings sign (f k) (f (k + 1)) (cell k).1 (cell k).2) ∧
          pass.events = .phaseStart phase s :: State.toldEvents phase n cell f ++
            [.phaseEnd phase pass.outcome (f n).objectiveValue]) ∧
    (∀ s, p.Visits settings .search s →
      s.Feasible ∧ 0 ≤ s.objectiveValue ∧ s.objectiveValue = p.artificialSum s) ∧
    ∀ run, p.solve settings = .ok run →
      (∀ e ∈ run.events, p.Tells settings e) ∧
      ∀ outcome value, .phaseEnd .one outcome value ∈ run.events →
        ∃ s, p.Visits settings .search s ∧ value = s.objectiveValue := by
  intro p settings
  refine ⟨fun s sign hs => ⟨fun n f hrun k hk => hs.gain_of_isRun hrun hk,
    fun phase pass => hs.gain_of_pass⟩, fun s => feasible_of_search rhs_nonneg_of_build,
    fun run hrun => ⟨(concludes_of_solve hrun).2, fun outcome value hmem => ?_⟩⟩
  rcases searchEnds_of_solve hrun with ⟨hsilent, -⟩ | ⟨pass, hends⟩
  · exact absurd hmem (hsilent outcome value)
  · exact ⟨pass.state, hends.visits, ((hends.told outcome value).1 hmem).2⟩

/-- A search with two exchanges. The first one takes the sum of the artificial variables from two to
zero, and the second one is made at a row at zero. -/
theorem objectiveValue_monotone_search :
    let p : Program ℚ := build .maximize [2, 1]
      [.add [1, 1] ">=" 1, .add [1, 2] "<=" 4, .add [1, -1] "=" 1]
    let settings : Settings ℚ := ⟨none, 0⟩
    let sign : ℚ := Direction.sign .minimize
    let s : State ℚ := ⟨[0, 0, 0, 0, 0, 1, 1],
      ⟨3, 8, #[1, 1, -1, 0, 0, 1, 0, 1, 1, 2, 0, 1, 0, 0, 0, 4, 1, -1, 0, 0, 0, 0, 1, 1], rfl⟩,
      [5, 3, 6], 0, rfl, rfl, by decide⟩
    (∃ run, p.solve settings = .ok run ∧ .phaseStart .one s ∈ run.events ∧
      .phaseEnd .one .optimal 0 ∈ run.events) ∧
    p.Visits settings .search s ∧ s.Feasible ∧ p.artificialSum s = 2 ∧
    (∃ pass f, ∃ cell : Nat → Nat × Nat, s.pass settings .one sign = .ok pass ∧
      State.IsRun settings sign s 2 f ∧
      (∀ k < 2, State.Gain settings sign (f k) (f (k + 1)) (cell k).1 (cell k).2) ∧
      ∀ k < 2, ∃ row col, State.Gain settings sign (f k) (f (k + 1)) row col) ∧
    ∃ t, p.Visits settings .search t ∧ p.artificialSum t = 0 := by
  intro p settings sign s
  obtain ⟨hruns, hvisits, htold⟩ := objectiveValue_monotone .maximize [2, 1]
    [.add [1, 1] ">=" 1, .add [1, 2] "<=" 4, .add [1, -1] "=" 1] none
  have hsolve : (p.solve settings).map (fun run => (decide (.phaseStart .one s ∈ run.events),
      decide (.phaseEnd .one .optimal 0 ∈ run.events))) = .ok (true, true) := by decide +kernel
  obtain ⟨run, hrun, hstart, hend⟩ : ∃ run, p.solve settings = .ok run ∧
      .phaseStart .one s ∈ run.events ∧ .phaseEnd .one .optimal 0 ∈ run.events := by
    cases hrun : p.solve settings with
    | error e => rw [hrun] at hsolve; cases hsolve
    | ok run =>
        rw [hrun] at hsolve
        obtain ⟨hstart, hend⟩ := Prod.mk.inj (Except.ok.inj hsolve)
        exact ⟨run, rfl, of_decide_eq_true hstart, of_decide_eq_true hend⟩
  have hs : p.Visits settings .search s := (htold run hrun).1 _ hstart
  obtain ⟨hfeasible, -, hsum⟩ := hvisits s hs
  have hvalue : s.objectiveValue = 2 := by decide +kernel
  obtain ⟨t, ht, hzero⟩ := (htold run hrun).2 _ _ hend
  obtain ⟨-, -, hsum'⟩ := hvisits t ht
  have hpass : (s.pass settings .one sign).map (·.events.length) = .ok 4 := by decide +kernel
  refine ⟨⟨run, hrun, hstart, hend⟩, hs, hfeasible, hsum.symm.trans hvalue, ?_,
    ⟨t, ht, hsum'.symm.trans hzero.symm⟩⟩
  cases hok : s.pass settings .one sign with
  | error e => rw [hok] at hpass; cases hpass
  | ok pass =>
      rw [hok] at hpass
      obtain ⟨hgains, htells⟩ := hruns s sign hfeasible
      obtain ⟨n, f, cell, hisRun, hgain, hevents⟩ := htells .one pass hok
      have hlength : pass.events.length = 4 := Except.ok.inj hpass
      obtain rfl : n = 2 := by
        rw [hevents] at hlength
        simpa [State.toldEvents] using hlength
      exact ⟨pass, f, cell, rfl, hisRun, hgain, hgains 2 f hisRun⟩

end Program

end SimplexMethod
