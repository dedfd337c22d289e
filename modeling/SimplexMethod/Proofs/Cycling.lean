import Mathlib.Data.Finset.Powerset
import SimplexMethod.Proofs.CanonicalStates
import SimplexMethod.Proofs.Caps

/-!
# SimplexMethod.Proofs.Cycling

**Without a cap, a pass that does not end has met a set of basic columns twice.** Three facts meet
here:

* the objective value never gets worse, and stays the same only where the leaving row has a
  right-hand side of zero (`signed_objectiveValue_le_of_step`, `degenerate_of_step`);
* the objective value depends on the set of basic columns and not on their order
  (`Canonical.objectiveValue_eq_of_subset`);
* of `c` columns only so many sets of `r` can be basic (`IsRun.exists_revisit`).

So between two visits of one set all exchanges are degenerate, and a pass without degenerate
exchanges ends before it has made as many as there are sets. All of it rests on one identity: the
objective value of a state in terms of the reduced costs of another (`objectiveValue_eq_sub_sum`).

`State.IsRun` is a pass under way, with or without an end. A pass that has no result, because its
counter is full, has made a run as well. There are such passes: a run that comes back to where it
began goes on for ever (`IsRun.verdict_ne_stop`), and `solve_never_ends` is a program at which the
standard settings bring this about.
-/

namespace SimplexMethod.State

/-! ### Runs -/

section Runs

variable {K : Type} [Zero K] [One K] [Neg K] [Add K] [Sub K] [Mul K] [Div K] [LT K] [DecidableLT K]
  [LE K] [DecidableLE K] [BEq K] [Selectable K] {settings settings' : Settings K} {phase : Phase}
  {sign : K} {s t : State K} {n : Nat} {f : Nat → State K}

/-- A pass from `s` makes `n` exchanges and goes through the states `f 0` to `f n`. It need not be
over then. -/
structure IsRun (settings : Settings K) (sign : K) (s : State K) (n : Nat) (f : Nat → State K) :
    Prop where
  start : f 0 = s
  step : ∀ k < n, Step settings sign (f k) (f (k + 1))

namespace IsRun

theorem refl (settings : Settings K) (sign : K) (s : State K) :
    IsRun settings sign s 0 fun _ => s :=
  ⟨rfl, fun k hk => absurd hk k.not_lt_zero⟩

/-- A run with one more exchange at its beginning. -/
theorem cons (hstep : Step settings sign s t) (h : IsRun settings sign t n f) :
    IsRun settings sign s (n + 1) fun k => k.casesOn s f where
  start := rfl
  step := by
    intro k hk
    cases k with
    | zero =>
        show Step settings sign s (f 0)
        rw [h.start]
        exact hstep
    | succ k => exact h.step k (by omega)

/-- A run without its first exchange. -/
theorem tail (h : IsRun settings sign s (n + 1) f) :
    IsRun settings sign (f 1) n fun k => f (k + 1) :=
  ⟨rfl, fun k hk => h.step (k + 1) (by omega)⟩

theorem reaches (h : IsRun settings sign s n f) {k : Nat} (hk : k ≤ n) :
    Reaches settings sign s (f k) := by
  induction k with
  | zero =>
      rw [h.start]
      exact .refl
  | succ k ih => exact (ih (by omega)).tail (h.step k hk)

/-- A run under a cap is a run under a longer one. -/
theorem of_relaxed (h : IsRun settings sign s n f) (hrelaxed : settings.Relaxed settings') :
    IsRun settings' sign s n f := by
  refine ⟨h.start, fun k hk => ?_⟩
  obtain ⟨row, col, next, hverdict, hnext, heq⟩ := (h.step k hk).exists_exchange
  have hgoes : (f k).verdict settings sign ≠ .stop .exhausted := by simp [hverdict]
  rw [heq]
  exact .exchange ((verdict_of_relaxed hrelaxed hgoes).trans hverdict) hnext

/-- A run that ends where the verdict is to stop is a finished pass, if the counter has room for
it. -/
theorem improve_eq_ok (h : IsRun settings sign s n f) {outcome : Outcome}
    (hverdict : (f n).verdict settings sign = .stop outcome) {room : Nat} (hroom : n ≤ room) :
    ∃ events, improve settings phase sign room s = .ok ⟨outcome, f n, events⟩ := by
  -- the first exchange is taken off the run, which leaves less room
  induction n generalizing s f room with
  | zero =>
      rw [h.start] at hverdict ⊢
      exact ⟨[], improve_of_stop hverdict⟩
  | succ n ih =>
      obtain ⟨left, rfl⟩ : ∃ left, room = left + 1 := ⟨room - 1, by omega⟩
      obtain ⟨events, hrest⟩ := ih h.tail hverdict (Nat.le_of_succ_le_succ hroom)
      obtain ⟨row, col, next, hfirst, hnext, heq⟩ := (h.step 0 n.succ_pos).exists_exchange
      rw [h.start] at hfirst hnext
      rw [heq] at hrest
      rw [improve_of_exchange hfirst hnext, hrest]
      exact ⟨_, rfl⟩

end IsRun

/-- A finished loop is a run. -/
theorem Improves.exists_isRun {room : Nat} {pass : Pass K}
    (h : Improves settings phase sign room s pass) :
    ∃ n f, IsRun settings sign s n f ∧ f n = pass.state ∧
      pass.state.iterations = s.iterations + n := by
  induction h with
  | stop _ => exact ⟨0, _, .refl settings sign _, rfl, rfl⟩
  | @exchange room s next row col rest hverdict hnext _ ih =>
      obtain ⟨n, f, hrun, hlast, hiterations⟩ := ih
      have hcount : next.count.iterations = s.iterations + 1 :=
        congrArg (· + 1) (exchange_eq_ok hnext).2.2
      refine ⟨n + 1, _, hrun.cons (.exchange hverdict hnext), hlast, ?_⟩
      rw [hiterations, hcount, Nat.add_assoc, Nat.add_comm 1]

/-- A finished pass is a run. -/
theorem exists_isRun_of_pass {pass : Pass K} (h : s.pass settings phase sign = .ok pass) :
    ∃ n f, IsRun settings sign s n f ∧ f n = pass.state ∧
      pass.state.iterations = s.iterations + n := by
  obtain ⟨run, hrun, -, hstate⟩ := improve_of_pass h
  rw [hstate]
  exact (improves_of_improve hrun).exists_isRun

/-- **The finished passes are the runs that end in a verdict to stop**, if the counter has room for
them. -/
theorem exists_pass_iff_isRun {outcome : Outcome} :
    (∃ events, s.pass settings phase sign = .ok ⟨outcome, t, events⟩) ↔
      ∃ n f, IsRun settings sign s n f ∧ f n = t ∧ n ≤ s.room ∧
        t.verdict settings sign = .stop outcome := by
  constructor
  · rintro ⟨events, hpass⟩
    obtain ⟨⟨outcome', t', events'⟩, hok, heq⟩ := pass_eq_ok.1 hpass
    cases heq
    obtain ⟨n, f, hrun, hlast, hcount⟩ := (improves_of_improve hok).exists_isRun
    obtain ⟨exchanges, htells⟩ := (improves_of_improve hok).exists_tells
    have hlength := hcount.symm.trans htells.iterations
    exact ⟨n, f, hrun, hlast, Nat.add_left_cancel hlength ▸ htells.room, (reaches_of_improve hok).2⟩
  · rintro ⟨n, f, hrun, rfl, hroom, hstop⟩
    obtain ⟨events, hok⟩ := hrun.improve_eq_ok hstop hroom
    exact ⟨_, pass_eq_ok.2 ⟨_, hok, rfl⟩⟩

end Runs

/-! ### Objective values along a pass -/

variable {settings : Settings ℚ} {cap : Option Nat} {sign : ℚ} {s t : State ℚ} {row col : Nat}

/-- **The objective value of a state, read off another state of the same problem.** -/
theorem Canonical.objectiveValue_eq_sub_sum (ht : t.Canonical) (hsame : SameProblem s t) :
    t.objectiveValue = s.objectiveValue -
      ∑ i ∈ Finset.range t.tableau.rows, s.reducedCost (t.basis.getD i 0) * t.rhs i := by
  have hcost := cost_eq ((hsame.solves _).1 ht.solves_value)
  rw [← hsame.cost, ht.cost_value, funext ht.value_eq, ← hsame.objective,
    sum_mul_basicAssignment] at hcost
  exact hcost

/-- **What an exchange adds to the objective value**: the reduced cost of the entering column, for
each unit of the step. -/
theorem Canonical.objectiveValue_exchange (hs : s.Canonical) (hrow : row < s.tableau.rows)
    (hcol : col < s.objective.length) (hpivot : s.tableau.entry row col ≠ 0)
    (ht : s.exchange row col = .ok t) :
    t.objectiveValue =
      s.objectiveValue - s.reducedCost col * (s.rhs row / s.tableau.entry row col) :=
  (hs.of_exchange hrow hcol hpivot ht).1.objectiveValue_eq hpivot

/-- **The basic columns determine the objective value**, in whatever order they are recorded. -/
theorem Canonical.objectiveValue_eq_of_subset (hs : s.Canonical) (ht : t.Canonical)
    (hsame : SameProblem s t) (hbasis : ∀ b ∈ t.basis, b ∈ s.basis) :
    t.objectiveValue = s.objectiveValue := by
  have hsum : ∑ i ∈ Finset.range t.tableau.rows,
      s.reducedCost (t.basis.getD i 0) * t.rhs i = 0 := by
    refine Finset.sum_eq_zero fun i hi => ?_
    have hi' : i < t.basis.length := ht.length ▸ Finset.mem_range.1 hi
    have hmem : t.basis.getD i 0 ∈ t.basis := by
      rw [List.getD_eq_getElem _ _ hi']
      exact List.getElem_mem hi'
    obtain ⟨k, hk, heq⟩ := hs.exists_of_mem (hbasis _ hmem)
    rw [← heq, hs.reducedCost_basic hk, zero_mul]
  rw [ht.objectiveValue_eq_sub_sum hsame, hsum, sub_zero]

/-- What a step does to the objective value. -/
theorem Feasible.exists_gain (hs : s.Feasible) (hstep : Step ⟨cap, 0⟩ sign s t) :
    ∃ row col, s.verdict ⟨cap, 0⟩ sign = .exchange row col ∧ 0 ≤ s.rhs row ∧
      0 < s.tableau.entry row col ∧ sign * s.reducedCost col < 0 ∧
      t.objectiveValue =
        s.objectiveValue - s.reducedCost col * (s.rhs row / s.tableau.entry row col) := by
  cases hstep with
  | @exchange next row col hverdict hnext =>
      obtain ⟨hprice, -, hratio⟩ := verdict_eq_exchange hverdict
      obtain ⟨hcol, himproves⟩ := price_eq_some hprice
      obtain ⟨hrow, hpositive, -, -⟩ := Tableau.ratioTest_eq_some hratio
      rw [neg_zero] at himproves
      have hvalue := hs.canonical.objectiveValue_exchange hrow hcol hpositive.ne' hnext
      exact ⟨row, col, hverdict, hs.rhs_nonneg row hrow, hpositive, himproves, hvalue⟩

/-- **A step never makes the objective value worse.** -/
theorem Feasible.signed_objectiveValue_le_of_step (hs : s.Feasible)
    (hstep : Step ⟨cap, 0⟩ sign s t) : sign * s.objectiveValue ≤ sign * t.objectiveValue := by
  obtain ⟨row, col, -, hrhs, hpositive, himproves, hvalue⟩ := hs.exists_gain hstep
  have hgain : sign * s.reducedCost col * (s.rhs row / s.tableau.entry row col) ≤ 0 :=
    mul_nonpos_of_nonpos_of_nonneg himproves.le (div_nonneg hrhs hpositive.le)
  rw [hvalue, mul_sub, ← mul_assoc]
  linarith

/-- **A step that makes the objective value no better is degenerate.** -/
theorem Feasible.degenerate_of_step (hs : s.Feasible) (hstep : Step ⟨cap, 0⟩ sign s t)
    (hle : sign * t.objectiveValue ≤ sign * s.objectiveValue) :
    ∃ row col, s.verdict ⟨cap, 0⟩ sign = .exchange row col ∧ s.rhs row = 0 ∧
      t.objectiveValue = s.objectiveValue := by
  obtain ⟨row, col, hverdict, hrhs, hpositive, himproves, hvalue⟩ := hs.exists_gain hstep
  have hzero : s.rhs row = 0 := by
    by_contra hne
    have hquotient : 0 < s.rhs row / s.tableau.entry row col :=
      div_pos (lt_of_le_of_ne hrhs (Ne.symm hne)) hpositive
    have hgain : sign * s.reducedCost col * (s.rhs row / s.tableau.entry row col) < 0 :=
      mul_neg_of_neg_of_pos himproves hquotient
    rw [hvalue, mul_sub, ← mul_assoc] at hle
    linarith
  refine ⟨row, col, hverdict, hzero, ?_⟩
  rw [hvalue, hzero, zero_div, mul_zero, sub_zero]

namespace IsRun

variable {n : Nat} {f : Nat → State ℚ}

theorem feasible (h : IsRun ⟨cap, 0⟩ sign s n f) (hs : s.Feasible) {k : Nat} (hk : k ≤ n) :
    (f k).Feasible :=
  hs.reaches (h.reaches hk)

/-- Along a run the objective value never gets worse. -/
theorem signed_objectiveValue_le (h : IsRun ⟨cap, 0⟩ sign s n f) (hs : s.Feasible) {i j : Nat}
    (hij : i ≤ j) (hj : j ≤ n) : sign * (f i).objectiveValue ≤ sign * (f j).objectiveValue := by
  induction j, hij using Nat.le_induction with
  | base => exact le_rfl
  | succ j _ ih =>
      have hstep := (h.feasible hs (by omega)).signed_objectiveValue_le_of_step (h.step j hj)
      exact (ih (by omega)).trans hstep

/-! ### Sets of basic columns -/

/-- All states of a run are states of one problem. -/
theorem sameProblem (h : IsRun settings sign s n f) (hs : s.Canonical)
    (htol : 0 ≤ settings.tolerance) {i j : Nat} (hi : i ≤ n) (hj : j ≤ n) :
    SameProblem (f i) (f j) := by
  obtain ⟨-, hsi⟩ := hs.reaches htol (h.reaches hi)
  obtain ⟨-, hsj⟩ := hs.reaches htol (h.reaches hj)
  exact ⟨hsj.objective.trans hsi.objective.symm, hsj.rows.trans hsi.rows.symm,
    fun v => (hsj.solves v).trans (hsi.solves v).symm⟩

/-- **Between two visits of a set of basic columns all exchanges are degenerate.** -/
theorem degenerate_of_revisit (h : IsRun ⟨cap, 0⟩ sign s n f) (hs : s.Feasible) {i j : Nat}
    (hj : j ≤ n) (hbasis : (f i).basis.toFinset = (f j).basis.toFinset) {k : Nat} (hik : i ≤ k)
    (hkj : k < j) :
    ∃ row col, (f k).verdict ⟨cap, 0⟩ sign = .exchange row col ∧ (f k).rhs row = 0 ∧
      (f (k + 1)).objectiveValue = (f k).objectiveValue := by
  have hends : (f j).objectiveValue = (f i).objectiveValue := by
    refine (h.feasible hs (by omega)).canonical.objectiveValue_eq_of_subset
      (h.feasible hs hj).canonical (h.sameProblem hs.canonical le_rfl (by omega) hj) fun b hb => ?_
    rwa [← List.mem_toFinset, hbasis, List.mem_toFinset]
  refine (h.feasible hs (by omega)).degenerate_of_step (h.step k (by omega)) ?_
  -- the value cannot rise in step `k` and be back at the end
  calc sign * (f (k + 1)).objectiveValue
      ≤ sign * (f j).objectiveValue := h.signed_objectiveValue_le hs hkj hj
    _ = sign * (f i).objectiveValue := by rw [hends]
    _ ≤ sign * (f k).objectiveValue := h.signed_objectiveValue_le hs hik (by omega)

end IsRun

/-- The basic columns of a canonical basis are a set of as many columns as there are rows. -/
theorem Canonical.toFinset_mem_powersetCard (hs : s.Canonical) :
    s.basis.toFinset ∈
      Finset.powersetCard s.tableau.rows (Finset.range (s.tableau.cols - 1)) := by
  refine Finset.mem_powersetCard.2 ⟨fun b hb => ?_, ?_⟩
  · exact Finset.mem_range.2 (hs.lt_of_mem (List.mem_toFinset.1 hb))
  · rw [List.toFinset_card_of_nodup hs.nodup, hs.length]

/-- **A long run visits some set of basic columns twice.** -/
theorem IsRun.exists_revisit {n : Nat} {f : Nat → State ℚ} (h : IsRun settings sign s n f)
    (hs : s.Canonical) (htol : 0 ≤ settings.tolerance)
    (hn : (s.tableau.cols - 1).choose s.tableau.rows ≤ n) :
    ∃ i j, i < j ∧ j ≤ n ∧ (f i).basis.toFinset = (f j).basis.toFinset := by
  have hmaps : ∀ k ∈ Finset.range (n + 1), (f k).basis.toFinset ∈
      Finset.powersetCard s.tableau.rows (Finset.range (s.tableau.cols - 1)) := by
    intro k hk
    have hk' : k ≤ n := Nat.lt_succ_iff.1 (Finset.mem_range.1 hk)
    obtain ⟨hcanonical, hsame⟩ := hs.reaches htol (h.reaches hk')
    have hcols : (f k).tableau.cols = s.tableau.cols := by
      rw [(f k).cols_tableau, s.cols_tableau, hsame.objective]
    rw [← hsame.rows, ← hcols]
    exact hcanonical.toFinset_mem_powersetCard
  have hcard : (Finset.powersetCard s.tableau.rows (Finset.range (s.tableau.cols - 1))).card <
      (Finset.range (n + 1)).card := by
    rw [Finset.card_powersetCard, Finset.card_range, Finset.card_range]
    omega
  obtain ⟨i, hi, j, hj, hne, heq⟩ := Finset.exists_ne_map_eq_of_card_lt_of_maps_to hcard hmaps
  rw [Finset.mem_range, Nat.lt_succ_iff] at hi hj
  rcases lt_or_gt_of_ne hne with hlt | hlt
  · exact ⟨i, j, hlt, hj, heq⟩
  · exact ⟨j, i, hlt, hi, heq.symm⟩

/-! ### How a pass goes on -/

/-- A pass from a canonical state either makes `n` exchanges or comes to a verdict to stop before
that. -/
theorem Canonical.exists_isRun (hs : s.Canonical) (htol : 0 ≤ settings.tolerance) (n : Nat) :
    (∃ f, IsRun settings sign s n f) ∨ ∃ m < n, ∃ f outcome, IsRun settings sign s m f ∧
      (f m).verdict settings sign = .stop outcome := by
  induction n generalizing s with
  | zero => exact Or.inl ⟨_, .refl settings sign s⟩
  | succ n ih =>
      cases hverdict : s.verdict settings sign with
      | stop outcome =>
          exact Or.inr ⟨0, n.succ_pos, _, outcome, .refl settings sign s, hverdict⟩
      | exchange row col =>
          obtain ⟨next, hnext⟩ := hs.exists_next htol hverdict
          have hstep : Step settings sign s next.count := .exchange hverdict hnext
          rcases ih (hs.step htol hstep).1 with ⟨f, hrun⟩ | ⟨m, hm, f, outcome, hrun, hstop⟩
          · exact Or.inl ⟨_, hrun.cons hstep⟩
          · exact Or.inr ⟨m + 1, Nat.succ_lt_succ hm, _, outcome, hrun.cons hstep, hstop⟩

/-- **A pass makes a run, with a result or without one.** -/
theorem Canonical.exists_isRun_of_any_pass (hs : s.Canonical) (htol : 0 ≤ settings.tolerance)
    (phase : Phase) (sign : ℚ) :
    (∃ pass n f, s.pass settings phase sign = .ok pass ∧ IsRun settings sign s n f ∧
      f n = pass.state ∧ pass.state.iterations = s.iterations + n) ∨
    s.pass settings phase sign = .error .counterOverflow ∧
      ∃ f, IsRun settings sign s (s.room + 1) f := by
  cases hpass : s.pass settings phase sign with
  | ok pass =>
      obtain ⟨n, f, hrun⟩ := exists_isRun_of_pass hpass
      exact Or.inl ⟨pass, n, f, rfl, hrun⟩
  | error fault =>
      refine Or.inr ⟨by rw [hs.fault_of_pass htol hpass], ?_⟩
      rcases hs.exists_isRun htol (s.room + 1) with hrun | ⟨m, hm, f, outcome, hrun, hstop⟩
      · exact hrun
      · -- with a verdict to stop within its room the pass would have had a result
        obtain ⟨events, hok⟩ : ∃ events,
            improve settings phase sign s.room s = .ok ⟨outcome, f m, events⟩ :=
          hrun.improve_eq_ok hstop (Nat.lt_succ_iff.1 hm)
        rw [improve_of_pass_error hpass] at hok
        cases hok

/-- Without a cap no pass is cut short. -/
theorem outcome_of_no_cap {tolerance : ℚ} {outcome : Outcome}
    (h : s.verdict ⟨none, tolerance⟩ sign = .stop outcome) :
    outcome = .optimal ∨ outcome = .unbounded := by
  cases outcome with
  | optimal => exact Or.inl rfl
  | unbounded => exact Or.inr rfl
  | exhausted =>
      obtain ⟨hcap, -⟩ := verdict_eq_exhausted.1 h
      cases hcap

/-- **A pass without degenerate exchanges ends** before it has made as many as there are sets of
basic columns. -/
theorem Feasible.exists_stop (hs : s.Feasible)
    (hpositive : ∀ t row col, Reaches ⟨none, 0⟩ sign s t →
      t.verdict ⟨none, 0⟩ sign = .exchange row col → 0 < t.rhs row) :
    ∃ n < (s.tableau.cols - 1).choose s.tableau.rows, ∃ f outcome,
      IsRun ⟨none, 0⟩ sign s n f ∧ (f n).verdict ⟨none, 0⟩ sign = .stop outcome := by
  have hruns : ∀ n, (∃ f, IsRun ⟨none, 0⟩ sign s n f) ∨ ∃ m < n, ∃ f outcome,
      IsRun ⟨none, 0⟩ sign s m f ∧ (f m).verdict ⟨none, 0⟩ sign = .stop outcome :=
    hs.canonical.exists_isRun le_rfl
  rcases hruns ((s.tableau.cols - 1).choose s.tableau.rows) with ⟨f, hrun⟩ | hstops
  · -- a run as long as that meets a set of basic columns twice
    obtain ⟨i, j, hij, hj, hbasis⟩ := hrun.exists_revisit hs.canonical le_rfl le_rfl
    obtain ⟨row, col, hverdict, hzero, -⟩ := hrun.degenerate_of_revisit hs hj hbasis le_rfl hij
    have hrhs := hpositive (f i) row col (hrun.reaches (by omega)) hverdict
    rw [hzero] at hrhs
    exact absurd hrhs (lt_irrefl 0)
  · exact hstops

/-! ### Passes that never end -/

/-- The state with `k` exchanges counted. -/
def recount (s : State ℚ) (k : Nat) : State ℚ := { s with iterations := k }

/-- Two states with the same costs, table and basis are the same but for the count. -/
theorem eq_recount (hobjective : t.objective = s.objective) (htableau : t.tableau = s.tableau)
    (hbasis : t.basis = s.basis) : t = s.recount t.iterations :=
  State.ext hobjective htableau hbasis rfl

/-- Without a cap a step does not depend on the count. -/
theorem step_recount {tolerance : ℚ} {k : Nat} {u : State ℚ} (h : Step ⟨none, tolerance⟩ sign s t)
    (hu : Step ⟨none, tolerance⟩ sign (s.recount k) u) : u = t.recount (k + 1) := by
  obtain ⟨row, col, next, hverdict, hnext, rfl⟩ := h.exists_exchange
  obtain ⟨row', col', next', hverdict', hnext', rfl⟩ := hu.exists_exchange
  have hsame : (s.recount k).verdict ⟨none, tolerance⟩ sign = .exchange row col := hverdict
  rw [hsame] at hverdict'
  cases hverdict'
  obtain ⟨hobjective, hrepair, -⟩ := exchange_eq_ok hnext
  obtain ⟨hobjective', hrepair', hcount⟩ := exchange_eq_ok hnext'
  have hboth : (next'.tableau, next'.basis) = (next.tableau, next.basis) :=
    hrepair'.trans hrepair.symm
  obtain ⟨htableau, hbasis⟩ := Prod.mk.inj hboth
  rw [eq_recount (hobjective'.trans hobjective.symm) htableau hbasis, hcount]
  rfl

/-- **A run that comes back to where it began goes on for ever**: no state that it reaches has a
verdict to stop. -/
theorem IsRun.verdict_ne_stop {tolerance : ℚ} {n k : Nat} {f : Nat → State ℚ}
    (h : IsRun ⟨none, tolerance⟩ sign s n f) (hn : 0 < n) (hback : f n = s.recount k)
    (hreaches : Reaches ⟨none, tolerance⟩ sign s t) (outcome : Outcome) :
    t.verdict ⟨none, tolerance⟩ sign ≠ .stop outcome := by
  -- all that is ever reached are the states of the run, with other counts
  have hround : ∃ i < n, ∃ m, t = (f i).recount m := by
    induction hreaches with
    | refl => exact ⟨0, hn, s.iterations, by rw [h.start]; rfl⟩
    | tail _ hstep ih =>
        obtain ⟨i, hi, m, rfl⟩ := ih
        have hnext := step_recount (h.step i hi) hstep
        rcases Nat.lt_or_eq_of_le (Nat.succ_le_of_lt hi) with hlt | heq
        · exact ⟨i + 1, hlt, m + 1, hnext⟩
        · refine ⟨0, hn, m + 1, ?_⟩
          rw [hnext, h.start, show i + 1 = n from heq, hback]
          rfl
  obtain ⟨i, hi, m, rfl⟩ := hround
  obtain ⟨row, col, next, hverdict, -, -⟩ := (h.step i hi).exists_exchange
  have hsame : ((f i).recount m).verdict ⟨none, tolerance⟩ sign = .exchange row col := hverdict
  rw [hsame]
  nofun

/-- From where such a run begins there are runs of any length. -/
theorem IsRun.exists_isRun {tolerance : ℚ} {n k : Nat} {f : Nat → State ℚ}
    (h : IsRun ⟨none, tolerance⟩ sign s n f) (hs : s.Canonical) (htol : 0 ≤ tolerance) (hn : 0 < n)
    (hback : f n = s.recount k) (m : Nat) : ∃ g, IsRun ⟨none, tolerance⟩ sign s m g := by
  have hruns : (∃ g, IsRun ⟨none, tolerance⟩ sign s m g) ∨ ∃ l < m, ∃ g outcome,
      IsRun ⟨none, tolerance⟩ sign s l g ∧
        (g l).verdict ⟨none, tolerance⟩ sign = .stop outcome := hs.exists_isRun htol m
  rcases hruns with hrun | ⟨l, -, g, outcome, hrun, hstop⟩
  · exact hrun
  · exact absurd hstop (h.verdict_ne_stop hn hback (hrun.reaches le_rfl) outcome)

/-- **A pass that comes back to where it began has no result**, but fills its counter. -/
theorem IsRun.pass_eq_error {tolerance : ℚ} {n k : Nat} {f : Nat → State ℚ}
    (h : IsRun ⟨none, tolerance⟩ sign s n f) (hs : s.Canonical) (htol : 0 ≤ tolerance) (hn : 0 < n)
    (hback : f n = s.recount k) (phase : Phase) :
    s.pass ⟨none, tolerance⟩ phase sign = .error .counterOverflow := by
  cases hpass : s.pass ⟨none, tolerance⟩ phase sign with
  | error fault => rw [hs.fault_of_pass htol hpass]
  | ok pass =>
      obtain ⟨run, hrun, -, -⟩ := improve_of_pass hpass
      obtain ⟨hreaches, hstop⟩ := reaches_of_improve hrun
      exact absurd hstop (h.verdict_ne_stop hn hback hreaches run.outcome)

/-- A pass under a cap shows what the pass without the cap begins with. -/
theorem exists_isRun_of_capped {tolerance : ℚ} {phase : Phase} {n : Nat} {last : State ℚ}
    (h : (s.pass ⟨some n, tolerance⟩ phase sign).map (·.state) = .ok last)
    (hcount : last.iterations = s.iterations + n) :
    ∃ f, IsRun ⟨none, tolerance⟩ sign s n f ∧ f n = last := by
  cases hpass : s.pass ⟨some n, tolerance⟩ phase sign with
  | error fault => rw [hpass] at h; cases h
  | ok pass =>
      rw [hpass] at h
      cases h
      obtain ⟨m, f, hrun, hlast, hiterations⟩ := exists_isRun_of_pass hpass
      have hends : pass.state.iterations = s.iterations + n := hcount
      obtain rfl : m = n := by omega
      exact ⟨f, hrun.of_relaxed (Settings.relaxed_of_le tolerance nofun), hlast⟩

/-- A state that a pass comes back to after six exchanges, all of them degenerate. -/
def cyclingState : State ℚ :=
  ⟨[-3 / 4, 20, -1 / 2, 6, 0, 0, 0],
    ⟨3, 8, #[1 / 4, -8, -1, 9, 1, 0, 0, 0, 1 / 2, -12, -1 / 2, 3, 0, 1, 0, 0, 0, 0, 1, 0, 0, 0, 1,
      1], rfl⟩, [4, 5, 6], 0, rfl, rfl, by decide⟩

theorem feasible_cyclingState : cyclingState.Feasible :=
  ⟨⟨rfl, by decide, by decide +kernel⟩, by decide +kernel⟩

/-- A solve without a search has the fault of its second pass. -/
theorem solve_eq_error_of_pass {p : Program ℚ} {fault : Fault} (hfit : p.mismatch = none)
    (hnone : (EqualityForm.ofProgram p).hasArtificials = false)
    (hstart : ofTableau p.extendedCosts (EqualityForm.ofProgram p).tableau
      (EqualityForm.ofProgram p).basis = .ok s)
    (hpass : s.pass settings .two p.direction.sign = .error fault) :
    p.solve settings = .error (.fault fault) := by
  have hsecond : p.secondPhase settings (EqualityForm.ofProgram p).tableau
      (EqualityForm.ofProgram p).basis 0 = .error fault := by
    unfold Program.secondPhase
    rw [hstart]
    show (s.pass settings .two p.direction.sign >>= _) = _
    rw [hpass]
    rfl
  unfold Program.solve Program.solveFitting
  rw [hfit]
  simp only [hnone, hsecond]
  rfl

/-- **Without a cap a solve may go on for ever**, also with the standard settings. -/
theorem solve_never_ends :
    let p : Program ℚ := .build .minimize [-3 / 4, 20, -1 / 2, 6]
      [.add [1 / 4, -8, -1, 9] "<=" 0, .add [1 / 2, -12, -1 / 2, 3] "<=" 0,
        .add [0, 0, 1, 0] "<=" 1]
    p.solve .standard = .error (.fault .counterOverflow) := by
  intro p
  have hback : (cyclingState.pass ⟨some 6, 1e-9⟩ .two p.direction.sign).map (·.state) =
      .ok (cyclingState.recount 6) := by decide +kernel
  obtain ⟨f, hrun, hlast⟩ := exists_isRun_of_capped hback rfl
  have hpass : cyclingState.pass .standard .two p.direction.sign = .error .counterOverflow :=
    hrun.pass_eq_error feasible_cyclingState.canonical (by decide +kernel) (by decide) hlast .two
  exact solve_eq_error_of_pass (by decide +kernel) (by decide +kernel) (by decide +kernel) hpass

/-! ### How long a pass goes on -/

/-- **Cycling is the only way not to stop.** Take a pass without a cap from a state with a canonical
basis and no right-hand side below zero, and any run of it, however long. If it makes as many
exchanges as there are sets of columns that can be basic, it visits one of them twice; and between
two visits of one set every exchange is at a row whose right-hand side is zero and leaves the
objective value as it is. Every pass is such a run, the ones that fill the counter included. So if
no exchange is degenerate, the pass comes to a verdict of optimal or unbounded in fewer exchanges
than there are sets, and ends with it if the counter has room for these exchanges. -/
theorem Feasible.revisits_or_ends (hs : s.Feasible) (sign : ℚ) :
    let settings : Settings ℚ := ⟨none, 0⟩
    let sets := (s.tableau.cols - 1).choose s.tableau.rows
    (∀ n f, IsRun settings sign s n f →
      (sets ≤ n → ∃ i j, i < j ∧ j ≤ n ∧ (f i).basis.toFinset = (f j).basis.toFinset) ∧
      ∀ i j, i < j → j ≤ n → (f i).basis.toFinset = (f j).basis.toFinset → ∀ k, i ≤ k → k < j →
        ∃ row col, (f k).verdict settings sign = .exchange row col ∧ (f k).rhs row = 0 ∧
          (f (k + 1)).objectiveValue = (f k).objectiveValue) ∧
    (∀ phase, (∃ pass n f, s.pass settings phase sign = .ok pass ∧
        IsRun settings sign s n f ∧ f n = pass.state ∧
        pass.state.iterations = s.iterations + n) ∨
      s.pass settings phase sign = .error .counterOverflow ∧
        ∃ f, IsRun settings sign s (s.room + 1) f) ∧
    ((∀ t row col, Reaches settings sign s t → t.verdict settings sign = .exchange row col →
        0 < t.rhs row) →
      ∃ n < sets, ∃ f outcome, IsRun settings sign s n f ∧
        (f n).verdict settings sign = .stop outcome ∧
        (outcome = .optimal ∨ outcome = .unbounded) ∧
        (n ≤ s.room → ∀ phase, ∃ events,
          s.pass settings phase sign = .ok ⟨outcome, f n, events⟩)) := by
  intro settings sets
  refine ⟨fun n f hrun => ⟨hrun.exists_revisit hs.canonical le_rfl, ?_⟩,
    fun phase => hs.canonical.exists_isRun_of_any_pass le_rfl phase sign, fun hpositive => ?_⟩
  · intro i j _ hj hbasis k hik hkj
    exact hrun.degenerate_of_revisit hs hj hbasis hik hkj
  · obtain ⟨n, hn, f, outcome, hrun, hstop⟩ := hs.exists_stop hpositive
    refine ⟨n, hn, f, outcome, hrun, hstop, outcome_of_no_cap hstop, fun hroom phase => ?_⟩
    obtain ⟨events, hok⟩ : ∃ events,
        improve settings phase sign s.room s = .ok ⟨outcome, f n, events⟩ :=
      hrun.improve_eq_ok hstop hroom
    exact ⟨_, pass_eq_ok.2 ⟨_, hok, rfl⟩⟩

/-- Three of seven columns can be chosen in 35 ways. A pass that makes 35 exchanges from
`cyclingState` visits a set of basic columns twice, with degenerate exchanges only in between. A
pass in which a variable is raised to its bound ends after one exchange, which is not degenerate. -/
theorem revisits_or_ends_of_both_kinds :
    let bounded : State ℚ := ⟨[1, 0], ⟨1, 3, #[1, 1, 4], rfl⟩, [1], 0, rfl, rfl, by decide⟩
    (cyclingState.Feasible ∧ ∃ f : Nat → State ℚ,
      IsRun ⟨none, 0⟩ (Direction.sign .minimize) cyclingState 35 f ∧ ∃ i j, i < j ∧ j ≤ 35 ∧
        (f i).basis.toFinset = (f j).basis.toFinset ∧ ∀ k, i ≤ k → k < j → ∃ row col,
          (f k).verdict ⟨none, 0⟩ (Direction.sign .minimize) = .exchange row col ∧
          (f k).rhs row = 0 ∧ (f (k + 1)).objectiveValue = (f k).objectiveValue) ∧
    bounded.Feasible ∧
      (∀ t row col, Reaches ⟨none, 0⟩ (Direction.sign .maximize) bounded t →
        t.verdict ⟨none, 0⟩ (Direction.sign .maximize) = .exchange row col → 0 < t.rhs row) ∧
      ∃ pass, bounded.pass ⟨none, 0⟩ .two (Direction.sign .maximize) = .ok pass ∧
        (pass.outcome = .optimal ∨ pass.outcome = .unbounded) := by
  intro bounded
  constructor
  · have hback : (cyclingState.pass ⟨some 6, 0⟩ .two (Direction.sign .minimize)).map (·.state) =
        .ok (cyclingState.recount 6) := by decide +kernel
    obtain ⟨g, hround, hreturn⟩ := exists_isRun_of_capped hback rfl
    obtain ⟨f, hrun⟩ := hround.exists_isRun feasible_cyclingState.canonical le_rfl (by decide)
      hreturn 35
    obtain ⟨hruns, -, -⟩ := feasible_cyclingState.revisits_or_ends (Direction.sign .minimize)
    obtain ⟨hrevisits, hdegenerate⟩ := hruns 35 f hrun
    have hsets : (cyclingState.tableau.cols - 1).choose cyclingState.tableau.rows ≤ 35 := by decide
    obtain ⟨i, j, hij, hj, hbasis⟩ := hrevisits hsets
    exact ⟨feasible_cyclingState, f, hrun, i, j, hij, hj, hbasis, hdegenerate i j hij hj hbasis⟩
  · have hfeasible : bounded.Feasible := ⟨⟨rfl, by decide, by decide +kernel⟩, by decide +kernel⟩
    let last : State ℚ := ⟨[1, 0], ⟨1, 3, #[1, 1, 4], rfl⟩, [0], 0, rfl, rfl, by decide⟩
    have hfirst : bounded.verdict ⟨none, 0⟩ (Direction.sign .maximize) = .exchange 0 0 := by
      decide +kernel
    have hnext : bounded.exchange 0 0 = .ok last := by decide +kernel
    have hlast : last.count.verdict ⟨none, 0⟩ (Direction.sign .maximize) = .stop .optimal := by
      decide +kernel
    have hpositive : ∀ t row col, Reaches ⟨none, 0⟩ (Direction.sign .maximize) bounded t →
        t.verdict ⟨none, 0⟩ (Direction.sign .maximize) = .exchange row col → 0 < t.rhs row := by
      intro t row col hreaches hverdict
      rcases hreaches.eq_or_of_exchange hfirst hnext with rfl | hrest
      · rw [hfirst] at hverdict
        cases hverdict
        decide +kernel
      · rw [hrest.eq_of_stop hlast, hlast] at hverdict
        cases hverdict
    obtain ⟨-, -, hends⟩ := hfeasible.revisits_or_ends (Direction.sign .maximize)
    obtain ⟨n, hn, f, outcome, -, -, houtcome, hpass⟩ := hends hpositive
    have hroom : n ≤ bounded.room := by
      have hsets : n < 2 := hn
      have hlimit : 2 ≤ bounded.room := by decide
      omega
    obtain ⟨events, hok⟩ := hpass hroom .two
    exact ⟨hfeasible, hpositive, _, hok, houtcome⟩

end SimplexMethod.State
