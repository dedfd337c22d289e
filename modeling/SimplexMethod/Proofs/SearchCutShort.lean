import SimplexMethod.Proofs.CutShort
import SimplexMethod.Proofs.ForcedSearch
import SimplexMethod.Proofs.Layout
import SimplexMethod.Proofs.ObjectiveValue

/-!
# SimplexMethod.Proofs.SearchCutShort

**What it means that the cap ended the search for a feasible basis.** The search stops at a cap when
some column is still priced in, and that is a question about reduced costs, not about the sum of the
artificial variables. The two can disagree: an artificial variable may be basic at zero, and then
the search goes on although its sum cannot become any smaller
(`Program.search_cut_short_at_feasible_point`).

They disagree in no other way. A column is only ever priced in for an entry in the row of an
artificial variable (`State.exists_artificial_of_price`), so one of those is basic wherever the cap
ends a search. And a state of the search stands for a feasible point exactly if its artificial
variables are zero (`Program.feasiblePoint_iff_of_search`). One direction of this needs the basis: a
lower bound is met also where its surplus and its artificial variable are raised by the same amount,
and what excludes that is that not both of them are basic.
-/

namespace SimplexMethod

/-! ### A lower bound and its artificial variable -/

namespace EqualityForm

variable {p : Program ℚ}

/-- **The surplus of a lower bound and its artificial variable make up for each other**: in the row
of the constraint one of them has the entry minus one and the other one, and there are no others. -/
theorem rowSum_surplus_add_artificial {i k : Nat} {c : Constraint ℚ}
    (hc : p.constraints[i]? = some c) (hrelation : c.relation = .atLeast)
    (hk : k < (ofProgram p).tableau.rows) :
    (ofProgram p).tableau.rowSum (fun j => (if j = p.variableCount + i then 1 else 0) +
      if j = p.artificialColumn i then 1 else 0) k = 0 := by
  have hi : i < p.constraintCount := (List.getElem?_eq_some_iff.1 hc).1
  have hd : p.constraints[k]? = some p.constraints[k] := List.getElem?_eq_getElem hk
  have hneeds : c.relation.needsArtificial = true := by rw [hrelation]; rfl
  have hsurplus : p.variableCount + i < p.firstArtificial + p.artificialRows.length := by
    unfold Program.firstArtificial
    omega
  have hartificial := Program.artificialColumn_lt_length hc hneeds
  have hunit := entry_startingColumn hc k hk
  rw [Program.startingColumn, if_pos hneeds] at hunit
  rw [Tableau.rowSum_add, Tableau.rowSum_single _ (by rw [cols_ofProgram]; omega),
    Tableau.rowSum_single _ (by rw [cols_ofProgram]; omega), hunit, entry_ofProgram hd (by omega),
    cellOf_slack _ hi]
  by_cases hki : k = i
  · subst hki
    rw [hc] at hd
    rw [if_pos rfl, if_pos rfl, ← Option.some.inj hd, hrelation, slackCoefficient, neg_add_cancel]
  · rw [if_neg (Ne.symm hki), if_neg hki, add_zero]

end EqualityForm

namespace Program

variable {p : Program ℚ} {cap : Option Nat} {s : State ℚ}

/-- The search does not change the equations. -/
theorem solves_of_search {settings : Settings ℚ} (htol : 0 ≤ settings.tolerance)
    (h : p.Visits settings .search s) (v : Nat → ℚ) :
    s.tableau.Solves v ↔ (EqualityForm.ofProgram p).tableau.Solves v := by
  generalize hstage : Stage.search = stage at h
  induction h with
  | searchStart _ _ hstart =>
      obtain ⟨-, htableau, -⟩ := State.of_ofTableau (EqualityForm.isBasis_ofProgram p) hstart
      rw [htableau]
  | searchStep hs hstep ih =>
      obtain ⟨-, hsame⟩ := (tracks_of_visits htol hs).canonical.step htol hstep
      exact (hsame.solves v).trans (ih rfl)
  | expulsionStart => cases hstage
  | expulsionStep => cases hstage
  | handover => cases hstage
  | directStart => cases hstage
  | secondStep => cases hstage

/-- Not both of the surplus of a lower bound and its artificial variable have a value. -/
theorem surplus_eq_zero_or_of_search (h : p.Visits ⟨cap, 0⟩ .search s) {i : Nat} {c : Constraint ℚ}
    (hc : p.constraints[i]? = some c) (hrelation : c.relation = .atLeast) :
    s.value (p.variableCount + i) = 0 ∨ s.value (p.artificialColumn i) = 0 := by
  have hi : i < p.constraintCount := (List.getElem?_eq_some_iff.1 hc).1
  have hle := p.firstArtificial_le_artificialColumn i
  refine (tracks_of_visits le_rfl h).canonical.value_eq_zero_or_of_free
    (by unfold firstArtificial at hle; omega) fun v hv => ?_
  rw [solves_of_search le_rfl h] at hv ⊢
  intro k hk
  rw [Tableau.rowSum_add, EqualityForm.rowSum_surplus_add_artificial hc hrelation hk, add_zero]
  exact hv k hk

theorem artificialSum_eq_zero_iff (hnonneg : ∀ j, 0 ≤ s.value j) :
    p.artificialSum s = 0 ↔ ∀ k < p.artificialRows.length, s.value (p.firstArtificial + k) = 0 := by
  rw [artificialSum, Finset.sum_eq_zero_iff_of_nonneg fun k _ => hnonneg _]
  simp only [Finset.mem_range]

/-- **A state of the search stands for a feasible point exactly if its artificial variables are
zero.** -/
theorem feasiblePoint_iff_of_search (hfit : p.mismatch = none)
    (hrhs : ∀ c ∈ p.constraints, 0 ≤ c.rhs) (h : p.Visits ⟨cap, 0⟩ .search s) :
    FeasiblePoint p.variableCount p.constraints (p.point s.value) ↔ p.artificialSum s = 0 := by
  obtain ⟨⟨hcanonical, hrhs'⟩, -, -⟩ := feasible_of_search hrhs h
  have hnonneg := hcanonical.value_nonneg hrhs'
  have hsolves := (solves_of_search le_rfl h _).1 hcanonical.solves_value
  rw [artificialSum_eq_zero_iff hnonneg]
  constructor
  · intro hpoint k hk
    have hr : p.artificialRows[k]? = some p.artificialRows[k] := List.getElem?_eq_getElem hk
    obtain ⟨c, hc, hneeds, hcolumn⟩ := of_getElem?_artificialRows hr
    rw [← hcolumn]
    -- the equation of the constraint, at a point that satisfies it
    have hrow := hsolves _ (List.getElem?_eq_some_iff.1 hc).1
    have hholds := hpoint.holds c (List.mem_of_getElem? hc)
    rw [EqualityForm.rowSum_ofProgram hc, if_pos hneeds, EqualityForm.rhs_ofProgram hc,
      ← dot_point (mismatch_eq_none.1 hfit c (List.mem_of_getElem? hc))] at hrow
    unfold Constraint.Holds at hholds
    rcases Relation.needsArtificial_iff.1 hneeds with hrelation | hrelation
    · rw [hrelation] at hrow hholds
      simp only [Relation.Holds, EqualityForm.slackCoefficient] at hrow hholds
      rcases surplus_eq_zero_or_of_search h hc hrelation with hsurplus | hartificial
      · have hpos := hnonneg (p.artificialColumn p.artificialRows[k])
        rw [hsurplus] at hrow
        linarith
      · exact hartificial
    · rw [hrelation] at hrow hholds
      simp only [Relation.Holds, EqualityForm.slackCoefficient] at hrow hholds
      linarith
  · intro hzero
    refine feasiblePoint_of_solves hfit hnonneg ((Tableau.solves_congr fun j hj => ?_).1 hsolves)
    rw [EqualityForm.cols_ofProgram, Nat.add_sub_cancel] at hj
    by_cases hlt : j < p.firstArtificial
    · exact (upTo_of_lt _ hlt).symm
    · have hvalue := hzero (j - p.firstArtificial) (by omega)
      rw [Nat.add_sub_cancel' (not_lt.1 hlt)] at hvalue
      rw [upTo_of_le _ (not_lt.1 hlt), hvalue]

end Program

/-! ### Where the cap ends a search -/

namespace State

variable {s : State ℚ} {form : EqualityForm ℚ} {col : Nat}

/-- **The next exchange is made at a row at zero**, where the artificial variables sum to zero. -/
theorem exists_ratioTest_of_objectiveValue (h : s.objective = form.artificialCosts)
    (hrhs : ∀ i < s.tableau.rows, 0 ≤ s.rhs i) (hzero : s.objectiveValue = 0)
    (hprice : s.price (Direction.sign .minimize) 0 = some col) :
    ∃ row, s.tableau.ratioTest col 0 = some row ∧ s.rhs row = 0 := by
  obtain ⟨i, hi, hbasic, hpos⟩ := exists_artificial_of_price h le_rfl hprice
  have hlevel : s.rhs i = 0 := rhs_eq_zero_of_objectiveValue h hrhs hzero hi hbasic
  have hquotient : s.tableau.rhs i / s.tableau.entry i col = 0 := by
    rw [show s.tableau.rhs i = 0 from hlevel, zero_div]
  cases hratio : s.tableau.ratioTest col 0 with
  | none =>
      have hneg := Tableau.ratioTest_eq_none.1 hratio i hi hpos
      rw [hquotient] at hneg
      exact absurd hneg (lt_irrefl 0)
  | some row =>
      obtain ⟨hrow, hentry, hnonneg, hleast⟩ := Tableau.ratioTest_eq_some hratio
      have hle := hleast i hi hpos hquotient.ge
      rw [hquotient] at hle
      refine ⟨row, rfl, ?_⟩
      exact (div_eq_zero_iff.1 (le_antisymm hle hnonneg)).resolve_right hentry.ne'

/-- The artificial variables sum to zero exactly if those that are basic are zero. -/
theorem objectiveValue_eq_zero_iff (h : s.objective = form.artificialCosts)
    (hrhs : ∀ i < s.tableau.rows, 0 ≤ s.rhs i) :
    s.objectiveValue = 0 ↔
      ∀ i < s.tableau.rows, form.firstArtificial ≤ s.basis.getD i 0 → s.rhs i = 0 := by
  constructor
  · intro hzero i hi hbasic
    exact rhs_eq_zero_of_objectiveValue h hrhs hzero hi hbasic
  · intro hlevels
    rw [objectiveValue_eq_sum]
    refine Finset.sum_eq_zero fun i hi => ?_
    have hi' := Finset.mem_range.1 hi
    rw [basicCost, getD_objective_of_artificialCosts h (s.basis_getD_lt hi')]
    split
    · exact zero_mul _
    · next hbasic => rw [hlevels i hi' (not_lt.1 hbasic), mul_zero]

end State

namespace Program

variable {p : Program ℚ} {cap : Option Nat}

/-- Whatever the search meets is reached from its first state. -/
theorem Visits.reaches_of_start {settings : Settings ℚ} {start s : State ℚ}
    (hstart : State.ofTableau (EqualityForm.ofProgram p).artificialCosts
      (EqualityForm.ofProgram p).tableau (EqualityForm.ofProgram p).basis = .ok start)
    (h : p.Visits settings .search s) :
    State.Reaches settings (Direction.sign .minimize) start s := by
  generalize hstage : Stage.search = stage at h
  induction h with
  | searchStart _ _ hs =>
      rw [hstart] at hs
      cases hs
      exact .refl
  | searchStep _ hstep ih => exact (ih rfl).tail hstep
  | expulsionStart => cases hstage
  | expulsionStep => cases hstage
  | handover => cases hstage
  | directStart => cases hstage
  | secondStep => cases hstage

/-- The search came to the state when `n` exchanges had been made, and the cap ended it there. -/
structure CutShortAt (p : Program ℚ) (cap : Option Nat) (n : Nat) (events : List (Event ℚ))
    (s : State ℚ) : Prop where
  visits : p.Visits ⟨cap, 0⟩ .search s
  verdict : s.verdict ⟨cap, 0⟩ (Direction.sign .minimize) = .stop .exhausted
  told : .phaseEnd .one .exhausted s.objectiveValue ∈ events
  iterations : s.iterations = n
  cap_eq : cap = some n

/-- A search that the cap ended was one for an artificial variable to leave, and it ended at a
state. -/
theorem exists_cutShortAt (hfit : p.mismatch = none) {n : Nat} {events : List (Event ℚ)}
    (h : (EqualityForm.ofProgram p).searchFeasible ⟨cap, 0⟩ = .ok ⟨.exhausted n, events⟩) :
    (EqualityForm.ofProgram p).hasArtificials = true ∧ ∃ s, p.CutShortAt cap n events s := by
  have hartificials : (EqualityForm.ofProgram p).hasArtificials = true := by
    rw [← Bool.not_eq_false]
    intro hnone
    have hfound : ∃ found, (EqualityForm.ofProgram p).searchFeasible ⟨cap, 0⟩ =
        .ok ⟨.feasible _ _ 0, found⟩ :=
      EqualityForm.searchFeasible_of_not_hasArtificials le_rfl hnone
    obtain ⟨found, hfound⟩ := hfound
    rw [h] at hfound
    cases hfound
  obtain ⟨t, -, houtcome, hlength, -, hcounts⟩ := exists_transcript_of_searchFeasible h
  obtain ⟨hcap, -⟩ := hcounts.exhausted_iff.1 (houtcome.2 ⟨n, rfl⟩)
  obtain ⟨start, pass, hstart, hpass, hresult, hevents⟩ := EqualityForm.searchFeasible_eq_ok.1 h
  have hend : pass.outcome = .exhausted :=
    (EqualityForm.exhausted_of_feasibilityOf hresult).2 ⟨n, rfl⟩
  obtain ⟨hreaches, hverdict⟩ := State.reaches_of_pass hpass
  refine ⟨hartificials, pass.state,
    Visits.reaches_search (.searchStart hfit hartificials hstart) hreaches, hend ▸ hverdict, ?_,
    (EqualityForm.iterations_of_feasibilityOf hresult).symm, ?_⟩
  · rw [show events = pass.events from hevents, phaseEnd_mem_of_pass hpass]
    exact ⟨rfl, hend.symm, rfl⟩
  · exact hcap.trans (congrArg some hlength.symm)

/-- **No state of a search has a smaller sum of artificial variables than the last one.** -/
theorem CutShortAt.artificialSum_le {n : Nat} {events : List (Event ℚ)} {s t : State ℚ}
    (h : p.CutShortAt cap n events s) (hrhs : ∀ c ∈ p.constraints, 0 ≤ c.rhs)
    (ht : p.Visits ⟨cap, 0⟩ .search t) : p.artificialSum s ≤ p.artificialSum t := by
  obtain ⟨start, hstart, -⟩ := EqualityForm.exists_start hrhs
  have hreaches := (ht.reaches_of_start hstart).of_stop (h.visits.reaches_of_start hstart) h.verdict
  obtain ⟨hfeasible, -, hsum⟩ := feasible_of_search hrhs ht
  obtain ⟨-, -, hsum'⟩ := feasible_of_search hrhs h.visits
  have hle := hfeasible.signed_objectiveValue_le_of_reaches hreaches
  rw [Direction.sign] at hle
  linarith

/-- **What it means that the cap ended the search.** The answer has no point. The search made as
many exchanges as the cap allows, and some artificial variable is still basic in its last state. If
the artificial variables have a positive sum there, no state of the search stood for a feasible
point. The sum is zero exactly if every artificial variable that is still basic is zero. Then the
last state does stand for a feasible point, which the answer leaves out, and the exchange that the
cap forbade is made at a row at zero, so that it changes the basis and not the point. -/
theorem search_cut_short (direction : Direction) (objective : List ℚ) (requests : List (Request ℚ))
    (cap : Option Nat) (hfit : (build direction objective requests).mismatch = none) {n : Nat}
    {events : List (Event ℚ)}
    (h : (EqualityForm.ofProgram (build direction objective requests)).searchFeasible ⟨cap, 0⟩ =
      .ok ⟨.exhausted n, events⟩) :
    let p := build direction objective requests
    (∃ told, p.solve ⟨cap, 0⟩ = .ok ⟨.exhausted n p.variableCount, told⟩) ∧
    ∃ s, p.CutShortAt cap n events s ∧ s.objectiveValue = p.artificialSum s ∧
      0 ≤ p.artificialSum s ∧
      (∃ i < s.tableau.rows, p.firstArtificial ≤ s.basis.getD i 0) ∧
      (0 < p.artificialSum s → ∀ t, p.Visits ⟨cap, 0⟩ .search t →
        ¬FeasiblePoint p.variableCount p.constraints (p.point t.value)) ∧
      (p.artificialSum s = 0 ↔
        ∀ i < s.tableau.rows, p.firstArtificial ≤ s.basis.getD i 0 → s.rhs i = 0) ∧
      (p.artificialSum s = 0 →
        FeasiblePoint p.variableCount p.constraints (p.point s.value) ∧
        ∃ row col, s.price (Direction.sign .minimize) 0 = some col ∧
          s.tableau.ratioTest col 0 = some row ∧ s.rhs row = 0) := by
  intro p
  have hrhs : ∀ c ∈ p.constraints, 0 ≤ c.rhs := rhs_nonneg_of_build
  obtain ⟨hartificials, s, hs⟩ := exists_cutShortAt hfit h
  obtain ⟨hfeasible, hnonneg, hsum⟩ := feasible_of_search hrhs hs.visits
  obtain ⟨-, hobjective⟩ := tracks_of_visits le_rfl hs.visits
  obtain ⟨col, hprice⟩ := Option.ne_none_iff_exists'.1 (State.verdict_eq_exhausted.1 hs.verdict).2
  obtain ⟨i, hi, hbasic, -⟩ := State.exists_artificial_of_price hobjective le_rfl hprice
  refine ⟨⟨_, solve_eq_ok.2 ⟨hfit, .exhausted hartificials h⟩⟩, s, hs, hsum, hsum ▸ hnonneg,
    ⟨i, hi, hbasic⟩, fun hpositive t ht hpoint => ?_, ?_, fun hzero => ⟨?_, ?_⟩⟩
  · rw [feasiblePoint_iff_of_search hfit hrhs ht] at hpoint
    linarith [hs.artificialSum_le hrhs ht]
  · rw [← hsum]
    exact State.objectiveValue_eq_zero_iff hobjective hfeasible.rhs_nonneg
  · exact (feasiblePoint_iff_of_search hfit hrhs hs.visits).2 hzero
  · obtain ⟨row, hratio, hlevel⟩ := State.exists_ratioTest_of_objectiveValue hobjective
      hfeasible.rhs_nonneg (hsum.trans hzero) hprice
    exact ⟨row, col, hprice, hratio, hlevel⟩

/-- Two lower bounds and room for one exchange, which meets the second of them. The first one is
missed by two. -/
theorem search_cut_short_missed :
    let p : Program ℚ := build .minimize [1, 1] [.add [1, 2] ">=" 4, .add [3, 1] ">=" 6]
    p.mismatch = none ∧ ∃ events,
      (EqualityForm.ofProgram p).searchFeasible ⟨some 1, 0⟩ = .ok ⟨.exhausted 1, events⟩ ∧
      (∃ told, p.solve ⟨some 1, 0⟩ = .ok ⟨.exhausted 1 2, told⟩) ∧
      ∃ s, p.CutShortAt (some 1) 1 events s ∧ p.artificialSum s = 2 ∧
        ∀ t, p.Visits ⟨some 1, 0⟩ .search t →
          ¬FeasiblePoint p.variableCount p.constraints (p.point t.value) := by
  intro p
  have hfit : p.mismatch = none := by decide +kernel
  have hsearch : ((EqualityForm.ofProgram p).searchFeasible ⟨some 1, 0⟩).map (fun search =>
      (search.result, search.events.filterMap fun e => match e with
        | .phaseEnd _ _ value => some value
        | _ => none)) = .ok (.exhausted 1, [2]) := by decide +kernel
  cases hok : (EqualityForm.ofProgram p).searchFeasible ⟨some 1, 0⟩ with
  | error f => rw [hok] at hsearch; cases hsearch
  | ok search =>
      rw [hok] at hsearch
      obtain ⟨hresult, hvalues⟩ := Prod.mk.inj (Except.ok.inj hsearch)
      obtain ⟨result, events⟩ := search
      obtain rfl : result = .exhausted 1 := hresult
      obtain ⟨htold, s, hs, hsum, -, -, hmissed, -⟩ :=
        search_cut_short .minimize [1, 1] [.add [1, 2] ">=" 4, .add [3, 1] ">=" 6] (some 1) hfit hok
      have hvalue : s.objectiveValue ∈ [2] := by
        rw [← hvalues]
        exact List.mem_filterMap.2 ⟨_, hs.told, rfl⟩
      have htwo : p.artificialSum s = 2 := hsum.symm.trans (List.mem_singleton.1 hvalue)
      exact ⟨hfit, events, rfl, htold, s, hs, htwo, hmissed (two_pos.trans_eq htwo.symm)⟩

/-- The point `(1, 0)` satisfies both constraints, and the first exchange leads to it. It leaves the
artificial variable of the second constraint basic at zero, a column still prices in, and the cap
ends the search there. -/
theorem search_cut_short_at_feasible_point :
    let p : Program ℚ := build .maximize [1, 1] [.add [2, 1] "=" 2, .add [2, 2] "=" 2]
    p.mismatch = none ∧ ∃ events s,
      (EqualityForm.ofProgram p).searchFeasible ⟨some 1, 0⟩ = .ok ⟨.exhausted 1, events⟩ ∧
      p.CutShortAt (some 1) 1 events s ∧ ¬0 < p.artificialSum s ∧ p.point s.value = [1, 0] ∧
      FeasiblePoint p.variableCount p.constraints [1, 0] := by
  intro p
  have hfit : p.mismatch = none := by decide +kernel
  let s : State ℚ := ⟨[0, 0, 0, 0, 1, 1],
    ⟨2, 7, #[1, 1 / 2, 0, 0, 1 / 2, 0, 1, 0, 1, 0, 0, -1, 1, 0], rfl⟩, [0, 5], 1, rfl, rfl,
    by decide⟩
  have hsearch : ((EqualityForm.ofProgram p).searchFeasible ⟨some 1, 0⟩).map (fun search =>
      (search.result, decide (.exchange .one 0 0 s ∈ search.events),
        decide (.phaseEnd .one .exhausted 0 ∈ search.events))) =
      .ok (.exhausted 1, true, true) := by decide +kernel
  cases hok : (EqualityForm.ofProgram p).searchFeasible ⟨some 1, 0⟩ with
  | error f => rw [hok] at hsearch; cases hsearch
  | ok search =>
      rw [hok] at hsearch
      obtain ⟨hresult, hmem⟩ := Prod.mk.inj (Except.ok.inj hsearch)
      obtain ⟨hexchange, hend⟩ := Prod.mk.inj hmem
      obtain ⟨result, events⟩ := search
      obtain rfl : result = .exhausted 1 := hresult
      have hvisits : p.Visits ⟨some 1, 0⟩ .search s :=
        (finds_of_searchFeasible hfit (by decide +kernel) hok).2 _ (of_decide_eq_true hexchange)
      have hvalue : s.objectiveValue = 0 := by decide +kernel
      obtain ⟨-, -, hsum⟩ := feasible_of_search rhs_nonneg_of_build hvisits
      refine ⟨hfit, events, s, rfl, ⟨hvisits, by decide +kernel, ?_, rfl, rfl⟩, ?_,
        by decide +kernel, by decide +kernel⟩
      · rw [hvalue]
        exact of_decide_eq_true hend
      · rw [← hsum, hvalue]
        exact lt_irrefl 0

end Program

end SimplexMethod
