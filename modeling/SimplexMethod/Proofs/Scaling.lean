import SimplexMethod.Proofs.Answer
import SimplexMethod.Proofs.Transcript
import SimplexMethod.Proofs.Visited

/-!
# SimplexMethod.Proofs.Scaling

**Scaling the costs changes no exchange.** The costs of a program are multiplied by a number, and if
that is negative, the direction is turned round. The method then does the same as before. All that
it asks of the costs is which signed reduced cost comes first among the least ones and whether that
one is below minus the tolerance, and both questions have the same answer after all signed reduced
costs are multiplied by one positive number (`firstLeast_map_mul`). The second question needs a
tolerance that scaling does not change, so it is zero or the factor is minus one.

Scaling commutes with every operation of the second phase: making a state, an exchange, a pass and
reading a solution. The statements are equations of results, so they cover faults as well. The
search for a basis does not see the costs of the program at all.
-/

namespace SimplexMethod

variable {k : ℚ}

/-! ### Directions and lists of costs -/

/-- The other direction. -/
def Direction.reversed : Direction → Direction
  | .maximize => .minimize
  | .minimize => .maximize

/-- The direction in which costs are to be optimised that are `k` times as large. -/
def Direction.scaled (k : ℚ) (d : Direction) : Direction := if k < 0 then d.reversed else d

/-- Signed costs are multiplied by a positive number. -/
theorem Direction.sign_scaled_mul (k : ℚ) (d : Direction) :
    (d.scaled k).sign * k = |k| * d.sign := by
  unfold scaled
  by_cases hneg : k < 0
  · rw [if_pos hneg, abs_of_neg hneg]
    cases d <;> simp [reversed, sign]
  · rw [if_neg hneg, abs_of_nonneg (not_lt.1 hneg), mul_comm]

theorem getD_map_mul (k : ℚ) (xs : List ℚ) (j : Nat) :
    (xs.map (k * ·)).getD j 0 = k * xs.getD j 0 := by
  simp only [List.getD_eq_getElem?_getD, List.getElem?_map]
  cases xs[j]? with
  | none => exact (mul_zero k).symm
  | some x => rfl

/-! ### Results -/

/-- Two requests in a row, of which each has the result of another one in a changed form. -/
theorem Fault.bind_eq_map {α β γ δ : Type} {x : Except Fault α} {x' : Except Fault β}
    {change : α → β} {f : α → Except Fault γ} {f' : β → Except Fault δ} {change' : γ → δ}
    (hx : x' = x.map change) (hf : ∀ a, x = .ok a → f' (change a) = (f a).map change') :
    (x' >>= f') = (x >>= f).map change' := by
  rw [hx]
  cases x with
  | error fault => rfl
  | ok a => exact hf a rfl

/-- The same where the two begin with one request. -/
theorem Fault.bind_eq_map_of_same {α γ δ : Type} {x : Except Fault α} {f : α → Except Fault γ}
    {f' : α → Except Fault δ} {change : γ → δ}
    (hf : ∀ a, x = .ok a → f' a = (f a).map change) : (x >>= f') = (x >>= f).map change := by
  cases x with
  | error fault => rfl
  | ok a => exact hf a rfl

/-! ### Pricing -/

/-- **Scaling values by a positive number keeps the first least one.** -/
theorem firstLeast_map_mul {a : ℚ} (ha : 0 < a) (candidates : List (Nat × ℚ)) :
    firstLeast (candidates.map fun c => (c.1, a * c.2)) =
      (firstLeast candidates).map fun c => (c.1, a * c.2) := by
  -- from the end of the list, because the fold compares the last candidate last
  induction candidates using List.reverseRecOn with
  | nil => rfl
  | append_singleton rest d ih =>
      rw [List.map_append, List.map_singleton, firstLeast_append, firstLeast_append, ih]
      have hsame : takesOver ((firstLeast rest).map fun c => (c.1, a * c.2)) (a * d.2) =
          takesOver (firstLeast rest) d.2 := by
        cases firstLeast rest with
        | none => rfl
        | some c =>
            exact decide_eq_decide.2 (mul_lt_mul_iff_right₀ ha)
      rw [hsame]
      split <;> rfl

/-- **The same column is priced in** after signed costs and tolerance are scaled by a positive
number. -/
theorem firstImproving_map_mul {a sign sign' tolerance : ℚ} (ha : 0 < a)
    (hsign : sign' * k = a * sign) (htol : a * tolerance = tolerance) (reducedCosts : List ℚ) :
    firstImproving (reducedCosts.map (k * ·)) sign' tolerance =
      firstImproving reducedCosts sign tolerance := by
  have hcandidates : ((reducedCosts.map (k * ·)).zipIdx.map fun c => (c.2, sign' * c.1)) =
      (reducedCosts.zipIdx.map fun c => (c.2, sign * c.1)).map fun c => (c.1, a * c.2) := by
    rw [List.zipIdx_map, List.map_map, List.map_map]
    refine List.map_congr_left fun c _ => Prod.ext rfl ?_
    show sign' * (k * c.1) = a * (sign * c.1)
    rw [← mul_assoc, hsign, mul_assoc]
  unfold firstImproving
  rw [hcandidates, firstLeast_map_mul ha]
  cases firstLeast (reducedCosts.zipIdx.map fun c => (c.2, sign * c.1)) with
  | none => rfl
  | some c =>
      have hlt : a * c.2 < -tolerance ↔ c.2 < -tolerance := by
        calc a * c.2 < -tolerance ↔ a * c.2 < a * -tolerance := by rw [mul_neg, htol]
          _ ↔ c.2 < -tolerance := mul_lt_mul_iff_right₀ ha
      exact if_congr hlt rfl rfl

/-! ### States -/

/-- The state with costs that are `k` times as large. -/
def State.rescale (k : ℚ) (s : State ℚ) : State ℚ where
  objective := s.objective.map (k * ·)
  tableau := s.tableau
  basis := s.basis
  iterations := s.iterations
  cols_tableau := by rw [List.length_map]; exact s.cols_tableau
  length_basis := s.length_basis
  basis_lt := by rw [List.length_map]; exact s.basis_lt

namespace State

@[simp] theorem basicCost_rescale (k : ℚ) (s : State ℚ) (i : Nat) :
    (s.rescale k).basicCost i = k * s.basicCost i := getD_map_mul k s.objective _

@[simp] theorem reducedCost_rescale (k : ℚ) (s : State ℚ) (j : Nat) :
    (s.rescale k).reducedCost j = k * s.reducedCost j := by
  have hcost : (s.rescale k).objective.getD j 0 = k * s.objective.getD j 0 :=
    getD_map_mul k s.objective j
  rw [reducedCost_eq_sum, reducedCost_eq_sum, hcost, mul_sub, Finset.mul_sum]
  congr 1
  exact Finset.sum_congr rfl fun i _ => by rw [basicCost_rescale, mul_assoc]; rfl

@[simp] theorem objectiveValue_rescale (k : ℚ) (s : State ℚ) :
    (s.rescale k).objectiveValue = k * s.objectiveValue := by
  rw [objectiveValue_eq_sum, objectiveValue_eq_sum, Finset.mul_sum]
  exact Finset.sum_congr rfl fun i _ => by rw [basicCost_rescale, mul_assoc]; rfl

@[simp] theorem reducedCosts_rescale (k : ℚ) (s : State ℚ) :
    (s.rescale k).reducedCosts = s.reducedCosts.map (k * ·) := by
  have hlength : (s.rescale k).objective.length = s.objective.length := List.length_map _
  rw [reducedCosts, reducedCosts, hlength, List.map_map]
  exact List.map_congr_left fun j _ => reducedCost_rescale k s j

/-- **The verdict at a state does not depend on the scale of its costs.** -/
theorem verdict_rescale {settings : Settings ℚ} (hk : k ≠ 0)
    (htol : |k| * settings.tolerance = settings.tolerance) (d : Direction) (s : State ℚ) :
    (s.rescale k).verdict settings (d.scaled k).sign = s.verdict settings d.sign := by
  have hprice : (s.rescale k).price (d.scaled k).sign settings.tolerance =
      s.price d.sign settings.tolerance := by
    rw [price, reducedCosts_rescale]
    exact firstImproving_map_mul (abs_pos.2 hk) (d.sign_scaled_mul k) htol _
  unfold verdict
  rw [hprice]
  rfl

/-! ### Making states -/

theorem settle_rescale (k : ℚ) {objective : List ℚ} {tableau : Tableau ℚ} {basis : List Nat}
    (iterations : Nat) (hcols : tableau.cols = objective.length + 1)
    (hcols' : tableau.cols = (objective.map (k * ·)).length + 1)
    (hbasis : basis.length = tableau.rows) :
    settle (objective.map (k * ·)) tableau basis iterations hcols' hbasis =
      (settle objective tableau basis iterations hcols hbasis).map (rescale k) := by
  unfold settle
  cases firstOutside basis tableau.cols with
  | some outside => rfl
  | none =>
      by_cases hcosts : ∀ b ∈ (tableau.repair basis).2, b < objective.length
      · have hcosts' : ∀ b ∈ (tableau.repair basis).2, b < (objective.map (k * ·)).length := by
          rw [List.length_map]
          exact hcosts
        simp only [dif_pos hcosts, dif_pos hcosts']
        rfl
      · have hcosts' : ¬∀ b ∈ (tableau.repair basis).2, b < (objective.map (k * ·)).length := by
          rw [List.length_map]
          exact hcosts
        simp only [dif_neg hcosts, dif_neg hcosts']
        rfl

theorem ofTableau_rescale (k : ℚ) (objective : List ℚ) (tableau : Tableau ℚ) (basis : List Nat) :
    ofTableau (objective.map (k * ·)) tableau basis =
      (ofTableau objective tableau basis).map (rescale k) := by
  unfold ofTableau
  by_cases hcols : tableau.cols = objective.length + 1
  · have hcols' : tableau.cols = (objective.map (k * ·)).length + 1 := by
      rw [List.length_map]
      exact hcols
    rw [dif_pos hcols, dif_pos hcols']
    split
    · exact settle_rescale k 0 hcols hcols' _
    · rfl
  · have hcols' : tableau.cols ≠ (objective.map (k * ·)).length + 1 := by
      rw [List.length_map]
      exact hcols
    rw [dif_neg hcols, dif_neg hcols']
    rfl

theorem exchange_rescale (k : ℚ) (s : State ℚ) (row col : Nat) :
    (s.rescale k).exchange row col = (s.exchange row col).map (rescale k) := by
  unfold exchange
  by_cases hinside : row < s.tableau.rows ∧ col < s.tableau.cols
  · rw [if_pos hinside]
    exact (if_pos hinside).trans (settle_rescale k s.iterations _ _ _)
  · rw [if_neg hinside]
    exact if_neg hinside

end State

/-! ### Passes -/

/-- The event of a solve whose program has costs that are `k` times as large. The search tells about
costs of its own. -/
def Event.rescale (k : ℚ) : Event ℚ → Event ℚ
  | .phaseStart .two s => .phaseStart .two (s.rescale k)
  | .exchange .two entering row s => .exchange .two entering row (s.rescale k)
  | .phaseEnd .two outcome value => .phaseEnd .two outcome (k * value)
  | e => e

/-- The second pass of a solve whose program has costs that are `k` times as large. -/
def Pass.rescale (k : ℚ) (pass : Pass ℚ) : Pass ℚ :=
  ⟨pass.outcome, pass.state.rescale k, pass.events.map (Event.rescale k)⟩

namespace State

variable {settings : Settings ℚ}

/-- **The loop makes the same exchanges whatever the scale.** -/
theorem improve_rescale (hk : k ≠ 0) (htol : |k| * settings.tolerance = settings.tolerance)
    (d : Direction) (room : Nat) (s : State ℚ) :
    improve settings .two (d.scaled k).sign room (s.rescale k) =
      (improve settings .two d.sign room s).map (Pass.rescale k) := by
  induction room using Nat.strongRecOn generalizing s with
  | ind room ih =>
      have hsame := verdict_rescale hk htol d s
      cases hverdict : s.verdict settings d.sign with
      | stop outcome =>
          rw [improve_of_stop hverdict, improve_of_stop (hsame.trans hverdict)]
          rfl
      | exchange row col =>
          have hnext' := exchange_rescale k s row col
          cases hnext : s.exchange row col with
          | error fault =>
              rw [hnext] at hnext'
              rw [improve_of_fault hverdict hnext,
                improve_of_fault (hsame.trans hverdict) hnext']
              rfl
          | ok next =>
              rw [hnext] at hnext'
              cases room with
              | zero =>
                  rw [improve_zero_of_exchange hverdict hnext,
                    improve_zero_of_exchange (hsame.trans hverdict) hnext']
                  rfl
              | succ left =>
                  rw [improve_of_exchange hverdict hnext,
                    improve_of_exchange (hsame.trans hverdict) hnext']
                  exact Fault.bind_eq_map (ih left left.lt_succ_self next.count) fun _ _ => rfl

theorem pass_rescale (hk : k ≠ 0) (htol : |k| * settings.tolerance = settings.tolerance)
    (d : Direction) (s : State ℚ) :
    (s.rescale k).pass settings .two (d.scaled k).sign =
      (s.pass settings .two d.sign).map (Pass.rescale k) := by
  unfold pass
  refine Fault.bind_eq_map (improve_rescale hk htol d s.room s) fun run _ => ?_
  simp only [Except.map, pure, Except.pure, Pass.rescale, List.cons_append, List.map_append,
    List.map_cons, List.map_nil, Event.rescale, objectiveValue_rescale]

end State

/-- The events of a search do not tell about the costs of the program. -/
theorem map_rescale_of_searchFeasible {form : EqualityForm ℚ} {settings : Settings ℚ}
    {search : FeasibilitySearch ℚ} (h : form.searchFeasible settings = .ok search) (k : ℚ) :
    search.events.map (Event.rescale k) = search.events := by
  obtain ⟨start, pass, -, hpass, -, hevents⟩ := EqualityForm.searchFeasible_eq_ok.1 h
  rw [hevents]
  refine (List.map_congr_left fun e he => ?_).trans (List.map_id _)
  rcases State.reaches_of_mem_pass hpass he with rfl | ⟨row, col, t, rfl, -⟩ | rfl <;> rfl

/-! ### Answers -/

/-- The number with the opposite sign, or the other end of the line. -/
def Extended.reversed : Extended ℚ → Extended ℚ
  | .negInfinity => .infinity
  | .number x => .number (-x)
  | .infinity => .negInfinity

/-- The answer to a program with costs that are `k` times as large: finite objective values and
reduced costs are multiplied by `k`. The infinite value of an unbounded answer lies where the
direction points to, and without a feasible point there is nothing to scale. -/
def Solution.rescale (k : ℚ) (solution : Solution ℚ) : Solution ℚ :=
  { solution with
    objectiveValue :=
      match solution.status, solution.objectiveValue with
      | _, .number x => .number (k * x)
      | .unbounded, limit => if k < 0 then limit.reversed else limit
      | _, limit => limit
    reducedCosts := solution.reducedCosts.map (k * ·) }

/-- The run of a program with costs that are `k` times as large. -/
def Run.rescale (k : ℚ) (run : Run ℚ) : Run ℚ :=
  ⟨run.solution.rescale k, run.events.map (Event.rescale k)⟩

/-- The exchange that an event tells about: its phase, the column that entered and its row. -/
def Event.exchange? : Event ℚ → Option (Phase × Nat × Nat)
  | .exchange phase entering row _ => some (phase, entering, row)
  | _ => none

/-- The exchanges of a run, the first one first. -/
def Run.exchanges (run : Run ℚ) : List (Phase × Nat × Nat) := run.events.filterMap Event.exchange?

theorem Run.exchanges_rescale (k : ℚ) (run : Run ℚ) :
    (run.rescale k).exchanges = run.exchanges := by
  have hkeeps : Event.exchange? ∘ Event.rescale k = Event.exchange? := by
    funext e
    rcases e with _ | ⟨phase, _⟩ | ⟨phase, _, _, _⟩ | ⟨phase, _, _⟩
    · rfl
    all_goals cases phase <;> rfl
  rw [exchanges, exchanges, rescale, List.filterMap_map, hkeeps]

/-! ### Programs -/

/-- The equality form depends on the number of costs only. -/
theorem EqualityForm.ofProgram_congr {p q : Program ℚ} (hcount : p.variableCount = q.variableCount)
    (hconstraints : p.constraints = q.constraints) : ofProgram p = ofProgram q := by
  simp only [ofProgram, cellOf, Program.startingColumn, Program.artificialColumn,
    Program.firstArtificial, Program.artificialRows, Program.constraintCount, hcount, hconstraints]
  -- the two sides differ by the instances that decide the tests
  congr!

namespace Program

/-- The program with costs that are `k` times as large, to be optimised in the direction that makes
up for the sign of `k`. -/
def rescale (k : ℚ) (p : Program ℚ) : Program ℚ :=
  ⟨p.direction.scaled k, p.objective.map (k * ·), p.constraints⟩

variable {p : Program ℚ} {settings : Settings ℚ}

@[simp] theorem variableCount_rescale (k : ℚ) (p : Program ℚ) :
    (p.rescale k).variableCount = p.variableCount := List.length_map _

theorem ofProgram_rescale (k : ℚ) (p : Program ℚ) :
    EqualityForm.ofProgram (p.rescale k) = EqualityForm.ofProgram p :=
  EqualityForm.ofProgram_congr (variableCount_rescale k p) rfl

theorem mismatch_rescale (k : ℚ) (p : Program ℚ) : (p.rescale k).mismatch = p.mismatch := by
  unfold mismatch
  rw [variableCount_rescale]
  rfl

theorem extendedCosts_rescale (k : ℚ) (p : Program ℚ) :
    (p.rescale k).extendedCosts = p.extendedCosts.map (k * ·) := by
  rw [extendedCosts, extendedCosts, List.map_append, List.map_replicate, mul_zero]
  rfl

theorem solutionOf_rescale (k : ℚ) (p : Program ℚ) (pass : Pass ℚ) (iterations : Nat) :
    (p.rescale k).solutionOf (pass.rescale k) iterations =
      (p.solutionOf pass iterations).rescale k := by
  have hstate : ∀ status : Status,
      Solution.ofState status (pass.state.rescale k) (p.rescale k).variableCount iterations =
        (Solution.ofState status pass.state p.variableCount iterations).rescale k := by
    intro status
    have hlength : (pass.state.rescale k).objective.length = pass.state.objective.length :=
      List.length_map _
    have hcosts : (pass.state.rescale k).reducedCosts.map (· + 0) =
        (pass.state.reducedCosts.map (· + 0)).map (k * ·) := by
      simp only [State.reducedCosts_rescale, add_zero, List.map_id']
    have hvalue : k * pass.state.objectiveValue + 0 = k * (pass.state.objectiveValue + 0) := by
      rw [add_zero, add_zero]
    rw [Solution.ofState, hlength, hcosts, State.objectiveValue_rescale, hvalue,
      variableCount_rescale]
    cases status <;> rfl
  have hlimit : Solution.unbounded (p.direction.scaled k) iterations p.variableCount =
      (Solution.unbounded p.direction iterations p.variableCount).rescale k := by
    unfold Direction.scaled
    by_cases hneg : k < 0
    · rw [if_pos hneg]
      cases p.direction <;> simp [Direction.reversed, Solution.unbounded, Solution.withoutPoint,
        Solution.rescale, Extended.reversed, hneg]
    · rw [if_neg hneg]
      cases p.direction <;> simp [Solution.unbounded, Solution.withoutPoint, Solution.rescale, hneg]
  unfold solutionOf
  rw [show (pass.rescale k).outcome = pass.outcome from rfl]
  cases pass.outcome with
  | optimal => exact hstate .optimal
  | unbounded =>
      rw [variableCount_rescale]
      exact hlimit
  | exhausted => exact hstate .exhausted

theorem secondPhase_rescale (hk : k ≠ 0) (htol : |k| * settings.tolerance = settings.tolerance)
    (tableau : Tableau ℚ) (basis : List Nat) (earlier : Nat) :
    (p.rescale k).secondPhase settings tableau basis earlier =
      (p.secondPhase settings tableau basis earlier).map (Run.rescale k) := by
  unfold secondPhase
  have hstart : State.ofTableau (p.rescale k).extendedCosts tableau basis = _ :=
    (congrArg (State.ofTableau · tableau basis) (extendedCosts_rescale k p)).trans
      (State.ofTableau_rescale k p.extendedCosts tableau basis)
  refine Fault.bind_eq_map hstart fun start _ => ?_
  refine Fault.bind_eq_map (State.pass_rescale hk htol p.direction start) fun pass _ => ?_
  refine Fault.bind_eq_map_of_same fun iterations _ => ?_
  rw [solutionOf_rescale]
  rfl

/-- **Scaling the costs changes no exchange**, in terms of results: the two solves have the same
fault, or one run is the other with its costs scaled. -/
theorem solveFitting_rescale (hk : k ≠ 0) (htol : |k| * settings.tolerance = settings.tolerance) :
    (p.rescale k).solveFitting settings = (p.solveFitting settings).map (Run.rescale k) := by
  unfold solveFitting
  rw [ofProgram_rescale]
  dsimp only
  split
  · refine Fault.bind_eq_map_of_same fun search hsearch => ?_
    have hevents : ∀ tableau hasArtificials,
        (Event.prepared tableau hasArtificials :: search.events).map (Event.rescale k) =
          .prepared tableau hasArtificials :: search.events := fun _ _ =>
      congrArg _ (map_rescale_of_searchFeasible hsearch k)
    cases search.result with
    | feasible tableau basis iterations =>
        refine Fault.bind_eq_map (secondPhase_rescale hk htol _ _ _) fun run _ => ?_
        simp only [Except.map, pure, Except.pure, Run.rescale, List.map_append, hevents]
    | infeasible iterations =>
        simp only [Except.map, pure, Except.pure, Run.rescale, hevents, variableCount_rescale]
        rfl
    | exhausted iterations =>
        simp only [Except.map, pure, Except.pure, Run.rescale, hevents, variableCount_rescale]
        rfl
  · exact Fault.bind_eq_map (secondPhase_rescale hk htol _ _ _) fun _ _ => rfl

/-- The same for programs of any form. -/
theorem solve_eq_map_rescale (hk : k ≠ 0) (hexact : settings.tolerance = 0 ∨ k = -1) :
    (p.rescale k).solve settings = (p.solve settings).map (Run.rescale k) := by
  have htol : |k| * settings.tolerance = settings.tolerance := by
    rcases hexact with hzero | rfl
    · rw [hzero, mul_zero]
    · rw [abs_neg, abs_one, one_mul]
  unfold solve
  rw [mismatch_rescale, solveFitting_rescale hk htol]
  cases p.mismatch with
  | some e => rfl
  | none => cases p.solveFitting settings <;> rfl

/-- **Direction and scale of the objective are a matter of notation.** With costs that are `k` times
as large, and the other direction if `k` is negative, a solve has the same error or makes the same
exchanges in both phases. It ends with the same status, number of exchanges and values; finite
objective values and all reduced costs are multiplied by `k`. This takes a tolerance of zero, or a
`k` of minus one, so that maximising a cost and minimising its opposite are mirror images under any
tolerance. -/
theorem solve_rescale (p : Program ℚ) (settings : Settings ℚ) {k : ℚ} (hk : k ≠ 0)
    (hexact : settings.tolerance = 0 ∨ k = -1) :
    (∀ e, (p.rescale k).solve settings = .error e ↔ p.solve settings = .error e) ∧
    ∀ run, p.solve settings = .ok run → ∃ run', (p.rescale k).solve settings = .ok run' ∧
      run'.exchanges = run.exchanges ∧
      run'.solution.status = run.solution.status ∧
      run'.solution.iterations = run.solution.iterations ∧
      run'.solution.values = run.solution.values ∧
      run'.solution.variableCount = run.solution.variableCount ∧
      (∀ x, run.solution.objectiveValue = .number x →
        run'.solution.objectiveValue = .number (k * x)) ∧
      run'.solution.reducedCosts = run.solution.reducedCosts.map (k * ·) := by
  have hsame := solve_eq_map_rescale (p := p) hk hexact
  constructor
  · intro e
    rw [hsame]
    cases p.solve settings with
    | error e' => exact Iff.rfl
    | ok run => exact ⟨nofun, nofun⟩
  · intro run hrun
    rw [hrun] at hsame
    refine ⟨run.rescale k, hsame, run.exchanges_rescale k, rfl, rfl, rfl, rfl, fun x hx => ?_, rfl⟩
    show (run.solution.rescale k).objectiveValue = _
    unfold Solution.rescale
    rw [hx]

/-- With costs that are `-3/2` times as large a program of both phases is to be minimised, and with
the opposite costs also under the standard tolerance. -/
theorem solve_rescale_both_phases :
    let p : Program ℚ := ⟨.maximize, [2, 1],
      [⟨[1, 1], .atLeast, 1⟩, ⟨[1, 2], .atMost, 4⟩, ⟨[1, -1], .equal, 1⟩]⟩
    (-3 / 2 : ℚ) ≠ 0 ∧ p.rescale (-3 / 2) = ⟨.minimize, [-3, -3 / 2], p.constraints⟩ ∧
      (∃ run run', p.solve ⟨none, 0⟩ = .ok run ∧
        (p.rescale (-3 / 2)).solve ⟨none, 0⟩ = .ok run' ∧
        run.exchanges = [(.one, 0, 0), (.one, 2, 2), (.two, 1, 1)] ∧
        run'.exchanges = run.exchanges ∧ run'.solution.values = run.solution.values ∧
        run.solution.objectiveValue = .number 5 ∧
        run'.solution.objectiveValue = .number (-3 / 2 * 5)) ∧
      ∃ run run', p.solve .standard = .ok run ∧ (p.rescale (-1)).solve .standard = .ok run' ∧
        run'.exchanges = run.exchanges ∧
        run'.solution.reducedCosts = run.solution.reducedCosts.map (-1 * ·) := by
  intro p
  have hfactor : (-3 / 2 : ℚ) ≠ 0 := by decide +kernel
  have hscaled : p.rescale (-3 / 2) = ⟨.minimize, [-3, -3 / 2], p.constraints⟩ := by decide +kernel
  have hsolve : (p.solve ⟨none, 0⟩).map (fun run => (run.exchanges, run.solution.objectiveValue)) =
      .ok ([(.one, 0, 0), (.one, 2, 2), (.two, 1, 1)], .number 5) := by decide +kernel
  have hstandard : (p.solve .standard).map (·.solution.status) = .ok .optimal := by decide +kernel
  refine ⟨hfactor, hscaled, ?_, ?_⟩
  · obtain ⟨-, hruns⟩ := solve_rescale p ⟨none, 0⟩ hfactor (Or.inl rfl)
    cases hrun : p.solve ⟨none, 0⟩ with
    | error e => rw [hrun] at hsolve; cases hsolve
    | ok run =>
        rw [hrun] at hsolve
        obtain ⟨hexchanges, hvalue⟩ := Prod.mk.inj (Except.ok.inj hsolve)
        obtain ⟨run', hrun', hsame, -, -, hvalues, -, hscale, -⟩ := hruns run hrun
        exact ⟨run, run', rfl, hrun', hexchanges, hsame, hvalues, hvalue, hscale 5 hvalue⟩
  · obtain ⟨-, hruns⟩ := solve_rescale p .standard (neg_ne_zero.2 one_ne_zero) (Or.inr rfl)
    cases hrun : p.solve .standard with
    | error e => rw [hrun] at hstandard; cases hstandard
    | ok run =>
        obtain ⟨run', hrun', hsame, -, -, -, -, -, hcosts⟩ := hruns run hrun
        exact ⟨run, run', rfl, hrun', hsame, hcosts⟩

end Program

end SimplexMethod
