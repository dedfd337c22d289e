import SimplexMethod.Proofs.Transcript

/-!
# SimplexMethod.Proofs.Caps

**A cap only cuts a run short.** The cap is looked at in one place, the verdict at a state, and only
where a column enters. So two solves with caps of different length take the same steps for as long
as the shorter cap is not reached where a column enters (`State.verdict_of_relaxed`), and if that
never happens they are the same solve.

The comparison is made once for the loop, along `State.Improves`, and then carried outwards, level
by level. At every level it has two halves: a run that was not cut short is also the run with the
longer cap, and what a run tells before its last event is told by the run with the longer cap as
well. In the second phase the counter starts afresh, so the exchanges of the search do not use up
any of its cap.

Nothing is assumed of the numbers.
-/

namespace SimplexMethod

variable {K : Type}

/-- The second settings use the same tolerance, and leave room for an exchange wherever the first
ones do. -/
structure Settings.Relaxed (settings settings' : Settings K) : Prop where
  tolerance : settings'.tolerance = settings.tolerance
  cap : ∀ n, settings.capReached n = false → settings'.capReached n = false

theorem Settings.relaxed_of_le (tolerance : K) {m : Nat} {cap : Option Nat}
    (hle : ∀ m', cap = some m' → m ≤ m') :
    Settings.Relaxed ⟨some m, tolerance⟩ ⟨cap, tolerance⟩ := by
  refine ⟨rfl, fun n hn => Bool.eq_false_iff.2 fun hreached => ?_⟩
  obtain ⟨m', hcap, hm'⟩ := capReached_eq_true.1 hreached
  have hlt := lt_of_capReached rfl hn
  have hlonger := hle m' hcap
  omega

namespace State

section Verdict

variable [Zero K] [Neg K] [Add K] [Mul K] [Div K] [LT K] [DecidableLT K] [Selectable K]

/-- **The cap has no say in which exchange is made**, only in whether one is made. -/
theorem verdict_of_relaxed {settings settings' : Settings K} (h : settings.Relaxed settings')
    {sign : K} {s : State K} (hs : s.verdict settings sign ≠ .stop .exhausted) :
    s.verdict settings' sign = s.verdict settings sign := by
  rw [ne_eq, verdict_eq_exhausted] at hs
  unfold verdict
  rw [h.tolerance]
  cases hprice : s.price sign settings.tolerance with
  | none => rfl
  | some col =>
      have hroom : settings.capReached s.iterations = false :=
        Bool.eq_false_iff.2 fun hreached => hs ⟨hreached, by simp [hprice]⟩
      simp only [hroom, h.cap _ hroom]

end Verdict

variable [Zero K] [One K] [Neg K] [Add K] [Sub K] [Mul K] [Div K] [LT K] [DecidableLT K] [LE K]
  [DecidableLE K] [BEq K] [Selectable K] {settings settings' : Settings K} {phase : Phase}
  {sign : K} {s : State K} {pass : Pass K}

/-! ### Passes -/

/-- **The loop under a longer cap** goes the same way for as long as the shorter cap lets it. -/
theorem Improves.of_relaxed (h : settings.Relaxed settings') {room : Nat}
    (hrun : Improves settings phase sign room s pass) :
    (pass.outcome ≠ .exhausted → improve settings' phase sign room s = .ok pass) ∧
      ∀ pass', improve settings' phase sign room s = .ok pass' → pass.events <+: pass'.events := by
  induction hrun with
  | @stop room s outcome hverdict =>
      refine ⟨fun houtcome => ?_, fun _ _ => List.nil_prefix⟩
      have hfinished : s.verdict settings sign ≠ .stop .exhausted := by
        simpa [hverdict] using houtcome
      exact improve_of_stop ((verdict_of_relaxed h hfinished).trans hverdict)
  | @exchange room s next row col rest hverdict hnext _ ih =>
      have hgoes : s.verdict settings sign ≠ .stop .exhausted := by simp [hverdict]
      have hsame := (verdict_of_relaxed h hgoes).trans hverdict
      have hloop : improve settings' phase sign (room + 1) s = _ := improve_of_exchange hsame hnext
      constructor
      · intro houtcome
        rw [hloop, ih.1 houtcome]
        rfl
      · intro pass' hpass'
        rw [hloop] at hpass'
        obtain ⟨rest', hrest', hpass'⟩ := Fault.bind_eq_ok.1 hpass'
        cases hpass'
        exact (List.prefix_cons_inj _).2 (ih.2 rest' hrest')

/-- A whole pass under a longer cap. -/
theorem pass_of_relaxed (h : settings.Relaxed settings')
    (hpass : s.pass settings phase sign = .ok pass) :
    (pass.outcome ≠ .exhausted → s.pass settings' phase sign = .ok pass) ∧
      ∃ told, pass.events =
          told ++ [.phaseEnd phase pass.outcome pass.state.objectiveValue] ∧
        ∀ pass', s.pass settings' phase sign = .ok pass' → told <+: pass'.events := by
  obtain ⟨run, hrun, rfl⟩ := pass_eq_ok.1 hpass
  obtain ⟨hsame, htold⟩ := (improves_of_improve hrun).of_relaxed h
  refine ⟨fun houtcome => ?_, .phaseStart phase s :: run.events, rfl, fun pass' hpass' => ?_⟩
  · exact pass_eq_ok.2 ⟨run, hsame houtcome, rfl⟩
  · obtain ⟨run', hrun', rfl⟩ := pass_eq_ok.1 hpass'
    exact ((List.prefix_cons_inj _).2 (htold run' hrun')).trans (List.prefix_append _ _)

end State

/-! ### Phases -/

variable [Zero K] [One K] [Neg K] [Add K] [Sub K] [Mul K] [Div K] [LT K] [DecidableLT K] [LE K]
  [DecidableLE K] [BEq K] [Selectable K] {settings settings' : Settings K}

namespace EqualityForm

variable {form : EqualityForm K} {search : FeasibilitySearch K}

/-- A search under a longer cap. -/
theorem searchFeasible_of_relaxed (h : settings.Relaxed settings')
    (hsearch : form.searchFeasible settings = .ok search) :
    ((¬∃ iterations, search.result = .exhausted iterations) →
        form.searchFeasible settings' = .ok search) ∧
      ∃ told outcome value, search.events = told ++ [.phaseEnd .one outcome value] ∧
        (outcome = .exhausted ↔ ∃ iterations, search.result = .exhausted iterations) ∧
        ∀ search', form.searchFeasible settings' = .ok search' → told <+: search'.events := by
  obtain ⟨start, pass, hstart, hpass, hresult, hevents⟩ := searchFeasible_eq_ok.1 hsearch
  obtain ⟨hsame, told, htold, hlonger⟩ := State.pass_of_relaxed h hpass
  have hexhausted := exhausted_of_feasibilityOf hresult
  refine ⟨fun hcut => ?_, told, pass.outcome, _, hevents.trans htold, hexhausted,
    fun search' hsearch' => ?_⟩
  · -- what the last state says depends on the tolerance alone
    have hresult' : form.feasibilityOf settings' pass = .ok search.result := by
      rw [← hresult]
      unfold feasibilityOf
      rw [h.tolerance]
    exact searchFeasible_eq_ok.2
      ⟨start, pass, hstart, hsame fun houtcome => hcut (hexhausted.1 houtcome), hresult', hevents⟩
  · obtain ⟨start', pass', hstart', hpass', -, hevents'⟩ := searchFeasible_eq_ok.1 hsearch'
    rw [hstart] at hstart'
    cases hstart'
    rw [hevents']
    exact hlonger pass' hpass'

end EqualityForm

namespace Program

variable {p : Program K} {run : Run K}

/-- A second phase under a longer cap. -/
theorem secondPhase_of_relaxed (h : settings.Relaxed settings') {tableau : Tableau K}
    {basis : List Nat} {earlier : Nat}
    (hrun : p.secondPhase settings tableau basis earlier = .ok run) :
    (run.solution.status ≠ .exhausted →
        p.secondPhase settings' tableau basis earlier = .ok run) ∧
      (run.solution.status = .exhausted → ∃ told value,
        run.events = told ++ [.phaseEnd .two .exhausted value] ∧
        ∀ run', p.secondPhase settings' tableau basis earlier = .ok run' →
          told <+: run'.events) := by
  obtain ⟨start, pass, hstart, hpass, hroom, rfl⟩ := secondPhase_eq_ok.1 hrun
  obtain ⟨hsame, told, htold, hlonger⟩ := State.pass_of_relaxed h hpass
  rw [status_solutionOf]
  have hexhausted : pass.outcome.status = .exhausted ↔ pass.outcome = .exhausted := by
    cases pass.outcome <;> simp [Outcome.status]
  rw [ne_eq, hexhausted]
  refine ⟨fun houtcome => ?_, fun houtcome => ⟨told, _, houtcome ▸ htold, fun run' hrun' => ?_⟩⟩
  · exact secondPhase_eq_ok.2 ⟨start, pass, hstart, hsame houtcome, hroom, rfl⟩
  · obtain ⟨start', pass', hstart', hpass', -, rfl⟩ := secondPhase_eq_ok.1 hrun'
    rw [hstart] at hstart'
    cases hstart'
    exact hlonger pass' hpass'

/-! ### Solving -/

/-- **A run that was not cut short** is put together in the same way under a longer cap. -/
theorem Assembles.of_relaxed (h : settings.Relaxed settings') (hrun : p.Assembles settings run)
    (hstatus : run.solution.status ≠ .exhausted) : p.Assembles settings' run := by
  cases hrun with
  | direct hnone hsecond => exact .direct hnone ((secondPhase_of_relaxed h hsecond).1 hstatus)
  | searched hartificials hsearch hsecond =>
      exact .searched hartificials
        ((EqualityForm.searchFeasible_of_relaxed h hsearch).1 nofun)
        ((secondPhase_of_relaxed h hsecond).1 hstatus)
  | infeasible hartificials hsearch =>
      exact .infeasible hartificials
        ((EqualityForm.searchFeasible_of_relaxed h hsearch).1 nofun)
  | exhausted _ _ => exact absurd rfl hstatus

/-- Whatever becomes of a search, a run tells all that the search tells. -/
theorem Assembles.exists_search (h : p.Assembles settings run)
    (hartificials : (EqualityForm.ofProgram p).hasArtificials = true) :
    ∃ search, (EqualityForm.ofProgram p).searchFeasible settings = .ok search ∧
      .prepared (EqualityForm.ofProgram p).tableau true :: search.events <+: run.events := by
  cases h with
  | direct hnone _ => rw [hartificials] at hnone; cases hnone
  | searched _ hsearch _ =>
      exact ⟨_, hsearch, (List.prefix_cons_inj _).2 (List.prefix_append _ _)⟩
  | infeasible _ hsearch => exact ⟨_, hsearch, List.prefix_rfl⟩
  | exhausted _ hsearch => exact ⟨_, hsearch, List.prefix_rfl⟩

/-- **What a run tells before it is cut short**, the run under a longer cap tells as well. -/
theorem Assembles.exists_told (h : settings.Relaxed settings') (hrun : p.Assembles settings run)
    (hstatus : run.solution.status = .exhausted) :
    ∃ told phase value, run.events = told ++ [.phaseEnd phase .exhausted value] ∧
      ∀ run', p.Assembles settings' run' → told <+: run'.events := by
  cases hrun with
  | direct hnone hsecond =>
      obtain ⟨told, value, htold, hlonger⟩ := (secondPhase_of_relaxed h hsecond).2 hstatus
      refine ⟨_ :: told, .two, value, congrArg _ htold, fun run' hrun' => ?_⟩
      cases hrun' with
      | direct _ hsecond' => exact (List.prefix_cons_inj _).2 (hlonger _ hsecond')
      | searched hartificials _ _ => rw [hnone] at hartificials; cases hartificials
      | infeasible hartificials _ => rw [hnone] at hartificials; cases hartificials
      | exhausted hartificials _ => rw [hnone] at hartificials; cases hartificials
  | @searched tableau basis iterations events second hartificials hsearch hsecond =>
      obtain ⟨told, value, htold, hlonger⟩ := (secondPhase_of_relaxed h hsecond).2 hstatus
      -- the search was not cut short, so it is the same one
      have hsame := (EqualityForm.searchFeasible_of_relaxed h hsearch).1 nofun
      refine ⟨.prepared (EqualityForm.ofProgram p).tableau true :: (events ++ told), .two, value,
        ?_, fun run' hrun' => ?_⟩
      · rw [htold, List.cons_append, List.append_assoc]
      · cases hrun' with
        | direct hnone _ => rw [hartificials] at hnone; cases hnone
        | searched _ hsearch' hsecond' =>
            rw [hsame] at hsearch'
            cases hsearch'
            exact (List.prefix_cons_inj _).2
              ((List.prefix_append_right_inj events).2 (hlonger _ hsecond'))
        | infeasible _ hsearch' => rw [hsame] at hsearch'; cases hsearch'
        | exhausted _ hsearch' => rw [hsame] at hsearch'; cases hsearch'
  | infeasible _ _ => cases hstatus
  | exhausted hartificials hsearch =>
      obtain ⟨-, told, outcome, value, htold, hcut, hlonger⟩ :=
        EqualityForm.searchFeasible_of_relaxed h hsearch
      obtain rfl : outcome = .exhausted := hcut.2 ⟨_, rfl⟩
      refine ⟨_ :: told, .one, value, congrArg _ htold, fun run' hrun' => ?_⟩
      obtain ⟨search', hsearch', hprefix⟩ := hrun'.exists_search hartificials
      exact ((List.prefix_cons_inj _).2 (hlonger search' hsearch')).trans hprefix

/-- **A cap only cuts a run short.** A solve that ends before its cap is reached is the same under
any longer cap, and without one, with the same answer and the same events. A solve that is cut short
has told, up to the end of the phase it was in, what the solve under a longer cap begins with. -/
theorem solve_of_longer_cap (p : Program K) (tolerance : K) {m : Nat} {cap : Option Nat}
    (hle : ∀ m', cap = some m' → m ≤ m') {run : Run K}
    (hrun : p.solve ⟨some m, tolerance⟩ = .ok run) :
    (run.solution.status ≠ .exhausted → p.solve ⟨cap, tolerance⟩ = .ok run) ∧
      (run.solution.status = .exhausted → ∃ told phase value,
        run.events = told ++ [.phaseEnd phase .exhausted value] ∧
        ∀ run', p.solve ⟨cap, tolerance⟩ = .ok run' → told <+: run'.events) := by
  have hrelaxed := Settings.relaxed_of_le tolerance hle
  obtain ⟨hfit, hassembles⟩ := solve_eq_ok.1 hrun
  constructor
  · intro hstatus
    exact solve_eq_ok.2 ⟨hfit, hassembles.of_relaxed hrelaxed hstatus⟩
  · intro hstatus
    obtain ⟨told, phase, value, htold, hlonger⟩ := hassembles.exists_told hrelaxed hstatus
    exact ⟨told, phase, value, htold, fun run' hrun' => hlonger run' (solve_eq_ok.1 hrun').2⟩

/-- Two exchanges in a phase are enough for this program, and one is not: the second phase is cut
short after its first exchange, although the search has made only one as well. -/
theorem solve_of_longer_cap_second_phase :
    let p : Program ℚ := ⟨.maximize, [5, 4, 3], [⟨[1, 1, 1], .atLeast, 1⟩, ⟨[2, 3, 1], .atMost, 5⟩,
      ⟨[4, 1, 2], .atMost, 11⟩, ⟨[3, 4, 2], .atMost, 8⟩]⟩
    (p.solve ⟨some 2, 0⟩).map (·.solution.status) = .ok .optimal ∧
      p.solve ⟨none, 0⟩ = p.solve ⟨some 2, 0⟩ ∧
      ∃ run told value, p.solve ⟨some 1, 0⟩ = .ok run ∧
        run.events = told ++ [.phaseEnd .two .exhausted value] ∧
        ∀ run', p.solve ⟨some 2, 0⟩ = .ok run' → told <+: run'.events := by
  intro p
  have henough : (p.solve ⟨some 2, 0⟩).map (·.solution.status) = .ok .optimal := by decide +kernel
  have hshort : (p.solve ⟨some 1, 0⟩).map (fun run => (run.solution.status, run.events.getLast?)) =
      .ok (.exhausted, some (.phaseEnd .two .exhausted (25 / 2))) := by decide +kernel
  refine ⟨henough, ?_, ?_⟩
  · cases hrun : p.solve ⟨some 2, 0⟩ with
    | error e => rw [hrun] at henough; cases henough
    | ok run =>
        rw [hrun] at henough
        have hstatus : run.solution.status = .optimal := Except.ok.inj henough
        have hle : ∀ m', none = some m' → 2 ≤ m' := nofun
        exact (solve_of_longer_cap p 0 hle hrun).1 (by rw [hstatus]; decide)
  · cases hrun : p.solve ⟨some 1, 0⟩ with
    | error e => rw [hrun] at hshort; cases hshort
    | ok run =>
        rw [hrun] at hshort
        obtain ⟨hstatus, hlast⟩ := Prod.mk.inj (Except.ok.inj hshort)
        have hle : ∀ m', some 2 = some m' → 1 ≤ m' := by
          rintro _ ⟨⟩
          exact Nat.le_succ 1
        obtain ⟨told, phase, value, htold, hlonger⟩ := (solve_of_longer_cap p 0 hle hrun).2 hstatus
        rw [htold, List.getLast?_concat] at hlast
        cases hlast
        exact ⟨run, told, 25 / 2, rfl, htold, hlonger⟩

end Program

end SimplexMethod
