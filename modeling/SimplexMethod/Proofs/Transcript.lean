import Mathlib.Algebra.Order.Field.Rat
import SimplexMethod.Proofs.Assembly
import SimplexMethod.Proofs.Reach

/-!
# SimplexMethod.Proofs.Transcript

**What a solve tells, event by event.** A `Transcript` is all that there is to tell about one phase:
the state that it begins at, the exchanges one after the other and how it ends. Its events are laid
out by `Transcript.events`, and `Transcript.Counts` says how the exchanges are numbered and how
their number stands to the cap.

What one pass tells (`exists_transcript_of_pass`) is an induction along `State.Improves`. What a
solve tells is put together from that, case by case of `Program.Assembles`.

Nothing is assumed of the numbers. In particular no comparison has to be decided in any reasonable
way, so all of this holds with NaN and infinities about.
-/

namespace SimplexMethod

variable {K : Type}

/-- How a solve ends if its second phase ends in this way. -/
def Outcome.status : Outcome → Status
  | .optimal => .optimal
  | .unbounded => .unbounded
  | .exhausted => .exhausted

/-- An exchange as it is told about: the column that entered, its row, and the state after it, with
the exchange counted. -/
structure Exchange (K : Type) where
  entering : Nat
  row : Nat
  state : State K

/-- The event that tells about an exchange of a phase. -/
def Exchange.event (phase : Phase) (e : Exchange K) : Event K :=
  .exchange phase e.entering e.row e.state

/-- All that there is to tell about a phase. -/
structure Transcript (K : Type) where
  /-- The state at the start. -/
  start : State K
  /-- The exchanges, the first one first. -/
  exchanges : List (Exchange K)
  /-- How the phase ended. -/
  outcome : Outcome

namespace Transcript

/-- The last state that is told about: that after the last exchange, or the one at the start if
there was no exchange. -/
def last (t : Transcript K) : State K := (t.exchanges.map (·.state)).getLastD t.start

section Events

variable [Zero K] [Neg K] [Add K] [Mul K]

/-- The events of the phase. The one at the end has the objective value of the last state told
about. -/
def events (phase : Phase) (t : Transcript K) : List (Event K) :=
  .phaseStart phase t.start :: t.exchanges.map (·.event phase) ++
    [.phaseEnd phase t.outcome t.last.objectiveValue]

variable [LT K] [DecidableLT K] [Selectable K]

/-- How the exchanges of a phase are counted: from 1 on and never beyond the cap. The phase ends
exhausted exactly if it made as many exchanges as the cap allows and some column still enters. -/
structure Counts (settings : Settings K) (sign : K) (t : Transcript K) : Prop where
  numbers : t.exchanges.map (·.state.iterations) = List.range' 1 t.exchanges.length
  within : ∀ m, settings.cap = some m → t.exchanges.length ≤ m
  exhausted_iff : t.outcome = .exhausted ↔
    settings.cap = some t.exchanges.length ∧ t.last.price sign settings.tolerance ≠ none

end Events

end Transcript

/-! ### Caps -/

namespace Settings

variable {settings : Settings K} {n : Nat}

theorem capReached_eq_true : settings.capReached n = true ↔ ∃ m, settings.cap = some m ∧ m ≤ n := by
  unfold capReached
  cases settings.cap with
  | none => simp
  | some m => simp

/-- Below the cap there is room for one more exchange. -/
theorem lt_of_capReached {m : Nat} (hcap : settings.cap = some m)
    (h : settings.capReached n = false) : n < m := by
  refine Nat.lt_of_not_le fun hle => ?_
  rw [capReached_eq_true.2 ⟨m, hcap, hle⟩] at h
  cases h

end Settings

namespace State

section Verdict

variable [Zero K] [Neg K] [Add K] [Mul K] [Div K] [LT K] [DecidableLT K] [Selectable K]

/-- A pass is cut short exactly where a column enters although the cap is reached. -/
theorem verdict_eq_exhausted {s : State K} {settings : Settings K} {sign : K} :
    s.verdict settings sign = .stop .exhausted ↔
      settings.capReached s.iterations = true ∧ s.price sign settings.tolerance ≠ none := by
  unfold verdict
  cases s.price sign settings.tolerance with
  | none => simp
  | some col =>
      cases settings.capReached s.iterations with
      | true => simp
      | false =>
          -- the ratio test decides between the other two verdicts
          cases hratio : s.tableau.ratioTest col settings.tolerance <;> simp [hratio]

end Verdict

variable [Zero K] [One K] [Neg K] [Add K] [Sub K] [Mul K] [Div K] [LT K] [DecidableLT K] [LE K]
  [DecidableLE K] [BEq K] [Selectable K] {settings : Settings K} {phase : Phase} {sign : K}
  {s : State K} {pass : Pass K}

/-! ### What a pass tells -/

/-- What the loop adds to the events told so far. -/
structure Tells (settings : Settings K) (phase : Phase) (s : State K) (room : Nat) (pass : Pass K)
    (exchanges : List (Exchange K)) : Prop where
  events : pass.events = exchanges.map (·.event phase)
  last : (exchanges.map (·.state)).getLastD s = pass.state
  numbers : exchanges.map (·.state.iterations) = List.range' (s.iterations + 1) exchanges.length
  iterations : pass.state.iterations = s.iterations + exchanges.length
  room : exchanges.length ≤ room
  within : ∀ m, settings.cap = some m → s.iterations ≤ m → s.iterations + exchanges.length ≤ m

/-- **The loop tells about its exchanges one by one**, each with the next number. -/
theorem Improves.exists_tells {room : Nat} (h : Improves settings phase sign room s pass) :
    ∃ exchanges, Tells settings phase s room pass exchanges := by
  induction h with
  | stop _ => exact ⟨[], rfl, rfl, rfl, rfl, Nat.zero_le _, fun m _ hm => hm⟩
  | @exchange room s next row col rest hverdict hnext _ ih =>
      obtain ⟨exchanges, hevents, hlast, hnumbers, hiterations, hroom, hwithin⟩ := ih
      have hcount : next.count.iterations = s.iterations + 1 :=
        congrArg (· + 1) (exchange_eq_ok hnext).2.2
      rw [hcount] at hnumbers hiterations hwithin
      refine ⟨⟨col, row, next.count⟩ :: exchanges, ?_, ?_, ?_, ?_, ?_, fun m hcap _ => ?_⟩
      · exact congrArg _ hevents
      · rw [List.map_cons, List.getLastD_cons]
        exact hlast
      · rw [List.map_cons, hnumbers, List.length_cons, List.range'_succ, hcount]
      · rw [hiterations, List.length_cons]
        omega
      · exact Nat.succ_le_succ hroom
      · -- the exchange was made below the cap
        have hlt := Settings.lt_of_capReached hcap (verdict_eq_exchange hverdict).2.1
        have hrest := hwithin m hcap hlt
        rw [List.length_cons]
        omega

/-- **What a whole pass tells**, from a state without exchanges on its count. -/
theorem exists_transcript_of_pass (hs : s.iterations = 0)
    (h : s.pass settings phase sign = .ok pass) :
    ∃ t : Transcript K, pass.events = t.events phase ∧ t.start = s ∧ t.last = pass.state ∧
      t.outcome = pass.outcome ∧ t.exchanges.length = pass.state.iterations ∧
      pass.state.iterations < counterLimit ∧ t.Counts settings sign := by
  obtain ⟨run, hrun, rfl⟩ := pass_eq_ok.1 h
  obtain ⟨exchanges, hevents, hlast, hnumbers, hiterations, hroom, hwithin⟩ :=
    (improves_of_improve hrun).exists_tells
  have hverdict := (reaches_of_improve hrun).2
  rw [hs, Nat.zero_add] at hnumbers hiterations hwithin
  have hcount : ∀ m, settings.cap = some m → exchanges.length ≤ m :=
    fun m hcap => hwithin m hcap (Nat.zero_le m)
  refine ⟨⟨s, exchanges, run.outcome⟩, ?_, rfl, hlast, rfl, hiterations.symm, ?_,
    ⟨hnumbers, hcount, ?_⟩⟩
  · rw [Transcript.events, Transcript.last, hlast, ← hevents]
  · have hlimit : s.room < counterLimit := by
      unfold room counterLimit
      omega
    exact hiterations ▸ Nat.lt_of_le_of_lt hroom hlimit
  · -- the verdict at the last state is what the phase ended with
    rw [show (⟨s, exchanges, run.outcome⟩ : Transcript K).last = run.state from hlast]
    constructor
    · intro hexhausted
      rw [show run.outcome = .exhausted from hexhausted, verdict_eq_exhausted,
        Settings.capReached_eq_true, hiterations] at hverdict
      obtain ⟨⟨m, hcap, hm⟩, hprice⟩ := hverdict
      exact ⟨hcap.trans (congrArg some (Nat.le_antisymm hm (hcount m hcap))), hprice⟩
    · rintro ⟨hcap, hprice⟩
      have hreached : settings.capReached run.state.iterations = true :=
        Settings.capReached_eq_true.2 ⟨_, hcap, hiterations ▸ Nat.le_refl _⟩
      rw [verdict_eq_exhausted.2 ⟨hreached, hprice⟩] at hverdict
      exact (Verdict.stop.inj hverdict).symm

end State

/-! ### How a run is put together -/

/-- The number of exchanges that a search reports. -/
def Feasibility.iterations : Feasibility K → Nat
  | .feasible _ _ iterations => iterations
  | .infeasible iterations => iterations
  | .exhausted iterations => iterations

namespace EqualityForm

variable [Zero K] [One K] [Neg K] [Add K] [Sub K] [Mul K] [Div K] [LT K] [DecidableLT K] [LE K]
  [DecidableLE K] [BEq K] [Selectable K] {settings : Settings K} {form : EqualityForm K}

omit [Selectable K] in
/-- The exchanges that a search reports are those of its pass. -/
theorem iterations_of_feasibilityOf {pass : Pass K} {result : Feasibility K}
    (h : form.feasibilityOf settings pass = .ok result) :
    result.iterations = pass.state.iterations := by
  rcases feasibilityOf_cases h with ⟨-, rfl⟩ | ⟨-, rfl⟩ | ⟨-, -, rfl⟩ | ⟨-, -, final, -, rfl⟩ <;> rfl

omit [Selectable K] in
/-- A search is cut short exactly if its pass is. -/
theorem exhausted_of_feasibilityOf {pass : Pass K} {result : Feasibility K}
    (h : form.feasibilityOf settings pass = .ok result) :
    pass.outcome = .exhausted ↔ ∃ iterations, result = .exhausted iterations := by
  rcases feasibilityOf_cases h with ⟨houtcome, rfl⟩ | ⟨houtcome, rfl⟩ | ⟨houtcome, -, rfl⟩ |
    ⟨houtcome, -, final, -, rfl⟩ <;> simp [houtcome]

end EqualityForm

namespace Program

section Solution

variable [Zero K] [Neg K] [Add K] [Mul K]

@[simp] theorem status_solutionOf (p : Program K) (pass : Pass K) (iterations : Nat) :
    (p.solutionOf pass iterations).status = pass.outcome.status := by
  unfold solutionOf
  cases pass.outcome <;> rfl

@[simp] theorem iterations_solutionOf (p : Program K) (pass : Pass K) (iterations : Nat) :
    (p.solutionOf pass iterations).iterations = iterations := by
  unfold solutionOf
  cases pass.outcome <;> rfl

end Solution

variable [Zero K] [One K] [Neg K] [Add K] [Sub K] [Mul K] [Div K] [LT K] [DecidableLT K] [LE K]
  [DecidableLE K] [BEq K] [Selectable K] {p : Program K} {settings : Settings K}

/-! ### What a solve tells -/

theorem exists_transcript_of_searchFeasible {search : FeasibilitySearch K}
    (h : (EqualityForm.ofProgram p).searchFeasible settings = .ok search) :
    ∃ t : Transcript K, search.events = t.events .one ∧
      (t.outcome = .exhausted ↔ ∃ iterations, search.result = .exhausted iterations) ∧
      search.result.iterations = t.exchanges.length ∧
      search.result.iterations < counterLimit ∧ t.Counts settings (Direction.sign .minimize) := by
  obtain ⟨start, pass, hstart, hpass, hresult, hevents⟩ := EqualityForm.searchFeasible_eq_ok.1 h
  obtain ⟨-, -, hzero⟩ := State.ofTableau_eq_ok hstart
  obtain ⟨t, htold, -, -, houtcome, hlength, hroom, hcounts⟩ :=
    State.exists_transcript_of_pass hzero hpass
  rw [EqualityForm.iterations_of_feasibilityOf hresult]
  refine ⟨t, hevents.trans htold, ?_, hlength.symm, hroom, hcounts⟩
  rw [houtcome]
  exact EqualityForm.exhausted_of_feasibilityOf hresult

theorem exists_transcript_of_secondPhase {tableau : Tableau K} {basis : List Nat} {earlier : Nat}
    {run : Run K} (h : p.secondPhase settings tableau basis earlier = .ok run) :
    ∃ t : Transcript K, run.events = t.events .two ∧ run.solution.status = t.outcome.status ∧
      run.solution.iterations = earlier + t.exchanges.length ∧
      run.solution.iterations < counterLimit ∧ t.Counts settings p.direction.sign := by
  obtain ⟨start, pass, hstart, hpass, hroom, rfl⟩ := secondPhase_eq_ok.1 h
  obtain ⟨-, -, hzero⟩ := State.ofTableau_eq_ok hstart
  obtain ⟨t, htold, -, -, houtcome, hlength, -, hcounts⟩ :=
    State.exists_transcript_of_pass hzero hpass
  refine ⟨t, htold, ?_, ?_, (iterations_solutionOf p pass _).trans_lt hroom, hcounts⟩
  · rw [houtcome]
    exact status_solutionOf p pass _
  · rw [hlength]
    exact iterations_solutionOf p pass _

/-- **The events of a solve.** A program that is not well formed is refused, and nothing is told.
Otherwise the first event is that the equality form is prepared; then comes the search for a basis,
if some constraint is not an upper bound, and then the second phase, if no search was made or it
found a basis. Each phase begins, makes its exchanges, which are numbered from 1 on and are no more
than the cap allows, and ends with the objective value of its last state; it ends exhausted exactly
if the cap is used up and a column still enters. The answer counts the exchanges of both phases and
has the status that the last phase ends with. -/
theorem events_of_solve (p : Program K) (settings : Settings K) :
    (∀ e, p.solve settings = .error (.model e) ↔ p.mismatch = some e) ∧
    ∀ run, p.solve settings = .ok run → ∃ first second : Option (Transcript K),
      run.events = .prepared (EqualityForm.ofProgram p).tableau first.isSome ::
        (first.elim [] (·.events .one) ++ second.elim [] (·.events .two)) ∧
      (first.isSome = true ↔ ∃ c ∈ p.constraints, c.relation = .atLeast ∨ c.relation = .equal) ∧
      (second.isSome = true ↔ first = none ∨ ∃ tableau basis iterations events,
        (EqualityForm.ofProgram p).searchFeasible settings =
          .ok ⟨.feasible tableau basis iterations, events⟩) ∧
      (∀ t, first = some t → t.Counts settings (Direction.sign .minimize)) ∧
      (∀ t, second = some t → t.Counts settings p.direction.sign ∧
        run.solution.status = t.outcome.status) ∧
      (∀ t, first = some t → second = none → run.solution.status =
        if t.outcome = .exhausted then .exhausted else .infeasible) ∧
      run.solution.iterations =
        first.elim 0 (·.exchanges.length) + second.elim 0 (·.exchanges.length) ∧
      run.solution.iterations < counterLimit := by
  refine ⟨fun e => solve_eq_model_error, fun run hrun => ?_⟩
  obtain ⟨-, hassembles⟩ := solve_eq_ok.1 hrun
  rw [← hasArtificials_iff]
  cases hassembles with
  | @direct second hnone hsecond =>
      obtain ⟨t, htold, hstatus, hiterations, hroom, hcounts⟩ :=
        exists_transcript_of_secondPhase hsecond
      refine ⟨none, some t, ?_, by simp [hnone], by simp, by simp, ?_, by simp, ?_, hroom⟩
      · simp [htold]
      · rintro _ ⟨⟩
        exact ⟨hcounts, hstatus⟩
      · simpa using hiterations
  | @searched tableau basis iterations events second hartificials hsearch hsecond =>
      obtain ⟨t, htold, -, hfound, -, hcounts⟩ := exists_transcript_of_searchFeasible hsearch
      obtain ⟨u, hutold, hstatus, hiterations, hroom, hucounts⟩ :=
        exists_transcript_of_secondPhase hsecond
      refine ⟨some t, some u, ?_, by simp [hartificials], ?_, ?_, ?_, by simp, ?_, hroom⟩
      · rw [show events = t.events .one from htold, hutold]
        rfl
      · exact iff_of_true rfl (Or.inr ⟨tableau, basis, iterations, events, hsearch⟩)
      · rintro _ ⟨⟩
        exact hcounts
      · rintro _ ⟨⟩
        exact ⟨hucounts, hstatus⟩
      · rw [hiterations, show iterations = t.exchanges.length from hfound]
        rfl
  | @infeasible iterations events hartificials hsearch =>
      obtain ⟨t, htold, hended, hfound, hroom, hcounts⟩ :=
        exists_transcript_of_searchFeasible hsearch
      refine ⟨some t, none, ?_, by simp [hartificials], ?_, ?_, by simp, ?_, hfound, hroom⟩
      · rw [show events = t.events .one from htold]
        simp
      · simp [hsearch]
      · rintro _ ⟨⟩
        exact hcounts
      · rintro _ ⟨⟩ -
        rw [if_neg (by simp [hended])]
        rfl
  | @exhausted iterations events hartificials hsearch =>
      obtain ⟨t, htold, hended, hfound, hroom, hcounts⟩ :=
        exists_transcript_of_searchFeasible hsearch
      refine ⟨some t, none, ?_, by simp [hartificials], ?_, ?_, by simp, ?_, hfound, hroom⟩
      · rw [show events = t.events .one from htold]
        simp
      · simp [hsearch]
      · rintro _ ⟨⟩
        exact hcounts
      · rintro _ ⟨⟩ -
        rw [if_pos (hended.2 ⟨iterations, rfl⟩)]
        rfl

/-- A program that needs both phases. The search makes as many exchanges as the cap allows, and has
found a basis by then. -/
theorem events_of_solve_cap_used_up :
    let p : Program ℚ := ⟨.maximize, [2, 1],
      [⟨[1, 1], .atLeast, 1⟩, ⟨[1, 2], .atMost, 4⟩, ⟨[1, -1], .equal, 1⟩]⟩
    let settings : Settings ℚ := ⟨some 2, 0⟩
    ∃ run, p.solve settings = .ok run ∧ run.solution.iterations = 3 ∧
      ∃ first second : Transcript ℚ,
        run.events = .prepared (EqualityForm.ofProgram p).tableau true ::
          (first.events .one ++ second.events .two) ∧
        first.exchanges.length + second.exchanges.length = 3 ∧ first.exchanges.length ≤ 2 ∧
        run.solution.status = second.outcome.status := by
  intro p settings
  have hsolve : (p.solve settings).map (·.solution.iterations) = .ok 3 := by decide +kernel
  cases hrun : p.solve settings with
  | error e => rw [hrun] at hsolve; cases hsolve
  | ok run =>
      rw [hrun] at hsolve
      have hthree : run.solution.iterations = 3 := Except.ok.inj hsolve
      obtain ⟨first, second, hevents, hfirst, -, hcounts, hstatus, -, hiterations, -⟩ :=
        (events_of_solve p settings).2 run hrun
      obtain ⟨t, rfl⟩ := Option.isSome_iff_exists.1 (hfirst.2 (by decide +kernel))
      have hcap := (hcounts t rfl).within 2 rfl
      rw [hthree] at hiterations
      cases second with
      | none =>
          -- the search alone cannot have made all exchanges
          have halone : 3 = t.exchanges.length := hiterations
          omega
      | some u => exact ⟨run, rfl, hthree, t, u, hevents, hiterations.symm, hcap, (hstatus u rfl).2⟩

end Program

end SimplexMethod
