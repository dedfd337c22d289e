import SimplexMethod.Proofs.Assembly
import SimplexMethod.Proofs.Reach

/-!
# SimplexMethod.Proofs.Visited

**The states that a solve goes through.** `Program.Visits` lists them, stage by stage: the states of
the search for a feasible basis, those between two rounds of the loop that expels artificial
variables, and those of the second phase. A run that cycles visits states as well, although nothing
ever comes of it, so what holds of all visited states holds while a solve is still under way.

The relation is built from the steps of the method, not from its results. That it is about
`Program.solve` is what `concludes_of_solve` says: an answer is read off a visited state, in one of
the ways of `Program.Concludes`, and the events of a solve tell about visited states.

`Program.Exchanges` is the exchange that is made next at a visited state, and `Program.Repairs`
lists the tables and bases that a solve has repaired. Nothing is assumed of the numbers.
-/

namespace SimplexMethod

variable {K : Type}

/-- Where in a solve a state is met. -/
inductive Stage where
  /-- In the pass over the artificial costs. -/
  | search
  /-- While artificial variables are expelled, with `left` rows to look at, which begin with row
  `row`. -/
  | expulsion (row left : Nat)
  /-- In the pass over the costs of the program. -/
  | second
  deriving DecidableEq, Repr

/-- The stage in which the pass of a phase is made. -/
def Phase.stage : Phase → Stage
  | .one => .search
  | .two => .second

namespace State

variable [Zero K] [One K] [Neg K] [Add K] [Sub K] [Mul K] [Div K] [LT K] [DecidableLT K] [LE K]
  [DecidableLE K] [BEq K] [Selectable K] {settings : Settings K} {phase : Phase} {sign : K}

/-! ### The events of a pass -/

/-- The events of the loop tell about exchanges that lead to states reached. -/
theorem Improves.reaches_of_mem {room : Nat} {s : State K} {pass : Pass K}
    (h : Improves settings phase sign room s pass) {e : Event K} (he : e ∈ pass.events) :
    ∃ row col t, e = .exchange phase col row t ∧ Reaches settings sign s t := by
  induction h with
  | stop _ => cases he
  | exchange hverdict hnext _ ih =>
      have hstep := Step.exchange hverdict hnext
      rcases List.mem_cons.1 he with rfl | he
      · exact ⟨_, _, _, rfl, .single hstep⟩
      · obtain ⟨row, col, t, rfl, hreaches⟩ := ih he
        exact ⟨row, col, t, rfl, .head hstep hreaches⟩

/-- The states that the events of a whole pass tell about are reached. -/
theorem reaches_of_mem_pass {s : State K} {pass : Pass K}
    (h : s.pass settings phase sign = .ok pass) {e : Event K} (he : e ∈ pass.events) :
    e = .phaseStart phase s ∨
      (∃ row col t, e = .exchange phase col row t ∧ Reaches settings sign s t) ∨
        e = .phaseEnd phase pass.outcome pass.state.objectiveValue := by
  obtain ⟨run, hrun, rfl⟩ := pass_eq_ok.1 h
  rcases List.mem_append.1 he with he | he
  · rcases List.mem_cons.1 he with rfl | he
    · exact Or.inl rfl
    · exact Or.inr (Or.inl ((improves_of_improve hrun).reaches_of_mem he))
  · exact Or.inr (Or.inr (List.mem_singleton.1 he))

/-- Where a whole pass ends. -/
theorem reaches_of_pass {s : State K} {pass : Pass K}
    (h : s.pass settings phase sign = .ok pass) :
    Reaches settings sign s pass.state ∧
      pass.state.verdict settings sign = .stop pass.outcome := by
  obtain ⟨run, hrun, houtcome, hstate⟩ := improve_of_pass h
  rw [hstate, houtcome]
  exact reaches_of_improve hrun

end State

/-! ### Visited states -/

namespace Program

/-- What is handed over to the second phase: the table without the artificial columns. -/
def handedOver [Zero K] (p : Program K) (s : State K) : Tableau K :=
  (s.tableau.columnsBetween 0 p.firstArtificial).appendColumn
    (s.tableau.column (s.tableau.cols - 1))

variable [Zero K] [One K] [Neg K] [Add K] [Sub K] [Mul K] [Div K] [LT K] [DecidableLT K] [LE K]
  [DecidableLE K] [BEq K] [Selectable K]

/-- A solve of the program meets the state in the stage. -/
inductive Visits (p : Program K) (settings : Settings K) : Stage → State K → Prop where
  /-- The search begins. -/
  | searchStart {s : State K} :
      p.mismatch = none → (EqualityForm.ofProgram p).hasArtificials = true →
      State.ofTableau (EqualityForm.ofProgram p).artificialCosts (EqualityForm.ofProgram p).tableau
        (EqualityForm.ofProgram p).basis = .ok s →
      Visits p settings .search s
  /-- The search makes an exchange. -/
  | searchStep {s t : State K} :
      Visits p settings .search s → State.Step settings (Direction.sign .minimize) s t →
      Visits p settings .search t
  /-- The sum of the artificial variables counts as zero, so they are to be expelled. -/
  | expulsionStart {s : State K} :
      Visits p settings .search s →
      s.verdict settings (Direction.sign .minimize) = .stop .optimal →
      ¬settings.tolerance < magnitude s.objectiveValue →
      Visits p settings (.expulsion 0 s.tableau.rows) s
  /-- One round of the expulsion is made. -/
  | expulsionStep {s t : State K} {row left next : Nat} :
      Visits p settings (.expulsion row (left + 1)) s →
      s.expelAt p.firstArtificial settings.tolerance row = .ok (next, t) →
      Visits p settings (.expulsion next left) t
  /-- The second phase begins with what the search hands over. -/
  | handover {s t : State K} {row : Nat} :
      Visits p settings (.expulsion row 0) s →
      State.ofTableau p.extendedCosts (p.handedOver s) s.basis = .ok t →
      Visits p settings .second t
  /-- The second phase begins with the equality form itself. -/
  | directStart {s : State K} :
      p.mismatch = none → (EqualityForm.ofProgram p).hasArtificials = false →
      State.ofTableau p.extendedCosts (EqualityForm.ofProgram p).tableau
        (EqualityForm.ofProgram p).basis = .ok s →
      Visits p settings .second s
  /-- The second phase makes an exchange. -/
  | secondStep {s t : State K} :
      Visits p settings .second s → State.Step settings p.direction.sign s t →
      Visits p settings .second t

/-- The next exchange of a solve at a visited state. -/
inductive Exchanges (p : Program K) (settings : Settings K) :
    Stage → State K → (row col : Nat) → Prop where
  | search {s : State K} {row col : Nat} :
      s.verdict settings (Direction.sign .minimize) = .exchange row col →
      Exchanges p settings .search s row col
  | expulsion {s : State K} {row left col : Nat} :
      s.expulsion p.firstArtificial settings.tolerance row = .exchange col →
      Exchanges p settings (.expulsion row (left + 1)) s row col
  | second {s : State K} {row col : Nat} :
      s.verdict settings p.direction.sign = .exchange row col →
      Exchanges p settings .second s row col

/-- A solve has the basis of the table repaired. -/
inductive Repairs (p : Program K) (settings : Settings K) : Tableau K → List Nat → Prop where
  /-- When the first pass begins. -/
  | start :
      p.mismatch = none →
      Repairs p settings (EqualityForm.ofProgram p).tableau (EqualityForm.ofProgram p).basis
  /-- When the second phase begins with what the search hands over. -/
  | handover {s : State K} {row : Nat} :
      p.Visits settings (.expulsion row 0) s → Repairs p settings (p.handedOver s) s.basis
  /-- After an elimination step. -/
  | exchange {stage : Stage} {s : State K} {row col : Nat} :
      p.Visits settings stage s → p.Exchanges settings stage s row col →
      Repairs p settings (s.tableau.eliminate row col) (s.basis.set row col)

/-- The ways in which a solve comes to an answer. -/
inductive Concludes (p : Program K) (settings : Settings K) : Solution K → Prop where
  /-- The least sum of the artificial variables does not count as zero. -/
  | infeasible {s : State K} :
      p.Visits settings .search s →
      s.verdict settings (Direction.sign .minimize) = .stop .optimal →
      settings.tolerance < magnitude s.objectiveValue →
      Concludes p settings (.infeasible s.iterations p.variableCount)
  /-- The search met a column that no row limits. -/
  | unlimited {s : State K} :
      p.Visits settings .search s →
      s.verdict settings (Direction.sign .minimize) = .stop .unbounded →
      Concludes p settings (.infeasible s.iterations p.variableCount)
  /-- The cap ended the search. -/
  | unsearched {s : State K} :
      p.Visits settings .search s →
      s.verdict settings (Direction.sign .minimize) = .stop .exhausted →
      Concludes p settings (.exhausted s.iterations p.variableCount)
  /-- The second phase came to an end. -/
  | second {pass : Pass K} {iterations : Nat} :
      p.Visits settings .second pass.state →
      pass.state.verdict settings p.direction.sign = .stop pass.outcome →
      Concludes p settings (p.solutionOf pass iterations)

/-- The state that an event tells about is visited in the stage of its phase. -/
def Tells (p : Program K) (settings : Settings K) : Event K → Prop
  | .phaseStart phase s => p.Visits settings phase.stage s
  | .exchange phase _ _ s => p.Visits settings phase.stage s
  | .prepared _ _ => True
  | .phaseEnd _ _ _ => True

variable {p : Program K} {settings : Settings K}

/-- No state is met for a program that is refused. -/
theorem Visits.mismatch_eq_none {stage : Stage} {s : State K} (h : p.Visits settings stage s) :
    p.mismatch = none := by
  induction h with
  | searchStart hfit _ _ => exact hfit
  | directStart hfit _ _ => exact hfit
  | searchStep _ _ ih => exact ih
  | expulsionStart _ _ _ ih => exact ih
  | expulsionStep _ _ ih => exact ih
  | handover _ _ ih => exact ih
  | secondStep _ _ ih => exact ih

/-! ### Passes -/

theorem Visits.reaches_search {s t : State K} (hs : p.Visits settings .search s)
    (h : State.Reaches settings (Direction.sign .minimize) s t) : p.Visits settings .search t := by
  induction h with
  | refl => exact hs
  | tail _ hstep ih => exact ih.searchStep hstep

theorem Visits.reaches_second {s t : State K} (hs : p.Visits settings .second s)
    (h : State.Reaches settings p.direction.sign s t) : p.Visits settings .second t := by
  induction h with
  | refl => exact hs
  | tail _ hstep ih => exact ih.secondStep hstep

/-- What the events of a pass tell about is visited, if what the pass reaches is. -/
theorem tells_of_pass {phase : Phase} {sign : K} {s : State K} {pass : Pass K}
    (hreaches : ∀ t, State.Reaches settings sign s t → p.Visits settings phase.stage t)
    (h : s.pass settings phase sign = .ok pass) : ∀ e ∈ pass.events, p.Tells settings e := by
  intro e he
  rcases State.reaches_of_mem_pass h he with rfl | ⟨row, col, t, rfl, ht⟩ | rfl
  · exact hreaches s .refl
  · exact hreaches t ht
  · trivial

/-! ### The search -/

theorem Visits.exists_expelArtificials {s t : State K} {row left : Nat}
    (hs : p.Visits settings (.expulsion row left) s)
    (h : State.expelArtificials p.firstArtificial settings.tolerance left row s = .ok t) :
    ∃ last, p.Visits settings (.expulsion last 0) t := by
  induction left generalizing row s with
  | zero =>
      cases h
      exact ⟨row, hs⟩
  | succ left ih =>
      obtain ⟨round, hround, hrest⟩ := Fault.bind_eq_ok.1 h
      exact ih (hs.expulsionStep hround) hrest

/-- The visited states that the findings of a search are read off. -/
inductive Finds (p : Program K) (settings : Settings K) : Feasibility K → Prop where
  | feasible {s : State K} {row iterations : Nat} :
      p.Visits settings (.expulsion row 0) s →
      Finds p settings (.feasible (p.handedOver s) s.basis iterations)
  | infeasible {s : State K} :
      p.Visits settings .search s →
      s.verdict settings (Direction.sign .minimize) = .stop .optimal →
      settings.tolerance < magnitude s.objectiveValue →
      Finds p settings (.infeasible s.iterations)
  | unlimited {s : State K} :
      p.Visits settings .search s →
      s.verdict settings (Direction.sign .minimize) = .stop .unbounded →
      Finds p settings (.infeasible s.iterations)
  | exhausted {s : State K} :
      p.Visits settings .search s →
      s.verdict settings (Direction.sign .minimize) = .stop .exhausted →
      Finds p settings (.exhausted s.iterations)

theorem finds_of_feasibilityOf {pass : Pass K} {result : Feasibility K}
    (hvisits : p.Visits settings .search pass.state)
    (hverdict : pass.state.verdict settings (Direction.sign .minimize) = .stop pass.outcome)
    (h : (EqualityForm.ofProgram p).feasibilityOf settings pass = .ok result) :
    p.Finds settings result := by
  rcases EqualityForm.feasibilityOf_cases h with ⟨houtcome, rfl⟩ | ⟨houtcome, rfl⟩ |
    ⟨houtcome, hsum, rfl⟩ | ⟨houtcome, hsum, final, hexpel, rfl⟩
  all_goals rw [houtcome] at hverdict
  · exact .unlimited hvisits hverdict
  · exact .exhausted hvisits hverdict
  · exact .infeasible hvisits hverdict hsum
  · obtain ⟨last, hlast⟩ := (hvisits.expulsionStart hverdict hsum).exists_expelArtificials hexpel
    exact .feasible hlast

theorem finds_of_searchFeasible {search : FeasibilitySearch K} (hfit : p.mismatch = none)
    (hartificials : (EqualityForm.ofProgram p).hasArtificials = true)
    (h : (EqualityForm.ofProgram p).searchFeasible settings = .ok search) :
    p.Finds settings search.result ∧ ∀ e ∈ search.events, p.Tells settings e := by
  obtain ⟨start, pass, hstart, hpass, hresult, hevents⟩ := EqualityForm.searchFeasible_eq_ok.1 h
  have hvisits : p.Visits settings .search start := .searchStart hfit hartificials hstart
  obtain ⟨hreaches, hverdict⟩ := State.reaches_of_pass hpass
  rw [hevents]
  exact ⟨finds_of_feasibilityOf (hvisits.reaches_search hreaches) hverdict hresult,
    tells_of_pass (fun _ => hvisits.reaches_search) hpass⟩

/-! ### Solving -/

theorem concludes_of_secondPhase {tableau : Tableau K} {basis : List Nat} {earlier : Nat}
    {run : Run K}
    (hvisits : ∀ s, State.ofTableau p.extendedCosts tableau basis = .ok s →
      p.Visits settings .second s)
    (h : p.secondPhase settings tableau basis earlier = .ok run) :
    p.Concludes settings run.solution ∧ ∀ e ∈ run.events, p.Tells settings e := by
  obtain ⟨start, pass, hstart, hpass, -, rfl⟩ := secondPhase_eq_ok.1 h
  have hbegins := hvisits start hstart
  obtain ⟨hreaches, hverdict⟩ := State.reaches_of_pass hpass
  exact ⟨.second (hbegins.reaches_second hreaches) hverdict,
    tells_of_pass (fun _ => hbegins.reaches_second) hpass⟩

/-- **An answer is read off a visited state**, and the events of a solve tell about visited
states. -/
theorem concludes_of_solve {run : Run K} (h : p.solve settings = .ok run) :
    p.Concludes settings run.solution ∧ ∀ e ∈ run.events, p.Tells settings e := by
  obtain ⟨hfit, hassembles⟩ := solve_eq_ok.1 h
  cases hassembles with
  | direct hnone hsecond =>
      obtain ⟨hconcludes, htells⟩ :=
        concludes_of_secondPhase (fun _ => .directStart hfit hnone) hsecond
      exact ⟨hconcludes, List.forall_mem_cons.2 ⟨trivial, htells⟩⟩
  | searched hartificials hsearch hsecond =>
      obtain ⟨hfinds, htells⟩ := finds_of_searchFeasible hfit hartificials hsearch
      cases hfinds with
      | feasible hvisits =>
          obtain ⟨hconcludes, htells'⟩ :=
            concludes_of_secondPhase (fun _ => hvisits.handover) hsecond
          refine ⟨hconcludes, List.forall_mem_cons.2 ⟨trivial, ?_⟩⟩
          exact List.forall_mem_append.2 ⟨htells, htells'⟩
  | infeasible hartificials hsearch =>
      obtain ⟨hfinds, htells⟩ := finds_of_searchFeasible hfit hartificials hsearch
      cases hfinds with
      | infeasible hvisits hverdict hsum =>
          exact ⟨.infeasible hvisits hverdict hsum, List.forall_mem_cons.2 ⟨trivial, htells⟩⟩
      | unlimited hvisits hverdict =>
          exact ⟨.unlimited hvisits hverdict, List.forall_mem_cons.2 ⟨trivial, htells⟩⟩
  | exhausted hartificials hsearch =>
      obtain ⟨hfinds, htells⟩ := finds_of_searchFeasible hfit hartificials hsearch
      cases hfinds with
      | exhausted hvisits hverdict =>
          exact ⟨.unsearched hvisits hverdict, List.forall_mem_cons.2 ⟨trivial, htells⟩⟩

end Program

end SimplexMethod
