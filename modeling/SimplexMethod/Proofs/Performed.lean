import SimplexMethod.Proofs.Counters
import SimplexMethod.Proofs.Trail

/-!
# SimplexMethod.Proofs.Performed

**The exchanges that a solve performs, and those that it counts.** A solve makes an exchange at some
of the states that it visits (`Program.performedAt`), so the exchanges that it performs are read off
the list of visited states. `Program.Leads` is a stretch of this list.

A pass performs the exchanges that it tells about, and the count goes up by one with each of them
(`exists_leads_of_improves`). Between the two passes artificial variables are expelled from the
basis, and an exchange that does this is neither counted nor told about
(`exists_leads_of_expelArtificials`). So the count of an answer is the number of exchanges performed
only if no artificial variable is expelled by one (`performed_of_solve`).

Nothing is assumed of the numbers.
-/

namespace SimplexMethod

/-! ### Exchanges performed -/

/-- The stage is a pass, and no expulsion of artificial variables. -/
def Stage.isPass : Stage → Bool
  | .search => true
  | .expulsion _ _ => false
  | .second => true

/-- An exchange that is performed: when, and at which cell. -/
structure Performed where
  stage : Stage
  row : Nat
  col : Nat
  deriving DecidableEq, Repr

/-- The exchange that a verdict in the stage calls for. -/
def Verdict.performed (stage : Stage) : Verdict → Option Performed
  | .stop _ => none
  | .exchange row col => some ⟨stage, row, col⟩

/-- The exchange that expels the basic variable of a row. -/
def Expulsion.performed (stage : Stage) (row : Nat) : Expulsion → Option Performed
  | .keep => none
  | .exchange col => some ⟨stage, row, col⟩
  | .erase => none

theorem Verdict.performed_eq_some {stage : Stage} {v : Verdict} {e : Performed} :
    v.performed stage = some e ↔ e.stage = stage ∧ v = .exchange e.row e.col := by
  constructor
  · intro h
    cases v with
    | stop outcome => cases h
    | exchange row col =>
        cases h
        exact ⟨rfl, rfl⟩
  · rintro ⟨rfl, rfl⟩
    rfl

theorem Expulsion.performed_eq_some {stage : Stage} {row : Nat} {x : Expulsion} {e : Performed} :
    x.performed stage row = some e ↔ e.stage = stage ∧ e.row = row ∧ x = .exchange e.col := by
  constructor
  · intro h
    cases x with
    | keep => cases h
    | exchange col =>
        cases h
        exact ⟨rfl, rfl, rfl⟩
    | erase => cases h
  · rintro ⟨rfl, rfl, rfl⟩
    rfl

variable {K : Type}

/-- The exchange that an event tells about. -/
def Event.performed : Event K → Option Performed
  | .exchange phase entering row _ => some ⟨phase.stage, row, entering⟩
  | .prepared _ _ => none
  | .phaseStart _ _ => none
  | .phaseEnd _ _ _ => none

/-- Events tell about exchanges of passes only. -/
theorem Event.isPass_of_performed {event : Event K} {e : Performed} (h : event.performed = some e) :
    e.stage.isPass = true := by
  cases event with
  | exchange phase entering row state =>
      cases h
      cases phase <;> rfl
  | prepared tableau hasArtificials => cases h
  | phaseStart phase state => cases h
  | phaseEnd phase outcome objectiveValue => cases h

/-- So none of them is left out with the exchanges of expulsions. -/
theorem Event.filter_performed (events : List (Event K)) :
    (events.filterMap Event.performed).filter (·.stage.isPass) =
      events.filterMap Event.performed := by
  refine List.filter_eq_self.2 fun e he => ?_
  obtain ⟨event, -, hevent⟩ := List.mem_filterMap.1 he
  exact Event.isPass_of_performed hevent

theorem Event.length_filterMap_performed (events : List (Event K)) :
    (events.filterMap Event.performed).length = events.countP Event.isExchange := by
  rw [List.length_filterMap_eq_countP]
  congr 1
  funext event
  cases event <;> rfl

/-- Only an artificial variable is expelled, and only if some other column can take its place. -/
theorem State.expulsion_ne_exchange_iff [Zero K] [Neg K] [LT K] [DecidableLT K] {s : State K}
    {first row : Nat} {tolerance : K} :
    (∀ col, s.expulsion first tolerance row ≠ .exchange col) ↔
      s.basis.getD row 0 < first ∨ s.replacement first tolerance row = none := by
  unfold State.expulsion
  by_cases hbasic : s.basis.getD row 0 < first
  · rw [if_pos hbasic]
    exact iff_of_true (fun _ => nofun) (Or.inl hbasic)
  · rw [if_neg hbasic, or_iff_right hbasic]
    cases s.replacement first tolerance row with
    | none => exact iff_of_true (fun _ => nofun) rfl
    | some col => exact iff_of_false (fun h => h col rfl) nofun

namespace Program

variable [Zero K] [One K] [Neg K] [Add K] [Sub K] [Mul K] [Div K] [LT K] [DecidableLT K] [LE K]
  [DecidableLE K] [BEq K] [Selectable K]

/-- The sign that the reduced costs are priced with in a phase. -/
def phaseSign (p : Program K) : Phase → K
  | .one => Direction.sign .minimize
  | .two => p.direction.sign

/-- The exchange that a solve performs at a visited state. -/
def performedAt (p : Program K) (settings : Settings K) : Stage × State K → Option Performed
  | (.search, s) => (s.verdict settings (Direction.sign .minimize)).performed .search
  | (.expulsion _ 0, _) => none
  | (.expulsion row (left + 1), s) =>
    (s.expulsion p.firstArtificial settings.tolerance row).performed (.expulsion row (left + 1)) row
  | (.second, s) => (s.verdict settings p.direction.sign).performed .second

variable {p : Program K} {settings : Settings K}

omit [Sub K] [LE K] [DecidableLE K] [BEq K] in
/-- What is performed at a visited state is its next exchange. -/
theorem performedAt_eq_some {stage : Stage} {s : State K} {e : Performed} :
    p.performedAt settings (stage, s) = some e ↔
      e.stage = stage ∧ p.Exchanges settings stage s e.row e.col := by
  obtain ⟨stage', row, col⟩ := e
  constructor
  · intro h
    cases stage with
    | search => exact (Verdict.performed_eq_some.1 h).imp_right .search
    | expulsion row' left =>
        cases left with
        | zero => cases h
        | succ left =>
            obtain ⟨hstage, hrow, hexpulsion⟩ := Expulsion.performed_eq_some.1 h
            obtain rfl : row = row' := hrow
            exact ⟨hstage, .expulsion hexpulsion⟩
    | second => exact (Verdict.performed_eq_some.1 h).imp_right .second
  · rintro ⟨rfl, hexchanges⟩
    dsimp only at hexchanges ⊢
    cases hexchanges with
    | search hverdict => exact Verdict.performed_eq_some.2 ⟨rfl, hverdict⟩
    | expulsion hexpulsion => exact Expulsion.performed_eq_some.2 ⟨rfl, rfl, hexpulsion⟩
    | second hverdict => exact Verdict.performed_eq_some.2 ⟨rfl, hverdict⟩

omit [Sub K] [LE K] [DecidableLE K] [BEq K] in
/-- In a pass it is what the verdict calls for. -/
theorem performedAt_stage (phase : Phase) (s : State K) :
    p.performedAt settings (phase.stage, s) =
      (s.verdict settings (p.phaseSign phase)).performed phase.stage := by
  cases phase <;> rfl

/-! ### Stretches of the way -/

/-- A solve goes on from one visited state to another one and meets the listed states, beginning
with the first of the two and ending before the other. -/
inductive Leads (p : Program K) (settings : Settings K) :
    Stage × State K → List (Stage × State K) → Stage × State K → Prop where
  | refl {x : Stage × State K} : Leads p settings x [] x
  | step {x y z : Stage × State K} {visited : List (Stage × State K)} :
      p.nextVisit settings x = some y → Leads p settings y visited z →
      Leads p settings x (x :: visited) z

namespace Leads

variable {x y z : Stage × State K} {visited visited' : List (Stage × State K)}

theorem trans (h : p.Leads settings x visited y) (h' : p.Leads settings y visited' z) :
    p.Leads settings x (visited ++ visited') z := by
  induction h with
  | refl => exact h'
  | step hnext _ ih => exact .step hnext (ih h')

theorem exists_nextVisit (h : p.Leads settings x visited z) (hy : y ∈ visited) :
    ∃ z, p.nextVisit settings y = some z := by
  induction h with
  | refl => cases hy
  | step hnext _ ih =>
      rcases List.mem_cons.1 hy with rfl | hy
      · exact ⟨_, hnext⟩
      · exact ih hy

/-- What is met on the way to a state without successor is all there is. -/
theorem follow_eq (h : p.Leads settings x visited z) (hlast : p.nextVisit settings z = none)
    (n : Nat) : p.follow settings n (some x) = (visited ++ [z]).take n := by
  induction h generalizing n with
  | refl =>
      cases n with
      | zero => rfl
      | succ n =>
          rw [follow, hlast]
          cases n <;> rfl
  | step hnext _ ih =>
      cases n with
      | zero => rfl
      | succ n => rw [follow, hnext, ih hlast n, List.cons_append, List.take_succ_cons]

end Leads

/-! ### Passes -/

theorem nextVisit_of_exchange {phase : Phase} {s next : State K} {row col : Nat}
    (hverdict : s.verdict settings (p.phaseSign phase) = .exchange row col)
    (hnext : s.exchange row col = .ok next) :
    p.nextVisit settings (phase.stage, s) = some (phase.stage, next.count) := by
  cases phase with
  | one =>
      have hverdict' : s.verdict settings (Direction.sign .minimize) = .exchange row col := hverdict
      simp only [Phase.stage, nextVisit, hverdict', hnext]
      rfl
  | two =>
      have hverdict' : s.verdict settings p.direction.sign = .exchange row col := hverdict
      simp only [Phase.stage, nextVisit, hverdict', hnext]
      rfl

/-- **The loop performs the exchanges that it tells about**, one after the other. -/
theorem exists_leads_of_improves {phase : Phase} {room : Nat} {s : State K} {pass : Pass K}
    (h : State.Improves settings phase (p.phaseSign phase) room s pass) :
    ∃ visited, p.Leads settings (phase.stage, s) visited (phase.stage, pass.state) ∧
      visited.filterMap (p.performedAt settings) = pass.events.filterMap Event.performed := by
  induction h with
  | stop _ => exact ⟨[], .refl, rfl⟩
  | exchange hverdict hnext _ ih =>
      obtain ⟨visited, hleads, hperformed⟩ := ih
      refine ⟨_ :: visited, .step (nextVisit_of_exchange hverdict hnext) hleads, ?_⟩
      rw [List.filterMap_cons, performedAt_stage, hverdict, hperformed]
      rfl

/-- What a whole pass performs. -/
theorem exists_leads_of_pass {phase : Phase} {s : State K} {pass : Pass K}
    (h : s.pass settings phase (p.phaseSign phase) = .ok pass) :
    ∃ visited, p.Leads settings (phase.stage, s) visited (phase.stage, pass.state) ∧
      visited.filterMap (p.performedAt settings) = pass.events.filterMap Event.performed ∧
      p.performedAt settings (phase.stage, pass.state) = none := by
  obtain ⟨run, hrun, rfl⟩ := State.pass_eq_ok.1 h
  obtain ⟨visited, hleads, hperformed⟩ :=
    exists_leads_of_improves (State.improves_of_improve hrun)
  refine ⟨visited, hleads, ?_, ?_⟩
  · rw [hperformed]
    simp [List.filterMap_cons, Event.performed]
  · rw [performedAt_stage, (State.reaches_of_improve hrun).2]
    rfl

/-! ### Expulsions -/

/-- **The loop that expels artificial variables** performs no exchange of a pass. -/
theorem exists_leads_of_expelArtificials {row left : Nat} {s t : State K}
    (h : s.expelArtificials p.firstArtificial settings.tolerance left row = .ok t) :
    ∃ visited last, p.Leads settings (.expulsion row left, s) visited (.expulsion last 0, t) ∧
      ∀ e ∈ visited.filterMap (p.performedAt settings), e.stage.isPass = false := by
  induction left generalizing row s with
  | zero =>
      cases h
      exact ⟨[], row, .refl, nofun⟩
  | succ left ih =>
      obtain ⟨round, hround, hrest⟩ := Fault.bind_eq_ok.1 h
      obtain ⟨visited, last, hleads, hexpelled⟩ := ih hrest
      refine ⟨_ :: visited, last, .step (toOption_map_eq_some.2 ⟨round, hround, rfl⟩) hleads, ?_⟩
      intro e he
      obtain ⟨x, hx, hxe⟩ := List.mem_filterMap.1 he
      rcases List.mem_cons.1 hx with rfl | hx
      · rw [(performedAt_eq_some.1 hxe).1]
        rfl
      · exact hexpelled e (List.mem_filterMap.2 ⟨x, hx, hxe⟩)

/-! ### The whole way -/

/-- A solve goes on from a visited state until it ends, and the listed states are all that it meets
from there on. -/
def Finishes (p : Program K) (settings : Settings K) (x : Stage × State K)
    (visited : List (Stage × State K)) : Prop :=
  ∃ before last, p.Leads settings x before last ∧ p.nextVisit settings last = none ∧
    p.performedAt settings last = none ∧ visited = before ++ [last]

/-- What is performed at a state that has a successor has been performed. -/
theorem exists_exchange_of_nextVisit {x y : Stage × State K} {e : Performed}
    (hnext : p.nextVisit settings x = some y) (he : p.performedAt settings x = some e) :
    ∃ next, x.2.exchange e.row e.col = .ok next := by
  obtain ⟨stage, s⟩ := x
  obtain ⟨rfl, hexchanges⟩ := performedAt_eq_some.1 he
  obtain ⟨stage, row, col⟩ := e
  dsimp only at hexchanges hnext ⊢
  cases hexchanges with
  | search hverdict =>
      simp only [nextVisit, hverdict] at hnext
      obtain ⟨next, hexchange, -⟩ := toOption_map_eq_some.1 hnext
      exact ⟨next, hexchange⟩
  | expulsion hexpulsion =>
      obtain ⟨round, hround, -⟩ := toOption_map_eq_some.1 hnext
      simp only [State.expelAt, hexpulsion] at hround
      obtain ⟨next, hexchange, -⟩ := Fault.bind_eq_ok.1 hround
      exact ⟨next, hexchange⟩
  | second hverdict =>
      simp only [nextVisit, hverdict] at hnext
      obtain ⟨next, hexchange, -⟩ := toOption_map_eq_some.1 hnext
      exact ⟨next, hexchange⟩

namespace Finishes

variable {x y : Stage × State K} {before visited : List (Stage × State K)}

theorem prepend (hleads : p.Leads settings x before y) (h : p.Finishes settings y visited) :
    p.Finishes settings x (before ++ visited) := by
  obtain ⟨between, last, hbetween, hend, hnone, rfl⟩ := h
  exact ⟨before ++ between, last, hleads.trans hbetween, hend, hnone, by simp⟩

theorem follow_eq (h : p.Finishes settings x visited) (n : Nat) :
    p.follow settings n (some x) = visited.take n := by
  obtain ⟨before, last, hleads, hend, -, rfl⟩ := h
  exact hleads.follow_eq hend n

theorem exists_exchange (h : p.Finishes settings x visited) (hy : y ∈ visited) {e : Performed}
    (he : p.performedAt settings y = some e) : ∃ next, y.2.exchange e.row e.col = .ok next := by
  obtain ⟨before, last, hleads, -, hnone, rfl⟩ := h
  rcases List.mem_append.1 hy with hy | hy
  · obtain ⟨z, hnext⟩ := hleads.exists_nextVisit hy
    exact exists_exchange_of_nextVisit hnext he
  · rw [List.mem_singleton.1 hy, hnone] at he
    cases he

end Finishes

/-- A pass at whose end the solve ends. -/
theorem exists_finishes_of_pass {phase : Phase} {s : State K} {pass : Pass K}
    (h : s.pass settings phase (p.phaseSign phase) = .ok pass)
    (hend : p.nextVisit settings (phase.stage, pass.state) = none) :
    ∃ visited, p.Finishes settings (phase.stage, s) visited ∧
      visited.filterMap (p.performedAt settings) = pass.events.filterMap Event.performed := by
  obtain ⟨before, hleads, hperformed, hnone⟩ := exists_leads_of_pass h
  refine ⟨_, ⟨before, _, hleads, hend, hnone, rfl⟩, ?_⟩
  rw [List.filterMap_append, hperformed]
  simp [hnone]

theorem exists_finishes_of_secondPhase {tableau : Tableau K} {basis : List Nat} {earlier : Nat}
    {run : Run K} (h : p.secondPhase settings tableau basis earlier = .ok run) :
    ∃ start visited, State.ofTableau p.extendedCosts tableau basis = .ok start ∧
      p.Finishes settings (.second, start) visited ∧
      visited.filterMap (p.performedAt settings) = run.events.filterMap Event.performed := by
  obtain ⟨start, pass, hstart, hpass, -, rfl⟩ := secondPhase_eq_ok.1 h
  have hstop := (State.reaches_of_pass hpass).2
  obtain ⟨visited, hfinishes, hperformed⟩ :=
    exists_finishes_of_pass hpass (by simp only [Phase.stage, nextVisit, hstop])
  exact ⟨start, visited, hstart, hfinishes, hperformed⟩

/-- What a search performs. If it finds no basis, the solve ends with it. -/
theorem exists_leads_of_searchFeasible {search : FeasibilitySearch K}
    (h : (EqualityForm.ofProgram p).searchFeasible settings = .ok search) :
    ∃ start, State.ofTableau (EqualityForm.ofProgram p).artificialCosts
        (EqualityForm.ofProgram p).tableau (EqualityForm.ofProgram p).basis = .ok start ∧
      ((∀ tableau basis iterations, search.result ≠ .feasible tableau basis iterations) ∧
        (∃ visited, p.Finishes settings (.search, start) visited ∧
          visited.filterMap (p.performedAt settings) = search.events.filterMap Event.performed) ∨
        ∃ visited row final iterations,
          search.result = .feasible (p.handedOver final) final.basis iterations ∧
          p.Leads settings (.search, start) visited (.expulsion row 0, final) ∧
          (visited.filterMap (p.performedAt settings)).filter (·.stage.isPass) =
            search.events.filterMap Event.performed) := by
  obtain ⟨start, pass, hstart, hpass, hresult, hevents⟩ := EqualityForm.searchFeasible_eq_ok.1 h
  have hstop := (State.reaches_of_pass hpass).2
  refine ⟨start, hstart, ?_⟩
  rw [hevents]
  rcases EqualityForm.feasibilityOf_cases hresult with ⟨houtcome, hfound⟩ | ⟨houtcome, hfound⟩ |
    ⟨houtcome, hsum, hfound⟩ | ⟨houtcome, hsum, final, hexpel, hfound⟩
  all_goals rw [houtcome] at hstop
  · exact Or.inl ⟨by simp [hfound], exists_finishes_of_pass hpass
      (by simp only [Phase.stage, nextVisit, hstop])⟩
  · exact Or.inl ⟨by simp [hfound], exists_finishes_of_pass hpass
      (by simp only [Phase.stage, nextVisit, hstop])⟩
  · exact Or.inl ⟨by simp [hfound], exists_finishes_of_pass hpass
      (by simp only [Phase.stage, nextVisit, hstop, if_pos hsum])⟩
  · obtain ⟨before, hleads, hperformed, hnone⟩ := exists_leads_of_pass hpass
    obtain ⟨visited, row, hleads', hexpelled⟩ := exists_leads_of_expelArtificials hexpel
    have hnext : p.nextVisit settings (Phase.one.stage, pass.state) =
        some (.expulsion 0 pass.state.tableau.rows, pass.state) := by
      simp only [Phase.stage, nextVisit, hstop, if_neg hsum]
    refine Or.inr ⟨before ++ (Phase.one.stage, pass.state) :: visited, row, final, _, hfound,
      hleads.trans (.step hnext hleads'), ?_⟩
    have hvisited : (visited.filterMap (p.performedAt settings)).filter (·.stage.isPass) = [] :=
      List.filter_eq_nil_iff.2 fun e he => Bool.eq_false_iff.1 (hexpelled e he)
    rw [List.filterMap_append, List.filterMap_cons_none hnone, List.filter_append, hvisited,
      hperformed, Event.filter_performed, List.append_nil]

/-- **What a solve performs**: what it tells about, and what it takes to expel the artificial
variables. -/
theorem exists_finishes_of_solve {run : Run K} (h : p.solve settings = .ok run) :
    ∃ first visited, p.firstVisit = some first ∧ p.Finishes settings first visited ∧
      (visited.filterMap (p.performedAt settings)).filter (·.stage.isPass) =
        run.events.filterMap Event.performed := by
  obtain ⟨hfit, hassembles⟩ := solve_eq_ok.1 h
  have hbegins : ∀ start, (EqualityForm.ofProgram p).hasArtificials = true →
      State.ofTableau (EqualityForm.ofProgram p).artificialCosts (EqualityForm.ofProgram p).tableau
        (EqualityForm.ofProgram p).basis = .ok start →
      p.firstVisit = some (.search, start) := fun start hartificials hstart => by
    simp only [firstVisit, hfit, hartificials, if_true]
    exact toOption_map_eq_some.2 ⟨_, hstart, rfl⟩
  cases hassembles with
  | @direct second hnone hsecond =>
      obtain ⟨start, visited, hstart, hfinishes, hperformed⟩ :=
        exists_finishes_of_secondPhase hsecond
      refine ⟨_, visited, ?_, hfinishes, ?_⟩
      · simp only [firstVisit, hfit, hnone]
        exact toOption_map_eq_some.2 ⟨_, hstart, rfl⟩
      · rw [hperformed, Event.filter_performed]
        rfl
  | @searched tableau basis iterations events second hartificials hsearch hsecond =>
      obtain ⟨start, hstart, hsearched⟩ := exists_leads_of_searchFeasible hsearch
      obtain ⟨start', rest, hstart', hrest, hperformed'⟩ := exists_finishes_of_secondPhase hsecond
      rcases hsearched with ⟨hnot, -⟩ | ⟨visited, row, final, _, hfound, hleads, hperformed⟩
      · exact absurd rfl (hnot tableau basis iterations)
      · cases hfound
        have hnext : p.nextVisit settings (.expulsion row 0, final) = some (.second, start') :=
          toOption_map_eq_some.2 ⟨start', hstart', rfl⟩
        refine ⟨_, _, hbegins start hartificials hstart,
          hrest.prepend (hleads.trans (.step hnext .refl)), ?_⟩
        have hpassed : p.performedAt settings (.expulsion row 0, final) = none := rfl
        simp only [List.filterMap_append, List.filter_append, hperformed, hperformed',
          List.filterMap_cons_none hpassed, List.filterMap_nil, List.append_nil,
          Event.filter_performed]
        exact List.filterMap_append.symm
  | @infeasible iterations events hartificials hsearch =>
      obtain ⟨start, hstart, ⟨-, visited, hfinishes, hperformed⟩ | ⟨_, _, _, _, hfound, -⟩⟩ :=
        exists_leads_of_searchFeasible hsearch
      · refine ⟨_, visited, hbegins start hartificials hstart, hfinishes, ?_⟩
        rw [hperformed, Event.filter_performed]
        rfl
      · cases hfound
  | @exhausted iterations events hartificials hsearch =>
      obtain ⟨start, hstart, ⟨-, visited, hfinishes, hperformed⟩ | ⟨_, _, _, _, hfound, -⟩⟩ :=
        exists_leads_of_searchFeasible hsearch
      · refine ⟨_, visited, hbegins start hartificials hstart, hfinishes, ?_⟩
        rw [hperformed, Event.filter_performed]
        rfl
      · cases hfound

/-- **What a solve counts.** The states that a solve meets are listed, and with them the exchanges
that it performs. Those of its two passes are told about, each of them once and in order, and they
are what the answer counts. So the count is the number of exchanges performed exactly if none is
performed to expel an artificial variable from the basis: wherever the loop that does this looks at
a row, the basic column is no artificial one, or no other column can take its place. -/
theorem performed_of_solve {run : Run K} (h : p.solve settings = .ok run) :
    ∃ visited : List (Stage × State K), (∀ n, p.trail settings n = visited.take n) ∧
      let performed := visited.filterMap (p.performedAt settings)
      (∀ x ∈ visited, ∀ e, p.performedAt settings x = some e →
        ∃ next, x.2.exchange e.row e.col = .ok next) ∧
      run.events.filterMap Event.performed = performed.filter (·.stage.isPass) ∧
      run.solution.iterations = performed.countP (·.stage.isPass) ∧
      (run.solution.iterations = performed.length ↔
        ∀ row left s, p.Visits settings (.expulsion row (left + 1)) s →
          s.basis.getD row 0 < p.firstArtificial ∨
            s.replacement p.firstArtificial settings.tolerance row = none) := by
  obtain ⟨first, visited, hfirst, hfinishes, htold⟩ := exists_finishes_of_solve h
  have htrail : ∀ n, p.trail settings n = visited.take n := fun n => by
    rw [trail, hfirst, hfinishes.follow_eq n]
  have hcount : run.solution.iterations =
      (visited.filterMap (p.performedAt settings)).countP (·.stage.isPass) := by
    rw [iterations_of_solve h, ← Event.length_filterMap_performed, ← htold,
      List.countP_eq_length_filter]
  have hmem : ∀ {stage s}, p.Visits settings stage s ↔ (stage, s) ∈ visited := fun {stage s} => by
    have hall : p.trail settings (visited.length + 1) = visited := by
      rw [htrail, List.take_of_length_le (Nat.le_succ _)]
    rw [visits_iff_mem_trail (n := visited.length + 1) (by rw [hall]; exact Nat.lt_succ_self _),
      hall]
  refine ⟨visited, htrail, fun x hx e he => hfinishes.exists_exchange hx he, htold.symm, hcount,
    ?_⟩
  rw [hcount, List.countP_eq_length]
  simp only [← State.expulsion_ne_exchange_iff]
  constructor
  · intro hpasses row left s hs col hcol
    have he : p.performedAt settings (.expulsion row (left + 1), s) =
        some ⟨.expulsion row (left + 1), row, col⟩ :=
      performedAt_eq_some.2 ⟨rfl, .expulsion hcol⟩
    exact Bool.false_ne_true (hpasses _ (List.mem_filterMap.2 ⟨_, hmem.1 hs, he⟩))
  · intro hkept e he
    obtain ⟨⟨stage, s⟩, hs, hes⟩ := List.mem_filterMap.1 he
    obtain ⟨hstage, hexchanges⟩ := performedAt_eq_some.1 hes
    rw [hstage]
    cases hexchanges with
    | search _ => rfl
    | expulsion hexpulsion => exact absurd hexpulsion (hkept _ _ s (hmem.2 hs) _)
    | second _ => rfl

/-- Both passes make an exchange, and between them an artificial variable is expelled by a third
one. -/
theorem performed_of_solve_expelled :
    let p : Program ℚ := ⟨.maximize, [1, 2], [⟨[1, 1], .equal, 1⟩, ⟨[1, 1], .atLeast, 1⟩]⟩
    let settings : Settings ℚ := ⟨none, 0⟩
    ∃ run, p.solve settings = .ok run ∧ run.solution.iterations = 2 ∧
      ∃ visited : List (Stage × State ℚ), (∀ n, p.trail settings n = visited.take n) ∧
        visited.filterMap (p.performedAt settings) =
          [⟨.search, 0, 0⟩, ⟨.expulsion 1 1, 1, 3⟩, ⟨.second, 0, 1⟩] ∧
        run.events.filterMap Event.performed = [⟨.search, 0, 0⟩, ⟨.second, 0, 1⟩] ∧
        ∃ row left s, p.Visits settings (.expulsion row (left + 1)) s ∧
          p.firstArtificial ≤ s.basis.getD row 0 ∧
          s.replacement p.firstArtificial settings.tolerance row ≠ none := by
  intro p settings
  have hsolve : (p.solve settings).map (·.solution.iterations) = .ok 2 := by decide +kernel
  have hperformed : (p.trail settings 8).filterMap (p.performedAt settings) =
      [⟨.search, 0, 0⟩, ⟨.expulsion 1 1, 1, 3⟩, ⟨.second, 0, 1⟩] := by decide +kernel
  have hlength : (p.trail settings 8).length = 7 := by decide +kernel
  cases hrun : p.solve settings with
  | error e => rw [hrun] at hsolve; cases hsolve
  | ok run =>
      rw [hrun] at hsolve
      have htwo : run.solution.iterations = 2 := Except.ok.inj hsolve
      obtain ⟨visited, htrail, -, htold, -, hexact⟩ := performed_of_solve hrun
      -- the list of eight states is not cut off
      have hall : p.trail settings 8 = visited := by
        rw [htrail, List.length_take] at hlength
        rw [htrail, List.take_of_length_le (by omega)]
      rw [← hall, hperformed] at htold hexact
      refine ⟨run, rfl, htwo, visited, htrail, by rw [← hall, hperformed], htold, ?_⟩
      by_contra hnone
      push Not at hnone
      refine absurd (htwo.symm.trans (hexact.2 fun row left s hs => ?_)) (by decide)
      rw [or_iff_not_imp_left, not_lt]
      exact hnone row left s hs

/-- **Exchanges that are not counted.** The second constraint says no more than the first one. Its
artificial variable is still basic when the search ends and is expelled by an exchange. So two
exchanges are performed, while the answer counts one and the events tell about one. -/
theorem solve_undercounts :
    let p : Program ℚ := ⟨.maximize, [1, 1], [⟨[1, 1], .equal, 1⟩, ⟨[1, 1], .atLeast, 1⟩]⟩
    let settings : Settings ℚ := ⟨none, 0⟩
    p.mismatch = none ∧ 0 ≤ settings.tolerance ∧
      (p.solve settings).map (fun run => (run.solution.iterations,
        run.events.countP Event.isExchange)) = .ok (1, 1) ∧
      (p.trail settings 7).length < 7 ∧
      (p.trail settings 7).filterMap (p.performedAt settings) =
        [⟨.search, 0, 0⟩, ⟨.expulsion 1 1, 1, 3⟩] := by
  decide +kernel

end Program

end SimplexMethod
