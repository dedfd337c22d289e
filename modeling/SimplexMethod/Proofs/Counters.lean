import SimplexMethod.Proofs.CutShort

/-!
# SimplexMethod.Proofs.Counters

**When a counter of exchanges overflows.** A counter stays below `counterLimit`. There is one for
each pass and one for the sum of both, so there are three ways in which the exchanges can be more
than a counter holds, and `Program.Overcounts` lists them. That there are no others is
`solve_eq_counterOverflow_iff`: no other step of a solve has this fault.

A loop without room is turned into a run that is as long as its room and one exchange more
(`improve_eq_counterOverflow_iff`), and this is carried outwards, level by level. A cap below
`counterLimit` keeps every pass within its counter (`IsRun.le_cap`), but not the sum: each pass may
use up the whole cap, and a second phase that cycles does. In `solve_overcounts` the search makes a
single exchange, and that is one too many.

Apart from that program nothing is assumed of the numbers.
-/

namespace SimplexMethod

/-! ### Exchanges told -/

/-- The event tells about an exchange. -/
def Event.isExchange {K : Type} : Event K → Bool
  | .exchange _ _ _ _ => true
  | .prepared _ _ => false
  | .phaseStart _ _ => false
  | .phaseEnd _ _ _ => false

/-- The exchanges among the events of a phase. -/
theorem Transcript.countP_events {K : Type} [Zero K] [Neg K] [Add K] [Mul K] (phase : Phase)
    (t : Transcript K) : (t.events phase).countP Event.isExchange = t.exchanges.length := by
  have hexchanges : (t.exchanges.map (·.event phase)).countP Event.isExchange =
      t.exchanges.length := by
    rw [List.countP_map, List.countP_eq_length]
    exact fun e _ => rfl
  simp [Transcript.events, hexchanges, Event.isExchange]

variable {K : Type} [Zero K] [One K] [Neg K] [Add K] [Sub K] [Mul K] [Div K] [LT K] [DecidableLT K]
  [LE K] [DecidableLE K] [BEq K] [Selectable K] {settings : Settings K} {phase : Phase} {sign : K}

namespace State

/-! ### Faults of single steps -/

section Steps

omit [Add K] [LT K] [DecidableLT K] [Selectable K]

omit [Sub K] [Mul K] in
theorem settle_ne_counterOverflow {objective : List K} {tableau : Tableau K} {basis : List Nat}
    {iterations : Nat} {hcols : tableau.cols = objective.length + 1}
    {hbasis : basis.length = tableau.rows} :
    settle objective tableau basis iterations hcols hbasis ≠ .error .counterOverflow := by
  unfold settle
  split
  · intro h
    cases h
  · dsimp only
    split
    · intro h
      cases h
    · intro h
      cases h

omit [Sub K] [Mul K] in
theorem ofTableau_ne_counterOverflow (objective : List K) (tableau : Tableau K)
    (basis : List Nat) : ofTableau objective tableau basis ≠ .error .counterOverflow := by
  unfold ofTableau
  split
  · split
    · exact settle_ne_counterOverflow
    · intro h
      cases h
  · intro h
    cases h

theorem exchange_ne_counterOverflow (s : State K) (row col : Nat) :
    s.exchange row col ≠ .error .counterOverflow := by
  unfold exchange
  split
  · exact settle_ne_counterOverflow
  · intro h
    cases h

end Steps

omit [Add K] [Selectable K] in
theorem expelAt_ne_counterOverflow (s : State K) (first : Nat) (tolerance : K) (i : Nat) :
    s.expelAt first tolerance i ≠ .error .counterOverflow := by
  unfold expelAt
  split
  · nofun
  · next j _ =>
    intro h
    rcases Fault.bind_eq_error.1 h with hexchange | ⟨_, -, hpure⟩
    · exact s.exchange_ne_counterOverflow i j hexchange
    · cases hpure
  · nofun

omit [Add K] [Selectable K] in
theorem expelArtificials_ne_counterOverflow (first : Nat) (tolerance : K) (left i : Nat)
    (s : State K) : s.expelArtificials first tolerance left i ≠ .error .counterOverflow := by
  induction left generalizing i s with
  | zero => nofun
  | succ left ih =>
      intro h
      rcases Fault.bind_eq_error.1 h with hround | ⟨round, -, hrest⟩
      · exact s.expelAt_ne_counterOverflow first tolerance i hround
      · exact ih round.1 round.2 hrest

/-! ### Runs and their counters -/

namespace IsRun

variable {s : State K} {n m : Nat} {f : Nat → State K}

/-- Every exchange of a run is counted. -/
theorem iterations_eq (h : IsRun settings sign s n f) {k : Nat} (hk : k ≤ n) :
    (f k).iterations = s.iterations + k := by
  induction k with
  | zero => rw [h.start, Nat.add_zero]
  | succ k ih =>
      obtain ⟨row, col, next, -, hnext, heq⟩ := (h.step k hk).exists_exchange
      have hcount : next.iterations = (f k).iterations := (exchange_eq_ok hnext).2.2
      rw [heq, show next.count.iterations = next.iterations + 1 from rfl, hcount,
        ih (Nat.le_of_succ_le hk), Nat.add_assoc]

/-- **No run is longer than the cap.** -/
theorem le_cap (h : IsRun settings sign s n f) (hcap : settings.cap = some m)
    (hs : s.iterations ≤ m) : s.iterations + n ≤ m := by
  cases n with
  | zero => exact hs
  | succ n =>
      -- the last exchange was made below the cap
      obtain ⟨row, col, next, hverdict, -, -⟩ := (h.step n n.lt_succ_self).exists_exchange
      have hlt := Settings.lt_of_capReached hcap (verdict_eq_exchange hverdict).2.1
      rw [h.iterations_eq n.le_succ] at hlt
      exact hlt

end IsRun

/-- **A loop runs out of room** exactly if there is a run with one exchange more. -/
theorem improve_eq_counterOverflow_iff {room : Nat} {s : State K} :
    improve settings phase sign room s = .error .counterOverflow ↔
      ∃ f, IsRun settings sign s (room + 1) f := by
  induction room using Nat.strongRecOn generalizing s with
  | ind room ih =>
      cases hverdict : s.verdict settings sign with
      | stop outcome =>
          rw [improve_of_stop hverdict]
          refine iff_of_false nofun fun ⟨f, hrun⟩ => ?_
          obtain ⟨row, col, next, hgoes, -, -⟩ := (hrun.step 0 room.succ_pos).exists_exchange
          rw [hrun.start, hverdict] at hgoes
          cases hgoes
      | exchange row col =>
          cases hnext : s.exchange row col with
          | error fault =>
              rw [improve_of_fault hverdict hnext]
              refine iff_of_false (fun h => ?_) fun ⟨f, hrun⟩ => ?_
              · cases h
                exact s.exchange_ne_counterOverflow row col hnext
              · obtain ⟨row', col', next, hgoes, hmade, -⟩ :=
                  (hrun.step 0 room.succ_pos).exists_exchange
                rw [hrun.start, hverdict] at hgoes
                cases hgoes
                rw [hrun.start, hnext] at hmade
                cases hmade
          | ok next =>
              have hstep : Step settings sign s next.count := .exchange hverdict hnext
              cases room with
              | zero =>
                  rw [improve_zero_of_exchange hverdict hnext]
                  exact iff_of_true rfl ⟨_, (IsRun.refl settings sign next.count).cons hstep⟩
              | succ left =>
                  have hrest : improve settings phase sign (left + 1) s =
                      .error .counterOverflow ↔
                        improve settings phase sign left next.count = .error .counterOverflow := by
                    rw [improve_of_exchange hverdict hnext, Fault.bind_eq_error]
                    exact or_iff_left fun ⟨_, _, hpure⟩ => nomatch hpure
                  rw [hrest, ih left left.lt_succ_self]
                  constructor
                  · rintro ⟨f, hrun⟩
                    exact ⟨_, hrun.cons hstep⟩
                  · rintro ⟨f, hrun⟩
                    -- the run begins with the exchange that the verdict calls for
                    have hfirst := hrun.step 0 (Nat.succ_pos _)
                    rw [hrun.start] at hfirst
                    have heq : f 1 = next.count := rightUnique_step settings sign hfirst hstep
                    exact ⟨_, heq ▸ hrun.tail⟩

/-- A whole pass without exchanges on its count. -/
theorem pass_eq_counterOverflow_iff {s : State K} (hs : s.iterations = 0) :
    s.pass settings phase sign = .error .counterOverflow ↔
      ∃ f, IsRun settings sign s counterLimit f := by
  have hroom : s.room + 1 = counterLimit := by
    rw [room, hs]
    rfl
  rw [State.pass, Fault.bind_eq_error, improve_eq_counterOverflow_iff, hroom]
  exact or_iff_left fun ⟨_, _, hpure⟩ => nomatch hpure

/-- **A cap that is a count keeps a pass within its counter.** -/
theorem pass_ne_counterOverflow {s : State K} (hs : s.iterations = 0) {m : Nat}
    (hcap : settings.cap = some m) (hm : m < counterLimit) :
    s.pass settings phase sign ≠ .error .counterOverflow := by
  rw [ne_eq, pass_eq_counterOverflow_iff hs]
  rintro ⟨f, hrun⟩
  have hle := hrun.le_cap hcap (hs ▸ Nat.zero_le m)
  omega

/-- The passes that end after `n` exchanges are the runs of this length that end in a verdict to
stop. -/
theorem exists_pass_iff {s : State K} (hs : s.iterations = 0) {n : Nat} :
    (∃ pass, s.pass settings phase sign = .ok pass ∧ pass.state.iterations = n) ↔
      n < counterLimit ∧ ∃ f outcome, IsRun settings sign s n f ∧
        (f n).verdict settings sign = .stop outcome := by
  have hroom : n ≤ s.room ↔ n < counterLimit := by
    rw [room, hs]
    unfold counterLimit
    omega
  rw [← hroom]
  constructor
  · rintro ⟨⟨outcome, t, events⟩, hpass, rfl⟩
    obtain ⟨n, f, hrun, rfl, hle, hstop⟩ := exists_pass_iff_isRun.1 ⟨events, hpass⟩
    have hcount : (f n).iterations = n := by rw [hrun.iterations_eq le_rfl, hs, Nat.zero_add]
    rw [show (⟨outcome, f n, events⟩ : Pass K).state.iterations = n from hcount]
    exact ⟨hle, f, outcome, hrun, hstop⟩
  · rintro ⟨hle, f, outcome, hrun, hstop⟩
    obtain ⟨events, hpass⟩ := exists_pass_iff_isRun.2 ⟨n, f, hrun, rfl, hle, hstop⟩
    refine ⟨_, hpass, ?_⟩
    rw [hrun.iterations_eq le_rfl, hs, Nat.zero_add]

end State

namespace Program

variable {p : Program K}

/-! ### More exchanges than a counter holds -/

/-- The exchanges of a solve are more than one of its counters holds. -/
inductive Overcounts (p : Program K) (settings : Settings K) : Prop where
  /-- Those of the search are. -/
  | search {start : State K} {f : Nat → State K} :
      (EqualityForm.ofProgram p).hasArtificials = true →
      State.ofTableau (EqualityForm.ofProgram p).artificialCosts (EqualityForm.ofProgram p).tableau
        (EqualityForm.ofProgram p).basis = .ok start →
      State.IsRun settings (Direction.sign .minimize) start counterLimit f →
      Overcounts p settings
  /-- Those of the second phase are. -/
  | second {tableau : Tableau K} {basis : List Nat} {earlier : Nat} {start : State K}
      {f : Nat → State K} :
      p.SecondBegins settings tableau basis earlier →
      State.ofTableau p.extendedCosts tableau basis = .ok start →
      State.IsRun settings p.direction.sign start counterLimit f →
      Overcounts p settings
  /-- Both phases come to an end, and those of both together are. -/
  | total {tableau : Tableau K} {basis : List Nat} {earlier n : Nat} {start : State K}
      {f : Nat → State K} {outcome : Outcome} :
      p.SecondBegins settings tableau basis earlier →
      State.ofTableau p.extendedCosts tableau basis = .ok start →
      State.IsRun settings p.direction.sign start n f →
      (f n).verdict settings p.direction.sign = .stop outcome →
      n < counterLimit → counterLimit ≤ earlier + n →
      Overcounts p settings

/-! ### The phases -/

omit [Selectable K] in
theorem feasibilityOf_ne_counterOverflow (form : EqualityForm K) (settings : Settings K)
    (pass : Pass K) : form.feasibilityOf settings pass ≠ .error .counterOverflow := by
  unfold EqualityForm.feasibilityOf
  dsimp only
  split
  · nofun
  · nofun
  · split
    · nofun
    · intro h
      rcases Fault.bind_eq_error.1 h with hexpel | ⟨_, -, hpure⟩
      · exact State.expelArtificials_ne_counterOverflow _ _ _ _ _ hexpel
      · cases hpure

theorem searchFeasible_eq_counterOverflow_iff {form : EqualityForm K} :
    form.searchFeasible settings = .error .counterOverflow ↔
      ∃ start f, State.ofTableau form.artificialCosts form.tableau form.basis = .ok start ∧
        State.IsRun settings (Direction.sign .minimize) start counterLimit f := by
  unfold EqualityForm.searchFeasible
  constructor
  · intro h
    rcases Fault.bind_eq_error.1 h with hstart | ⟨start, hstart, h⟩
    · exact absurd hstart (State.ofTableau_ne_counterOverflow _ _ _)
    · have hzero := (State.ofTableau_eq_ok hstart).2.2
      rcases Fault.bind_eq_error.1 h with hpass | ⟨pass, -, h⟩
      · obtain ⟨f, hrun⟩ := (State.pass_eq_counterOverflow_iff hzero).1 hpass
        exact ⟨start, f, hstart, hrun⟩
      · rcases Fault.bind_eq_error.1 h with hresult | ⟨_, -, hpure⟩
        · exact absurd hresult (feasibilityOf_ne_counterOverflow form settings pass)
        · cases hpure
  · rintro ⟨start, f, hstart, hrun⟩
    have hzero := (State.ofTableau_eq_ok hstart).2.2
    have hpass : start.pass settings .one (Direction.sign .minimize) = .error .counterOverflow :=
      (State.pass_eq_counterOverflow_iff hzero).2 ⟨f, hrun⟩
    exact Fault.bind_eq_error.2 (Or.inr ⟨start, hstart, Fault.bind_eq_error.2 (Or.inl hpass)⟩)

theorem secondPhase_eq_counterOverflow_iff {tableau : Tableau K} {basis : List Nat}
    {earlier : Nat} :
    p.secondPhase settings tableau basis earlier = .error .counterOverflow ↔
      ∃ start, State.ofTableau p.extendedCosts tableau basis = .ok start ∧
        (start.pass settings .two p.direction.sign = .error .counterOverflow ∨
          ∃ pass, start.pass settings .two p.direction.sign = .ok pass ∧
            counterLimit ≤ earlier + pass.state.iterations) := by
  have htotal : ∀ n, totalIterations earlier n = .error .counterOverflow ↔
      counterLimit ≤ earlier + n := by
    intro n
    unfold totalIterations
    split
    · next hlt => exact iff_of_false nofun (not_le.2 hlt)
    · next hle => exact iff_of_true rfl (not_lt.1 hle)
  unfold secondPhase
  constructor
  · intro h
    rcases Fault.bind_eq_error.1 h with hstart | ⟨start, hstart, h⟩
    · exact absurd hstart (State.ofTableau_ne_counterOverflow _ _ _)
    · rcases Fault.bind_eq_error.1 h with hpass | ⟨pass, hpass, h⟩
      · exact ⟨start, hstart, Or.inl hpass⟩
      · rcases Fault.bind_eq_error.1 h with hsum | ⟨_, -, hpure⟩
        · exact ⟨start, hstart, Or.inr ⟨pass, hpass, (htotal _).1 hsum⟩⟩
        · cases hpure
  · rintro ⟨start, hstart, hpass | ⟨pass, hpass, hsum⟩⟩
    · exact Fault.bind_eq_error.2 (Or.inr ⟨start, hstart, Fault.bind_eq_error.2 (Or.inl hpass)⟩)
    · exact Fault.bind_eq_error.2 (Or.inr ⟨start, hstart, Fault.bind_eq_error.2 (Or.inr
        ⟨pass, hpass, Fault.bind_eq_error.2 (Or.inl ((htotal _).2 hsum))⟩)⟩)

/-- A second phase overflows a counter exactly if its exchanges are too many, by themselves or with
those of the search. -/
theorem secondPhase_overflows_iff {tableau : Tableau K} {basis : List Nat} {earlier : Nat} :
    p.secondPhase settings tableau basis earlier = .error .counterOverflow ↔
      ∃ start, State.ofTableau p.extendedCosts tableau basis = .ok start ∧
        ((∃ f, State.IsRun settings p.direction.sign start counterLimit f) ∨
          ∃ n f outcome, State.IsRun settings p.direction.sign start n f ∧
            (f n).verdict settings p.direction.sign = .stop outcome ∧
            n < counterLimit ∧ counterLimit ≤ earlier + n) := by
  rw [secondPhase_eq_counterOverflow_iff]
  refine exists_congr fun start => and_congr_right fun hstart => ?_
  have hzero := (State.ofTableau_eq_ok hstart).2.2
  refine or_congr (State.pass_eq_counterOverflow_iff hzero) ?_
  constructor
  · rintro ⟨pass, hpass, hsum⟩
    obtain ⟨hlimit, f, outcome, hrun, hstop⟩ := (State.exists_pass_iff hzero).1 ⟨pass, hpass, rfl⟩
    exact ⟨_, f, outcome, hrun, hstop, hlimit, hsum⟩
  · rintro ⟨n, f, outcome, hrun, hstop, hlimit, hsum⟩
    obtain ⟨pass, hpass, hcount⟩ : ∃ pass, start.pass settings .two p.direction.sign = .ok pass ∧
        pass.state.iterations = n :=
      (State.exists_pass_iff hzero).2 ⟨hlimit, f, outcome, hrun, hstop⟩
    exact ⟨pass, hpass, hcount ▸ hsum⟩

/-! ### Solving -/

/-- Too many exchanges are those of a phase that overflows a counter. -/
theorem overcounts_iff : p.Overcounts settings ↔
    ((EqualityForm.ofProgram p).hasArtificials = true ∧
      (EqualityForm.ofProgram p).searchFeasible settings = .error .counterOverflow) ∨
    ∃ tableau basis earlier, p.SecondBegins settings tableau basis earlier ∧
      p.secondPhase settings tableau basis earlier = .error .counterOverflow := by
  simp only [searchFeasible_eq_counterOverflow_iff, secondPhase_overflows_iff]
  constructor
  · intro hover
    cases hover with
    | search hartificials hstart hrun => exact Or.inl ⟨hartificials, _, _, hstart, hrun⟩
    | second hbegins hstart hrun =>
        exact Or.inr ⟨_, _, _, hbegins, _, hstart, Or.inl ⟨_, hrun⟩⟩
    | total hbegins hstart hrun hstop hlimit hsum =>
        exact Or.inr ⟨_, _, _, hbegins, _, hstart, Or.inr ⟨_, _, _, hrun, hstop, hlimit, hsum⟩⟩
  · rintro (⟨hartificials, start, f, hstart, hrun⟩ |
      ⟨tableau, basis, earlier, hbegins, start, hstart, ⟨f, hrun⟩ |
        ⟨n, f, outcome, hrun, hstop, hlimit, hsum⟩⟩)
    · exact .search hartificials hstart hrun
    · exact .second hbegins hstart hrun
    · exact .total hbegins hstart hrun hstop hlimit hsum

theorem solveFitting_eq_counterOverflow_iff :
    p.solveFitting settings = .error .counterOverflow ↔ p.Overcounts settings := by
  rw [overcounts_iff]
  unfold solveFitting
  constructor
  · intro h
    dsimp only at h
    split at h
    · next hartificials =>
      rcases Fault.bind_eq_error.1 h with hsearch | ⟨⟨result, events⟩, hsearch, h⟩
      · exact Or.inl ⟨hartificials, hsearch⟩
      · cases result with
        | feasible tableau basis earlier =>
            rcases Fault.bind_eq_error.1 h with hsecond | ⟨_, -, hpure⟩
            · exact Or.inr ⟨tableau, basis, earlier, .searched hartificials hsearch, hsecond⟩
            · cases hpure
        | infeasible iterations => cases h
        | exhausted iterations => cases h
    · next hartificials =>
      rcases Fault.bind_eq_error.1 h with hsecond | ⟨_, -, hpure⟩
      · exact Or.inr ⟨_, _, _, .direct (Bool.eq_false_iff.2 hartificials), hsecond⟩
      · cases hpure
  · rintro (⟨hartificials, hsearch⟩ | ⟨tableau, basis, earlier, hbegins, hsecond⟩)
    · rw [if_pos hartificials]
      exact Fault.bind_eq_error.2 (Or.inl hsearch)
    · cases hbegins with
      | direct hnone =>
          rw [if_neg (Bool.eq_false_iff.1 hnone)]
          exact Fault.bind_eq_error.2 (Or.inl hsecond)
      | searched hartificials hsearch =>
          rw [if_pos hartificials]
          exact Fault.bind_eq_error.2 (Or.inr ⟨_, hsearch, Fault.bind_eq_error.2 (Or.inl hsecond)⟩)

/-- **A counter overflows exactly if the exchanges are more than it holds.** -/
theorem solve_eq_counterOverflow_iff :
    p.solve settings = .error (.fault .counterOverflow) ↔
      p.mismatch = none ∧ p.Overcounts settings := by
  rw [← solveFitting_eq_counterOverflow_iff]
  unfold solve
  cases p.mismatch with
  | some e => simp
  | none =>
      cases p.solveFitting settings with
      | error fault => simp [Except.mapError]
      | ok run => simp [Except.mapError]

/-- **What a cap rules out.** Each phase stays within its counter; both together may not, unless
twice the cap is a count or there is one phase only. -/
theorem Overcounts.of_cap (h : p.Overcounts settings) {m : Nat} (hcap : settings.cap = some m)
    (hm : m < counterLimit) :
    (EqualityForm.ofProgram p).hasArtificials = true ∧ counterLimit ≤ 2 * m := by
  have hlength : ∀ {sign : K} {start : State K} {n : Nat} {f : Nat → State K},
      start.iterations = 0 → State.IsRun settings sign start n f → n ≤ m := by
    intro sign start n f hzero hrun
    have hle := hrun.le_cap hcap (hzero ▸ Nat.zero_le m)
    omega
  cases h with
  | search _ hstart hrun =>
      have hle := hlength (State.ofTableau_eq_ok hstart).2.2 hrun
      omega
  | second _ hstart hrun =>
      have hle := hlength (State.ofTableau_eq_ok hstart).2.2 hrun
      omega
  | total hbegins hstart hrun _ _ hsum =>
      have hle := hlength (State.ofTableau_eq_ok hstart).2.2 hrun
      cases hbegins with
      | direct _ => omega
      | searched hartificials hsearch =>
          obtain ⟨t, -, -, hfound, -, hcounts⟩ := exists_transcript_of_searchFeasible hsearch
          have hfirst : t.exchanges.length ≤ m := hcounts.within m hcap
          rw [← hfound] at hfirst
          have htwice : counterLimit ≤ m + m := hsum.trans (Nat.add_le_add hfirst hle)
          exact ⟨hartificials, by omega⟩

/-! ### Exchanges counted -/

/-- **An answer counts the exchanges that are told about.** -/
theorem iterations_of_solve {run : Run K} (h : p.solve settings = .ok run) :
    run.solution.iterations = run.events.countP Event.isExchange := by
  obtain ⟨-, hassembles⟩ := solve_eq_ok.1 h
  cases hassembles with
  | direct _ hsecond =>
      obtain ⟨t, htold, -, hcount, -, -⟩ := exists_transcript_of_secondPhase hsecond
      simpa [htold, Event.isExchange, t.countP_events] using hcount
  | @searched _ _ iterations events _ _ hsearch hsecond =>
      obtain ⟨t, htold, -, hfirst, -, -⟩ := exists_transcript_of_searchFeasible hsearch
      obtain ⟨u, hutold, -, hcount, -, -⟩ := exists_transcript_of_secondPhase hsecond
      have hevents : events = t.events .one := htold
      have hlength : iterations = t.exchanges.length := hfirst
      simp [hevents, hutold, Event.isExchange, t.countP_events, u.countP_events, hcount, hlength]
  | @infeasible iterations events _ hsearch =>
      obtain ⟨t, htold, -, hcount, -, -⟩ := exists_transcript_of_searchFeasible hsearch
      have hevents : events = t.events .one := htold
      have hlength : iterations = t.exchanges.length := hcount
      simp [hevents, Event.isExchange, t.countP_events, hlength, Solution.infeasible,
        Solution.withoutPoint]
  | @exhausted iterations events _ hsearch =>
      obtain ⟨t, htold, -, hcount, -, -⟩ := exists_transcript_of_searchFeasible hsearch
      have hevents : events = t.events .one := htold
      have hlength : iterations = t.exchanges.length := hcount
      simp [hevents, Event.isExchange, t.countP_events, hlength, Solution.exhausted,
        Solution.withoutPoint]

theorem iterations_lt_of_solve {run : Run K} (h : p.solve settings = .ok run) :
    run.solution.iterations < counterLimit := by
  obtain ⟨-, hassembles⟩ := solve_eq_ok.1 h
  cases hassembles with
  | direct _ hsecond =>
      obtain ⟨-, -, -, -, hlt, -⟩ := exists_transcript_of_secondPhase hsecond
      exact hlt
  | searched _ _ hsecond =>
      obtain ⟨-, -, -, -, hlt, -⟩ := exists_transcript_of_secondPhase hsecond
      exact hlt
  | infeasible _ hsearch =>
      obtain ⟨-, -, -, -, hlt, -⟩ := exists_transcript_of_searchFeasible hsearch
      exact hlt
  | exhausted _ hsearch =>
      obtain ⟨-, -, -, -, hlt, -⟩ := exists_transcript_of_searchFeasible hsearch
      exact hlt

end Program

/-! ### Cycling under a cap -/

namespace State

omit [One K] [Sub K] [LE K] [DecidableLE K] [BEq K] in
/-- Where an exchange is made without a cap, it is made under a cap that is not reached. -/
theorem verdict_of_uncapped {tolerance : K} {s : State K} {row col : Nat} (m : Nat)
    (h : s.verdict ⟨none, tolerance⟩ sign = .exchange row col) :
    s.verdict ⟨some m, tolerance⟩ sign =
      if m ≤ s.iterations then .stop .exhausted else .exchange row col := by
  obtain ⟨hprice, -, hratio⟩ := verdict_eq_exchange h
  unfold verdict Settings.capReached
  simp only [hprice, hratio, decide_eq_true_eq]

/-- A run is a run under any cap that it does not reach. -/
theorem IsRun.of_uncapped {tolerance : K} {s : State K} {n m : Nat} {f : Nat → State K}
    (h : IsRun ⟨none, tolerance⟩ sign s n f) (hm : s.iterations + n ≤ m) :
    IsRun ⟨some m, tolerance⟩ sign s n f := by
  refine ⟨h.start, fun k hk => ?_⟩
  obtain ⟨row, col, next, hverdict, hnext, heq⟩ := (h.step k hk).exists_exchange
  have hbelow : ¬m ≤ (f k).iterations := by
    rw [h.iterations_eq hk.le]
    omega
  rw [heq]
  exact .exchange ((verdict_of_uncapped m hverdict).trans (if_neg hbelow)) hnext

/-- **A pass that comes back to where it began uses up any cap.** -/
theorem IsRun.exists_capped {tolerance sign : ℚ} {s : State ℚ} {n k : Nat} {f : Nat → State ℚ}
    (h : IsRun ⟨none, tolerance⟩ sign s n f) (hs : s.Canonical) (hzero : s.iterations = 0)
    (htol : 0 ≤ tolerance) (hn : 0 < n) (hback : f n = s.recount k) (m : Nat) :
    ∃ g, IsRun ⟨some m, tolerance⟩ sign s m g ∧
      (g m).verdict ⟨some m, tolerance⟩ sign = .stop .exhausted := by
  obtain ⟨g, hrun⟩ := h.exists_isRun hs htol hn hback m
  refine ⟨g, hrun.of_uncapped (by omega), ?_⟩
  cases hverdict : (g m).verdict ⟨none, tolerance⟩ sign with
  | stop outcome => exact absurd hverdict (h.verdict_ne_stop hn hback (hrun.reaches le_rfl) outcome)
  | exchange row col =>
      have hcount : (g m).iterations = m := by
        rw [hrun.iterations_eq le_rfl, hzero, Nat.zero_add]
      rw [verdict_of_uncapped _ hverdict, if_pos hcount.ge]

end State

namespace Program

/-- **When a counter overflows, and what an answer counts.** For a well-formed program a counter
overflows exactly if the exchanges of the search, those of the second phase or those of both are
more than a counter holds. Otherwise every addition is exact: an answer counts the exchanges that
are told about. No pass overflows its counter under a cap that is a count itself, and nor does
their sum, if there is no search or twice the cap is a count as well. -/
theorem counters_of_solve (p : Program K) (settings : Settings K) :
    (p.solve settings = .error (.fault .counterOverflow) ↔
      p.mismatch = none ∧ p.Overcounts settings) ∧
    (∀ run, p.solve settings = .ok run →
      run.solution.iterations = run.events.countP Event.isExchange ∧
        run.events.countP Event.isExchange < counterLimit) ∧
    ∀ m, settings.cap = some m → m < counterLimit →
      (∀ (phase : Phase) (sign : K) (s : State K), s.iterations = 0 →
        s.pass settings phase sign ≠ .error .counterOverflow) ∧
      ((EqualityForm.ofProgram p).hasArtificials = false ∨ 2 * m < counterLimit →
        p.solve settings ≠ .error (.fault .counterOverflow)) := by
  refine ⟨solve_eq_counterOverflow_iff, fun run hrun => ?_, fun m hcap hm => ⟨?_, ?_⟩⟩
  · have hcount := iterations_of_solve hrun
    exact ⟨hcount, hcount ▸ iterations_lt_of_solve hrun⟩
  · exact fun phase sign s hs => State.pass_ne_counterOverflow hs hcap hm
  · intro hroom hover
    obtain ⟨hartificials, htwice⟩ := (solve_eq_counterOverflow_iff.1 hover).2.of_cap hcap hm
    rcases hroom with hnone | htwice'
    · rw [hnone] at hartificials
      cases hartificials
    · omega

/-- Both phases use up their cap, and the answer counts the exchanges of both. -/
theorem counters_of_solve_both_caps_used_up :
    let p : Program ℚ := ⟨.maximize, [5, 4, 3], [⟨[1, 1, 1], .atLeast, 1⟩,
      ⟨[2, 3, 1], .atMost, 5⟩, ⟨[4, 1, 2], .atMost, 11⟩, ⟨[3, 4, 2], .atMost, 8⟩]⟩
    let settings : Settings ℚ := ⟨some 1, 1e-9⟩
    settings.cap = some 1 ∧ 1 < counterLimit ∧ 2 * 1 < counterLimit ∧
      p.solve settings ≠ .error (.fault .counterOverflow) ∧
      ∃ run, p.solve settings = .ok run ∧ run.solution.iterations = 2 ∧
        run.events.countP Event.isExchange = 2 := by
  intro p settings
  obtain ⟨-, hcounts, hcapped⟩ := counters_of_solve p settings
  have hlimit : 2 * 1 < counterLimit := by decide
  have hsolve : (p.solve settings).map (·.solution.iterations) = .ok 2 := by decide +kernel
  cases hrun : p.solve settings with
  | error e => rw [hrun] at hsolve; cases hsolve
  | ok run =>
      rw [hrun] at hsolve
      have htwo : run.solution.iterations = 2 := Except.ok.inj hsolve
      have hover := (hcapped 1 rfl (by decide)).2 (Or.inr hlimit)
      rw [hrun] at hover
      exact ⟨rfl, by decide, hlimit, hover, run, rfl, htwo, (hcounts run hrun).1 ▸ htwo⟩

/-- **Two caps are more than a counter holds.** The search makes one exchange, and then the second
phase cycles until it has used up a cap that is the greatest count. -/
theorem solve_overcounts :
    let p : Program ℚ := .build .maximize [10, -57, -9, -24, 0]
      [.add [1 / 2, -11 / 2, -5 / 2, 9, 0] "<=" 0, .add [1 / 2, -3 / 2, -1 / 2, 1, 0] "<=" 0,
        .add [1, 0, 0, 0, 0] "<=" 1, .add [0, 0, 0, 0, 1] ">=" 1]
    let settings : Settings ℚ := ⟨some 4294967295, 1e-9⟩
    4294967295 < counterLimit ∧ p.mismatch = none ∧
      p.solve settings = .error (.fault .counterOverflow) := by
  intro p settings
  have hfit : p.mismatch = none := by decide +kernel
  refine ⟨by decide, hfit, solve_eq_counterOverflow_iff.2 ⟨hfit, ?_⟩⟩
  let tableau : Tableau ℚ := ⟨4, 10, #[1 / 2, -11 / 2, -5 / 2, 9, 0, 1, 0, 0, 0, 0,
    1 / 2, -3 / 2, -1 / 2, 1, 0, 0, 1, 0, 0, 0, 1, 0, 0, 0, 0, 0, 0, 1, 0, 1,
    0, 0, 0, 0, 1, 0, 0, 0, -1, 1], rfl⟩
  let start : State ℚ := ⟨[10, -57, -9, -24, 0, 0, 0, 0, 0], tableau, [5, 6, 7, 4], 0, rfl, rfl,
    by decide⟩
  have hsearch : ((EqualityForm.ofProgram p).searchFeasible settings).map (·.result) =
      .ok (.feasible tableau [5, 6, 7, 4] 1) := by decide +kernel
  have hbegins : p.SecondBegins settings tableau [5, 6, 7, 4] 1 := by
    cases hfound : (EqualityForm.ofProgram p).searchFeasible settings with
    | error fault => rw [hfound] at hsearch; cases hsearch
    | ok search =>
        rw [hfound] at hsearch
        obtain ⟨result, events⟩ := search
        cases hsearch
        exact .searched (by decide +kernel) hfound
  have hstart : State.ofTableau p.extendedCosts tableau [5, 6, 7, 4] = .ok start := by
    decide +kernel
  have hback : (start.pass ⟨some 6, 1e-9⟩ .two p.direction.sign).map (·.state) =
      .ok (start.recount 6) := by decide +kernel
  have hcanonical : start.Canonical := ⟨rfl, by decide, by decide +kernel⟩
  obtain ⟨f, hround, hreturn⟩ := State.exists_isRun_of_capped hback rfl
  obtain ⟨g, hrun, hstop⟩ := hround.exists_capped hcanonical rfl (by decide +kernel) (by decide)
    hreturn 4294967295
  have hlimit : 4294967295 < counterLimit := by decide
  have hsum : counterLimit ≤ 1 + 4294967295 := by decide
  exact .total hbegins hstart hrun hstop hlimit hsum

end Program

end SimplexMethod
