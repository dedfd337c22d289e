import Mathlib.Logic.Relation
import SimplexMethod.Pass

/-!
# SimplexMethod.Proofs.Reach

**The states that a pass goes through.** `State.Step` is one exchange that a pass makes, together
with its count, and `State.Reaches` any number of them. The loop `State.improve` is opened once,
here:

* `improves_of_improve` turns a finished pass into a derivation of `State.Improves`,
  one constructor for a verdict to stop and one for an exchange, so that later
  proofs do induction on the derivation and never see the loop;
* `reaches_of_improve`: the last state is reached from the first one, and the
  verdict there is to stop with the outcome of the pass;
* `fault_of_improve`: a pass without a result has met a state at which the exchange
  it was about to make fails, or its counter has run out of room.

Nothing is assumed of the numbers, so all of this holds for floating-point numbers
too.
-/

namespace SimplexMethod.State

variable {K : Type} {settings : Settings K} {phase : Phase} {sign : K}

/-! ### Verdicts -/

section Verdict

variable [Zero K] [Neg K] [Add K] [Mul K] [Div K] [LT K] [DecidableLT K] [Selectable K]

theorem verdict_eq_exchange {s : State K} {row col : Nat}
    (h : s.verdict settings sign = .exchange row col) :
    s.price sign settings.tolerance = some col ∧ settings.capReached s.iterations = false ∧
      s.tableau.ratioTest col settings.tolerance = some row := by
  unfold verdict at h
  split at h
  · cases h
  · next j hprice =>
    split at h
    · cases h
    · next hcap =>
      split at h
      · cases h
      · next i hratio =>
        cases h
        exact ⟨hprice, Bool.eq_false_iff.2 hcap, hratio⟩

theorem verdict_eq_optimal {s : State K} (h : s.verdict settings sign = .stop .optimal) :
    s.price sign settings.tolerance = none := by
  unfold verdict at h
  split at h
  · assumption
  · split at h
    · cases h
    · split at h <;> cases h

theorem verdict_eq_unbounded {s : State K} (h : s.verdict settings sign = .stop .unbounded) :
    ∃ col, s.price sign settings.tolerance = some col ∧
      s.tableau.ratioTest col settings.tolerance = none := by
  unfold verdict at h
  split at h
  · cases h
  · next col hprice =>
    split at h
    · cases h
    · split at h
      · next hratio => exact ⟨col, hprice, hratio⟩
      · cases h

end Verdict

variable [Zero K] [One K] [Neg K] [Add K] [Sub K] [Mul K] [Div K] [LT K] [DecidableLT K] [LE K]
  [DecidableLE K] [BEq K] [Selectable K]

/-! ### Steps -/

/-- One exchange of a pass, with its count. -/
inductive Step (settings : Settings K) (sign : K) : State K → State K → Prop where
  | exchange {s next : State K} {row col : Nat} :
      s.verdict settings sign = .exchange row col → s.exchange row col = .ok next →
      Step settings sign s next.count

/-- What a step consists of. -/
theorem Step.exists_exchange {s t : State K} (h : Step settings sign s t) :
    ∃ row col next, s.verdict settings sign = .exchange row col ∧
      s.exchange row col = .ok next ∧ t = next.count := by
  cases h with
  | exchange hverdict hnext => exact ⟨_, _, _, hverdict, hnext, rfl⟩

/-- A pass from `s` can get to `t`. -/
def Reaches (settings : Settings K) (sign : K) (s t : State K) : Prop :=
  Relation.ReflTransGen (Step settings sign) s t

/-- Nothing is reached from a state at which the verdict is to stop. -/
theorem Reaches.eq_of_stop {s t : State K} {outcome : Outcome} (h : Reaches settings sign s t)
    (hstop : s.verdict settings sign = .stop outcome) : t = s := by
  rcases Relation.ReflTransGen.cases_head h with rfl | ⟨u, hstep, -⟩
  · rfl
  · obtain ⟨row, col, next, hverdict, -, -⟩ := hstep.exists_exchange
    rw [hstop] at hverdict
    cases hverdict

/-- Whatever is reached comes after the exchange that the verdict calls for. -/
theorem Reaches.eq_or_of_exchange {s t next : State K} {row col : Nat}
    (h : Reaches settings sign s t) (hverdict : s.verdict settings sign = .exchange row col)
    (hnext : s.exchange row col = .ok next) : t = s ∨ Reaches settings sign next.count t := by
  rcases Relation.ReflTransGen.cases_head h with rfl | ⟨u, hstep, hrest⟩
  · exact Or.inl rfl
  · obtain ⟨row', col', next', hverdict', hnext', rfl⟩ := hstep.exists_exchange
    rw [hverdict] at hverdict'
    cases hverdict'
    rw [hnext] at hnext'
    cases hnext'
    exact Or.inr hrest

/-! ### Passes -/

/-- A finished pass from a state, with room for so many exchanges in the counter. -/
inductive Improves (settings : Settings K) (phase : Phase) (sign : K) :
    Nat → State K → Pass K → Prop where
  | stop {room : Nat} {s : State K} {outcome : Outcome} :
      s.verdict settings sign = .stop outcome →
      Improves settings phase sign room s ⟨outcome, s, []⟩
  | exchange {room : Nat} {s next : State K} {row col : Nat} {rest : Pass K} :
      s.verdict settings sign = .exchange row col → s.exchange row col = .ok next →
      Improves settings phase sign room next.count rest →
      Improves settings phase sign (room + 1) s
        { rest with events := .exchange phase col row next.count :: rest.events }

/-- A pass fails with the exchange that it was about to make. -/
theorem improve_of_fault {room : Nat} {s : State K} {row col : Nat} {f : Fault}
    (h : s.verdict settings sign = .exchange row col) (hfault : s.exchange row col = .error f) :
    improve settings phase sign room s = .error f := by
  unfold improve
  rw [h]
  simp only [hfault]
  rfl

theorem improves_of_improve {room : Nat} {s : State K} {pass : Pass K}
    (h : improve settings phase sign room s = .ok pass) :
    Improves settings phase sign room s pass := by
  -- the state is left free, since an exchange leads to another one with less room
  induction room using Nat.strongRecOn generalizing s pass with
  | ind room ih =>
      cases hverdict : s.verdict settings sign with
      | stop outcome =>
          rw [improve_of_stop hverdict] at h
          cases h
          exact .stop hverdict
      | exchange row col =>
          cases hnext : s.exchange row col with
          | error f =>
              rw [improve_of_fault hverdict hnext] at h
              cases h
          | ok next =>
              cases room with
              | zero =>
                  rw [improve_zero_of_exchange hverdict hnext] at h
                  cases h
              | succ left =>
                  rw [improve_of_exchange hverdict hnext] at h
                  cases hrest : improve settings phase sign left next.count with
                  | error f => rw [hrest] at h; cases h
                  | ok rest =>
                      rw [hrest] at h
                      cases h
                      exact .exchange hverdict hnext (ih left left.lt_succ_self hrest)

/-- **Where a pass ends.** -/
theorem reaches_of_improve {room : Nat} {s : State K} {pass : Pass K}
    (h : improve settings phase sign room s = .ok pass) :
    Reaches settings sign s pass.state ∧
      pass.state.verdict settings sign = .stop pass.outcome := by
  have hrun := improves_of_improve h
  clear h
  induction hrun with
  | stop hverdict => exact ⟨.refl, hverdict⟩
  | exchange hverdict hnext _ ih =>
      exact ⟨.head (.exchange hverdict hnext) ih.1, ih.2⟩

/-- **Why a pass has no result.** -/
theorem fault_of_improve {room : Nat} {s : State K} {f : Fault}
    (h : improve settings phase sign room s = .error f) :
    f = .counterOverflow ∨ ∃ t row col, Reaches settings sign s t ∧
      t.verdict settings sign = .exchange row col ∧ t.exchange row col = .error f := by
  induction room using Nat.strongRecOn generalizing s with
  | ind room ih =>
      cases hverdict : s.verdict settings sign with
      | stop outcome =>
          rw [improve_of_stop hverdict] at h
          cases h
      | exchange row col =>
          cases hnext : s.exchange row col with
          | error g =>
              -- the exchange fails here, and nothing after it is looked at
              rw [improve_of_fault hverdict hnext] at h
              cases h
              exact Or.inr ⟨s, row, col, .refl, hverdict, hnext⟩
          | ok next =>
              cases room with
              | zero =>
                  rw [improve_zero_of_exchange hverdict hnext] at h
                  cases h
                  exact Or.inl rfl
              | succ left =>
                  rw [improve_of_exchange hverdict hnext] at h
                  cases hrest : improve settings phase sign left next.count with
                  | ok rest => rw [hrest] at h; cases h
                  | error g =>
                      rw [hrest] at h
                      cases h
                      refine (ih left left.lt_succ_self hrest).imp_right fun hlater => ?_
                      obtain ⟨t, i, j, hreaches, hfault⟩ := hlater
                      exact ⟨t, i, j, .head (.exchange hverdict hnext) hreaches, hfault⟩

/-- A whole pass is a run of the loop between two events. -/
theorem pass_eq_ok {s : State K} {pass : Pass K} :
    s.pass settings phase sign = .ok pass ↔
      ∃ run, improve settings phase sign s.room s = .ok run ∧
        pass = { run with
          events := .phaseStart phase s :: run.events ++
            [.phaseEnd phase run.outcome run.state.objectiveValue] } := by
  unfold State.pass
  constructor
  · intro h
    obtain ⟨run, hrun, h⟩ := Fault.bind_eq_ok.1 h
    cases h
    exact ⟨run, hrun, rfl⟩
  · rintro ⟨run, hrun, rfl⟩
    exact Fault.bind_eq_ok.2 ⟨run, hrun, rfl⟩

theorem improve_of_pass {s : State K} {pass : Pass K}
    (h : s.pass settings phase sign = .ok pass) :
    ∃ run, improve settings phase sign s.room s = .ok run ∧ pass.outcome = run.outcome ∧
      pass.state = run.state := by
  obtain ⟨run, hrun, rfl⟩ := pass_eq_ok.1 h
  exact ⟨run, hrun, rfl, rfl⟩

theorem improve_of_pass_error {s : State K} {f : Fault}
    (h : s.pass settings phase sign = .error f) :
    improve settings phase sign s.room s = .error f := by
  unfold State.pass at h
  cases hrun : improve settings phase sign s.room s with
  | error g => rw [hrun] at h; cases h; rfl
  | ok run => rw [hrun] at h; cases h

end SimplexMethod.State
