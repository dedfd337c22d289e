import SimplexMethod.Event
import SimplexMethod.Settings
import SimplexMethod.State.Pricing

/-!
# SimplexMethod.Pass

**One pass of the simplex method**: exchanges from a given state until none is left to make.

The decision at a state, `State.verdict`, is separate from the loop that follows it. Its order
matters: a state at which no column improves the objective is optimal even if the cap is reached
there, and a reached cap is reported before the ratio test is looked at.

The loop recurses on the number of exchanges that the counter still has room for, so it is total: a
run that cycles ends with `Fault.counterOverflow`.
-/

namespace SimplexMethod

variable {K : Type}

/-- What to do at a state. -/
inductive Verdict where
  /-- The pass is over. -/
  | stop (outcome : Outcome)
  /-- Column `col` is to become basic in row `row`. -/
  | exchange (row col : Nat)
  deriving DecidableEq, Repr

/-- A finished pass. -/
structure Pass (K : Type) where
  /-- How the pass ended. -/
  outcome : Outcome
  /-- The last state. -/
  state : State K
  /-- What happened, the first event first. -/
  events : List (Event K)
  deriving DecidableEq

namespace State

section Verdict

variable [Zero K] [Neg K] [Add K] [Mul K] [Div K] [LT K] [DecidableLT K] [Selectable K]

/-- What to do at a state, given the sign of the direction. -/
def verdict (s : State K) (settings : Settings K) (sign : K) : Verdict :=
  match s.price sign settings.tolerance with
  | none => .stop .optimal
  | some col =>
    if settings.capReached s.iterations then .stop .exhausted
    else
      match s.tableau.ratioTest col settings.tolerance with
      | none => .stop .unbounded
      | some row => .exchange row col

end Verdict

variable [Zero K] [One K] [Neg K] [Add K] [Sub K] [Mul K] [Div K] [LT K] [DecidableLT K] [LE K]
  [DecidableLE K] [BEq K] [Selectable K]

/-- Exchanges until the verdict is to stop, with room for `room` more in the counter. -/
def improve (settings : Settings K) (phase : Phase) (sign : K) :
    (room : Nat) → State K → Except Fault (Pass K)
  | room, s =>
    match s.verdict settings sign with
    | .stop outcome => .ok ⟨outcome, s, []⟩
    | .exchange row col => do
      let next ← s.exchange row col
      match room with
      | 0 => .error .counterOverflow
      | room + 1 =>
        let rest ← improve settings phase sign room next.count
        return { rest with events := .exchange phase col row next.count :: rest.events }

/-- A pass from a state at which the verdict is to stop is over at once. -/
theorem improve_of_stop {settings : Settings K} {phase : Phase} {sign : K} {room : Nat}
    {s : State K} {outcome : Outcome} (h : s.verdict settings sign = .stop outcome) :
    improve settings phase sign room s = .ok ⟨outcome, s, []⟩ := by
  unfold improve
  rw [h]

/-- A pass from a state at which the verdict is an exchange goes on from the state after it. -/
theorem improve_of_exchange {settings : Settings K} {phase : Phase} {sign : K} {room : Nat}
    {s next : State K} {row col : Nat} (h : s.verdict settings sign = .exchange row col)
    (hnext : s.exchange row col = .ok next) :
    improve settings phase sign (room + 1) s = do
      let rest ← improve settings phase sign room next.count
      return { rest with events := .exchange phase col row next.count :: rest.events } := by
  rw [improve, h]
  simp only [hnext]
  rfl

/-- Where the counter has no room for an exchange, a pass that would make one has no result. -/
theorem improve_zero_of_exchange {settings : Settings K} {phase : Phase} {sign : K}
    {s next : State K} {row col : Nat} (h : s.verdict settings sign = .exchange row col)
    (hnext : s.exchange row col = .ok next) :
    improve settings phase sign 0 s = .error .counterOverflow := by
  rw [improve, h]
  simp only [hnext]
  rfl

/-- How many exchanges the counter of a state has room for. -/
def room (s : State K) : Nat := counterLimit - 1 - s.iterations

/-- A whole pass from a state, with the events that it begins and ends with. The count of exchanges
goes on from that of the state. -/
def pass (s : State K) (settings : Settings K) (phase : Phase) (sign : K) :
    Except Fault (Pass K) := do
  let pass ← improve settings phase sign s.room s
  return { pass with
    events := .phaseStart phase s :: pass.events ++
      [.phaseEnd phase pass.outcome pass.state.objectiveValue] }

end State

end SimplexMethod
