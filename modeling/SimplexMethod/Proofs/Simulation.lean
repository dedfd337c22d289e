import SimplexMethod.Proofs.Reach

/-!
# SimplexMethod.Proofs.Simulation

**Two passes side by side.** A `State.Simulation` is a relation between states of two passes, for
tables that number their columns differently: related states have the same verdict, up to the
numbers of columns, and the exchanges that it calls for lead to related states again. Then whole
passes end in the same way, at related states (`Simulation.pass`).

Requests may fail, so what is related are results of requests: `Alike` says that two of them have
related results or the same fault. A failure on one side only is excluded, which is why one
induction on the room of the counter is enough for both directions.

Nothing is assumed of the numbers.
-/

namespace SimplexMethod

/-! ### Related results -/

/-- Two requests have related results or the same fault. -/
inductive Alike {α β : Type} (R : α → β → Prop) : Except Fault α → Except Fault β → Prop where
  | ok {a : α} {b : β} : R a b → Alike R (.ok a) (.ok b)
  | error (fault : Fault) : Alike R (.error fault) (.error fault)

namespace Alike

variable {α β γ δ : Type} {R : α → β → Prop} {S : γ → δ → Prop} {x : Except Fault α}
  {y : Except Fault β}

/-- Requests in a row are alike if each of them is, given what the one before it resulted in. -/
theorem bind (h : Alike R x y) {f : α → Except Fault γ} {g : β → Except Fault δ}
    (hfg : ∀ a b, R a b → Alike S (f a) (g b)) : Alike S (x >>= f) (y >>= g) := by
  cases h with
  | ok hab => exact hfg _ _ hab
  | error fault => exact .error fault

/-- What is read off alike results is what the results are related by. -/
theorem of_map {f : γ → α} {g : δ → β} {x : Except Fault γ} {y : Except Fault δ}
    (h : Alike R (x.map f) (y.map g)) : Alike (fun a b => R (f a) (g b)) x y := by
  cases x with
  | error fault =>
      cases y with
      | error fault' => cases h; exact .error fault
      | ok b => cases h
  | ok a =>
      cases y with
      | error fault' => cases h
      | ok b => cases h with | ok hab => exact .ok hab

end Alike

/-! ### Simulations -/

/-- The verdict in a table that numbers its columns differently. -/
def Verdict.mapColumn (column : Nat → Nat) : Verdict → Verdict
  | .stop outcome => .stop outcome
  | .exchange row col => .exchange row (column col)

variable {K : Type}

/-- Two passes end in the same way, at related states. -/
structure Pass.Alike (R : State K → State K → Prop) (pass pass' : Pass K) : Prop where
  outcome : pass'.outcome = pass.outcome
  state : R pass.state pass'.state

variable [Zero K] [One K] [Neg K] [Add K] [Sub K] [Mul K] [Div K] [LT K] [DecidableLT K] [LE K]
  [DecidableLE K] [BEq K] [Selectable K]

namespace State

/-- A relation between states of two passes that take the same steps. Column `j` of the first
state is column `column j` of the second one. -/
structure Simulation (settings : Settings K) (sign : K) (column : Nat → Nat)
    (R : State K → State K → Prop) : Prop where
  iterations : ∀ {s w}, R s w → w.iterations = s.iterations
  verdict : ∀ {s w}, R s w →
    w.verdict settings sign = (s.verdict settings sign).mapColumn column
  exchange : ∀ {s w row col}, R s w → s.verdict settings sign = .exchange row col →
    Alike (fun t u => R t.count u.count) (s.exchange row col) (w.exchange row (column col))

namespace Simulation

variable {settings : Settings K} {sign : K} {column : Nat → Nat} {R : State K → State K → Prop}
  {s w : State K}

/-- **The loops of two related states go the same way.** -/
theorem improve (h : Simulation settings sign column R) (hsw : R s w) (phase : Phase)
    (room : Nat) :
    Alike (Pass.Alike R) (State.improve settings phase sign room s)
      (State.improve settings phase sign room w) := by
  induction room using Nat.strongRecOn generalizing s w with
  | ind room ih =>
      have hsame := h.verdict hsw
      cases hverdict : s.verdict settings sign with
      | stop outcome =>
          rw [hverdict] at hsame
          rw [improve_of_stop hverdict, improve_of_stop hsame]
          exact .ok ⟨rfl, hsw⟩
      | exchange row col =>
          rw [hverdict] at hsame
          have hnext := h.exchange hsw hverdict
          cases hs : s.exchange row col with
          | error fault =>
              cases hw : w.exchange row (column col) with
              | ok u => rw [hs, hw] at hnext; cases hnext
              | error fault' =>
                  rw [hs, hw] at hnext
                  cases hnext
                  rw [improve_of_fault hverdict hs, improve_of_fault hsame hw]
                  exact .error fault
          | ok t =>
              cases hw : w.exchange row (column col) with
              | error fault => rw [hs, hw] at hnext; cases hnext
              | ok u =>
                  rw [hs, hw] at hnext
                  cases hnext with
                  | ok htu =>
                      cases room with
                      | zero =>
                          rw [improve_zero_of_exchange hverdict hs,
                            improve_zero_of_exchange hsame hw]
                          exact .error .counterOverflow
                      | succ left =>
                          rw [improve_of_exchange hverdict hs, improve_of_exchange hsame hw]
                          refine (ih left left.lt_succ_self htu).bind fun pass pass' hrest => ?_
                          exact .ok ⟨hrest.outcome, hrest.state⟩

/-- **Whole passes from related states** end in the same way, at related states. -/
theorem pass (h : Simulation settings sign column R) (hsw : R s w) (phase : Phase) :
    Alike (Pass.Alike R) (s.pass settings phase sign) (w.pass settings phase sign) := by
  have hroom : w.room = s.room := by
    unfold room
    rw [h.iterations hsw]
  unfold State.pass
  rw [hroom]
  exact (h.improve hsw phase s.room).bind fun pass pass' hpass =>
    .ok ⟨hpass.outcome, hpass.state⟩

end Simulation

end State

end SimplexMethod
