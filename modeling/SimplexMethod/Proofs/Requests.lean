import Mathlib.Data.List.Forall2
import SimplexMethod.Proofs.Standard
import SimplexMethod.Proofs.Visited

/-!
# SimplexMethod.Proofs.Requests

**Building a program request by request.** A caller holds one program and changes it in place; a
request that fails answers with its error, and the next one finds the program as it was left.
`Request.call` is a request with this effect, and `run_session` says that requests in a row leave
what `Program.perform` makes of the program, one after the other. The token of a relation is read
before anything is stored, so a failed request has stored nothing.

What is stored is the given constraint with both sides negated if need be (`Constraint.StoredAs`):
nothing about it changes but the way it is written down, and once written so it stays so.

Whether the constraints fit the objective is looked at when the program is solved. The error then
names the first constraint that does not (`mismatch_eq_some_iff`). A row of a block of upper bounds
has one number more than its constraint has coefficients, except for the empty row, which stands for
a constraint without coefficients like the row `[0]` does. It fits a program without variables,
although it has not the one number that a row for such a program has (`Program.Accepts`).
-/

namespace SimplexMethod

/-! ### Relations -/

/-- A token names no relation exactly if it is none of the six. -/
theorem Relation.ofToken_eq_error {token : String} {e : ModelError} :
    Relation.ofToken token = .error e ↔
      token ∉ ["<=", "≤", "==", "=", ">=", "≥"] ∧ e = .invalidRelation token := by
  by_cases hmem : token ∈ ["<=", "≤", "==", "=", ">=", "≥"]
  · refine iff_of_false ?_ fun h => h.1 hmem
    simp only [List.mem_cons, List.not_mem_nil, or_false] at hmem
    rcases hmem with rfl | rfl | rfl | rfl | rfl | rfl <;> simp [ofToken]
  · have hnone : Relation.ofToken token = .error (.invalidRelation token) := by
      simp only [List.mem_cons, List.not_mem_nil, or_false, not_or] at hmem
      simp [ofToken, hmem]
    rw [hnone, Except.error.injEq, and_iff_right hmem, eq_comm]

/-! ### Stored constraints -/

namespace Constraint

/-- A constraint with a right-hand side that is not negative is stored as it is. -/
theorem normalize_of_nonneg {c : Constraint ℚ} (h : 0 ≤ c.rhs) : c.normalize = c :=
  if_neg (not_lt.2 h)

/-- The second constraint is what becomes of the first one when it is stored: it allows the same
points, its right-hand side is not negative, and storing it again changes nothing. -/
structure StoredAs (given stored : Constraint ℚ) : Prop where
  length : stored.coefficients.length = given.coefficients.length
  holds : ∀ x, stored.Holds x ↔ given.Holds x
  rhs_nonneg : 0 ≤ stored.rhs
  normalize : stored.normalize = stored

theorem storedAs_normalize (c : Constraint ℚ) : c.StoredAs c.normalize where
  length := c.length_coefficients_normalize
  holds := c.holds_normalize
  rhs_nonneg := c.rhs_normalize_nonneg
  normalize := normalize_of_nonneg c.rhs_normalize_nonneg

end Constraint

/-! ### Requests made of a program that is held -/

section Calls

variable {K : Type} [Zero K] [Neg K] [LT K] [DecidableLT K]

/-- Calls that change a program in place and may fail. What a call has done before it failed stays
done. -/
abbrev Builder (K : Type) := ExceptT ModelError (StateM (Program K))

namespace Request

/-- The request, made of the program that is held. -/
def call : Request K → Builder K Unit
  | .add coefficients token rhs => do
    let relation ← liftExcept (Relation.ofToken token)
    modify (·.push (Constraint.normalize ⟨coefficients, relation, rhs⟩))
  | .push c => modify (·.push c.normalize)
  | .addUpperBounds rows => rows.forM fun row => modify (·.push (Program.upperBound row))

/-- Requests made one after the other, with the answer to each of them. -/
def session (requests : List (Request K)) : StateM (Program K) (List (Except ModelError Unit)) :=
  requests.mapM fun r => r.call.run

/-- What a request answers: only a token can be wrong with it. -/
def reply : Request K → Except ModelError Unit
  | .add _ token _ => (Relation.ofToken token).map fun _ => ()
  | .push _ => .ok ()
  | .addUpperBounds _ => .ok ()

theorem run_forM_push (rows : List (List K)) (p : Program K) :
    (ExceptT.run (m := StateM (Program K)) (ε := ModelError)
      (rows.forM fun row => modify (·.push (Program.upperBound row)))).run p =
        (.ok (), p.addUpperBounds rows) := by
  induction rows generalizing p with
  | nil =>
      simp [Program.addUpperBounds]
      rfl
  | cons row rest ih =>
      have hfirst : p.addUpperBounds (row :: rest) =
          (p.push (Program.upperBound row)).addUpperBounds rest := by
        simp [Program.addUpperBounds, Program.push]
      rw [hfirst]
      exact ih _

/-- **A request in place** leaves the program that `Program.perform` makes. -/
theorem run_call (r : Request K) (p : Program K) : r.call.run.run p = (r.reply, p.perform r) := by
  cases r with
  | add coefficients token rhs =>
      cases htoken : Relation.ofToken token with
      | ok relation =>
          simp [call, reply, Program.perform, Program.add, htoken, liftExcept]
          rfl
      | error e =>
          simp [call, reply, Program.perform, Program.add, htoken, liftExcept]
          rfl
  | push c => rfl
  | addUpperBounds rows => exact run_forM_push rows p

/-- **Requests in a row.** -/
theorem run_session (requests : List (Request K)) (p : Program K) :
    (session requests).run p = (requests.map reply, requests.foldl Program.perform p) := by
  induction requests generalizing p with
  | nil => rfl
  | cons r rest ih =>
      rw [session, List.mapM_cons, StateT.run_bind, run_call]
      exact congrArg (fun answers => (r.reply :: answers.1, answers.2)) (ih (p.perform r))

omit [Neg K] [LT K] [DecidableLT K] in
/-- The only requests that fail are those with a token that names no relation. -/
theorem reply_eq_error {r : Request K} {e : ModelError} :
    r.reply = .error e ↔ ∃ coefficients token rhs, r = .add coefficients token rhs ∧
      token ∉ ["<=", "≤", "==", "=", ">=", "≥"] ∧ e = .invalidRelation token := by
  cases r with
  | add coefficients token rhs =>
      have hreply : (Request.add coefficients token rhs).reply = .error e ↔
          Relation.ofToken token = .error e := by
        cases htoken : Relation.ofToken token <;> simp [reply, htoken, Except.map]
      rw [hreply, Relation.ofToken_eq_error]
      constructor
      · intro h
        exact ⟨coefficients, token, rhs, rfl, h⟩
      · rintro ⟨_, _, _, ⟨⟩, h⟩
        exact h
  | push c => simp [reply]
  | addUpperBounds rows => simp [reply]

/-- A request that fails leaves the program as it was. -/
theorem perform_of_reply {r : Request K} {e : ModelError} (h : r.reply = .error e) (p : Program K) :
    p.perform r = p := by
  obtain ⟨coefficients, token, rhs, rfl, hunknown⟩ := reply_eq_error.1 h
  have htoken := Relation.ofToken_eq_error.2 hunknown
  simp [Program.perform, Program.add, htoken, bind, Except.bind]

end Request

end Calls

namespace Program

section Faithful

variable {p : Program ℚ} {requests : List (Request ℚ)}

/-- **Requests add the given constraints**, each as it is stored, and change nothing else. -/
theorem exists_stored (p : Program ℚ) (requests : List (Request ℚ)) :
    ∃ stored, requests.foldl perform p = { p with constraints := p.constraints ++ stored } ∧
      List.Forall₂ Constraint.StoredAs (requests.flatMap Request.given) stored := by
  induction requests generalizing p with
  | nil => exact ⟨[], by simp, .nil⟩
  | cons r rest ih =>
      obtain ⟨stored, hstored, hforall⟩ := ih (p.perform r)
      refine ⟨r.given.map Constraint.normalize ++ stored, ?_, ?_⟩
      · rw [List.foldl_cons, hstored, perform_eq, List.append_assoc]
      · rw [List.flatMap_cons]
        refine List.rel_append ?_ hforall
        rw [List.forall₂_map_right_iff]
        exact List.forall₂_same.2 fun c _ => c.storedAs_normalize

end Faithful

/-! ### Blocks of upper bounds -/

section Block

variable {K : Type} {p : Program K} {row : List K} {rows : List (List K)}

/-- The row has one number more than the program has variables, or else both have none at all. -/
def Accepts (p : Program K) (row : List K) : Prop :=
  row.length = p.variableCount + 1 ∨ p.variableCount = 0 ∧ row = []

theorem accepts_iff : p.Accepts row ↔ row.length - 1 = p.variableCount := by
  rw [Accepts, ← List.length_eq_zero_iff]
  omega

/-- Only an empty row makes a difference, and only to a program without variables. -/
theorem accepts_iff_of_not_empty (h : p.variableCount ≠ 0 ∨ row ≠ []) :
    p.Accepts row ↔ row.length = p.variableCount + 1 := by
  refine or_iff_left ?_
  rintro ⟨hnone, hempty⟩
  exact h.elim (· hnone) (· hempty)

variable [Zero K] [Neg K] [LT K] [DecidableLT K]

@[simp] theorem length_coefficients_upperBound (row : List K) :
    (upperBound row).coefficients.length = row.length - 1 := by simp [upperBound]

/-- A program is well formed with the bounds exactly if it was and accepts every row. -/
theorem mismatch_addUpperBounds_eq_none :
    (p.addUpperBounds rows).mismatch = none ↔ p.mismatch = none ∧ ∀ row ∈ rows, p.Accepts row := by
  simp only [mismatch_eq_none, addUpperBounds, List.forall_mem_append, List.forall_mem_map,
    length_coefficients_upperBound, accepts_iff]
  exact Iff.rfl

/-- Bounds do not hide that a constraint before them does not fit. -/
theorem mismatch_addUpperBounds_of_some {e : ModelError} (h : p.mismatch = some e) :
    (p.addUpperBounds rows).mismatch = some e := by
  obtain ⟨i, c, hc, hmisfit, hbefore, rfl⟩ := mismatch_eq_some_iff.1 h
  have hi : i < p.constraints.length := (List.getElem?_eq_some_iff.1 hc).1
  refine mismatch_eq_some_iff.2 ⟨i, c, ?_, hmisfit, fun k hk d hd => ?_, rfl⟩
  · rw [addUpperBounds, List.getElem?_append_left hi, hc]
  · rw [addUpperBounds, List.getElem?_append_left (hk.trans hi)] at hd
    exact hbefore k hk d hd

/-- **The first row that is not accepted is named**, counted after the constraints before. -/
theorem mismatch_addUpperBounds_eq_some (hfit : p.mismatch = none) {e : ModelError} :
    (p.addUpperBounds rows).mismatch = some e ↔ ∃ k row, rows[k]? = some row ∧ ¬p.Accepts row ∧
      (∀ l < k, ∀ other, rows[l]? = some other → p.Accepts other) ∧
      e = .dimensionMismatch (p.constraintCount + (k + 1)) (row.length - 1) p.variableCount := by
  have hlater : ∀ k, (p.addUpperBounds rows).constraints[p.constraintCount + k]? =
      rows[k]?.map upperBound := by
    intro k
    rw [addUpperBounds, constraintCount, List.getElem?_append_right (Nat.le_add_right _ _),
      Nat.add_sub_cancel_left, List.getElem?_map]
  have hearlier : ∀ i < p.constraintCount, ∀ c, (p.addUpperBounds rows).constraints[i]? = some c →
      c.coefficients.length = p.variableCount := by
    intro i hi c hc
    rw [addUpperBounds, List.getElem?_append_left hi] at hc
    exact mismatch_eq_none.1 hfit c (List.mem_of_getElem? hc)
  rw [mismatch_eq_some_iff]
  constructor
  · rintro ⟨i, c, hc, hmisfit, hbefore, rfl⟩
    obtain ⟨k, rfl⟩ := Nat.exists_eq_add_of_le (not_lt.1 fun hi => hmisfit (hearlier i hi c hc))
    rw [hlater] at hc
    obtain ⟨row, hrow, rfl⟩ := Option.map_eq_some_iff.1 hc
    rw [length_coefficients_upperBound] at hmisfit ⊢
    refine ⟨k, row, hrow, fun h => hmisfit (accepts_iff.1 h), fun l hl other hother => ?_, rfl⟩
    have hfits := hbefore (p.constraintCount + l) (by omega) (upperBound other)
      (by rw [hlater, hother]; rfl)
    rw [length_coefficients_upperBound] at hfits
    exact accepts_iff.2 hfits
  · rintro ⟨k, row, hrow, hrefused, hbefore, rfl⟩
    refine ⟨p.constraintCount + k, upperBound row, by rw [hlater, hrow]; rfl, ?_, fun i hi c hc => ?_,
      ?_⟩
    · rw [length_coefficients_upperBound]
      exact fun h => hrefused (accepts_iff.2 h)
    · rcases lt_or_ge i p.constraintCount with hlt | hge
      · exact hearlier i hlt c hc
      · obtain ⟨l, rfl⟩ := Nat.exists_eq_add_of_le hge
        rw [hlater] at hc
        obtain ⟨other, hother, rfl⟩ := Option.map_eq_some_iff.1 hc
        rw [length_coefficients_upperBound]
        exact accepts_iff.1 (hbefore l (by omega) other hother)
    · rw [length_coefficients_upperBound]
      rfl

/-- **A block of upper bounds.** The program is well formed with the bounds exactly if it was before
and accepts every row. If it was, the error names the first row that is not accepted, counted after
the constraints before, and otherwise the error stays what it was. Unless an empty row is added to a
program without variables, a row is accepted exactly if it has one number more than there are
variables, and an empty one never is. -/
theorem mismatch_of_block (p : Program K) (rows : List (List K)) :
    let q := p.addUpperBounds rows
    let n := p.objective.length
    (q.mismatch = none ↔ p.mismatch = none ∧ ∀ row ∈ rows, p.Accepts row) ∧
    (p.mismatch = none → ∀ e, q.mismatch = some e ↔ ∃ k row, rows[k]? = some row ∧
      ¬p.Accepts row ∧ (∀ l < k, ∀ other, rows[l]? = some other → p.Accepts other) ∧
      e = .dimensionMismatch (p.constraintCount + (k + 1)) (row.length - 1) n) ∧
    (∀ e, p.mismatch = some e → q.mismatch = some e) ∧
    (n ≠ 0 ∨ [] ∉ rows →
      (q.mismatch = none ↔ p.mismatch = none ∧ ∀ row ∈ rows, row.length = n + 1) ∧
      (p.mismatch = none → ∀ k row, rows[k]? = some row → row.length ≠ n + 1 →
        (∀ l < k, ∀ other, rows[l]? = some other → other.length = n + 1) →
        q.mismatch = some (.dimensionMismatch (p.constraintCount + (k + 1)) (row.length - 1) n))) := by
  intro q n
  refine ⟨mismatch_addUpperBounds_eq_none, fun hfit e => mismatch_addUpperBounds_eq_some hfit,
    fun e => mismatch_addUpperBounds_of_some, fun hrows => ?_⟩
  have haccepts : ∀ row ∈ rows, (p.Accepts row ↔ row.length = n + 1) := fun row hmem =>
    accepts_iff_of_not_empty (hrows.imp_right fun hempty h => hempty (h ▸ hmem))
  refine ⟨?_, fun hfit k row hrow hlength hbefore => ?_⟩
  · exact mismatch_addUpperBounds_eq_none.trans
      (and_congr_right fun _ => forall₂_congr haccepts)
  · refine (mismatch_addUpperBounds_eq_some hfit).2 ⟨k, row, hrow, fun h => ?_,
      fun l hl other hother => ?_, rfl⟩
    · exact hlength ((haccepts row (List.mem_of_getElem? hrow)).1 h)
    · exact (haccepts other (List.mem_of_getElem? hother)).2 (hbefore l hl other hother)

end Block

/-- The second row of the block is empty, and the third one is too short as well. -/
theorem mismatch_of_block_empty_row :
    let p : Program ℚ := ⟨.maximize, [3, 2], [⟨[1, 1], .atMost, 4⟩]⟩
    let rows : List (List ℚ) := [[1, 3, -6], [], [1, 2]]
    p.mismatch = none ∧ [] ∈ rows ∧
      (p.addUpperBounds rows).mismatch = some (.dimensionMismatch 3 0 2) ∧
      (p.addUpperBounds rows).mismatch ≠ none := by
  intro p rows
  have hfit : p.mismatch = none := by decide +kernel
  obtain ⟨-, -, -, hnamed⟩ := mismatch_of_block p rows
  obtain ⟨hiff, hfirst⟩ := hnamed (Or.inl (by decide))
  have hempty : [] ∈ rows := by decide
  refine ⟨hfit, hempty, hfirst hfit 1 [] rfl (by decide) (by decide), fun h => ?_⟩
  exact absurd ((hiff.1 h).2 [] hempty) (by decide)

/-- **An empty row may fit.** Without variables a row has one number, the bound itself. An empty row
has none, and all the same the program is well formed with it and is solved. A later row that does
not fit is named instead. -/
theorem block_accepts_empty_row :
    let p : Program ℚ := ⟨.maximize, [], []⟩
    p.mismatch = none ∧ ([] : List ℚ).length ≠ p.objective.length + 1 ∧
      (p.addUpperBounds [[]]).mismatch = none ∧
      ((p.addUpperBounds [[]]).solve ⟨none, 0⟩).map (·.solution.status) = .ok .optimal ∧
      (p.addUpperBounds [[], [1, 2]]).mismatch = some (.dimensionMismatch 2 1 0) := by
  decide +kernel

end Program

end SimplexMethod
