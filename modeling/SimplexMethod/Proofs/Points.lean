import SimplexMethod.Program.Basic
import SimplexMethod.Proofs.Exact

/-!
# SimplexMethod.Proofs.Points

**What a linear program asks for, and how a caller writes it down.** A point is a list of numbers,
one per variable. `FeasiblePoint` says when a point is allowed by a list of constraints and
`Direction.Better` when one objective value beats another; neither knows of equations, slacks or
bases.

A program is built by requests, some of which may fail. `Request.given` is what the
caller of a request means to add, `Program.perform` what the request does, and
`build_eq` relates the two: the stored constraints are the given ones in
order, each normalised. Normalising does not change which points satisfy a constraint
(`holds_normalize`), so the points of the stored program are those of the given one.
-/

namespace SimplexMethod

/-! ### Points and constraints -/

/-- The sum of the products of two lists, entry by entry. -/
def dot (a x : List ℚ) : ℚ := (List.zipWith (· * ·) a x).sum

theorem dot_eq_sum (a x : List ℚ) :
    dot a x = ∑ j ∈ Finset.range a.length, a.getD j 0 * x.getD j 0 := by
  induction a generalizing x with
  | nil => simp [dot]
  | cons b rest ih =>
      cases x with
      | nil => simp [dot]
      | cons y ys =>
          rw [List.length_cons, Finset.sum_range_succ']
          simp only [List.getD_cons_succ, List.getD_cons_zero]
          rw [← ih ys, dot, List.zipWith_cons_cons, List.sum_cons, add_comm]
          rfl

theorem dot_map_neg (a x : List ℚ) : dot (a.map (- ·)) x = -dot a x := by
  induction a generalizing x with
  | nil => simp [dot]
  | cons b rest ih =>
      cases x with
      | nil => simp [dot]
      | cons y ys =>
          simp only [dot, List.map_cons, List.zipWith_cons_cons, List.sum_cons] at ih ⊢
          rw [ih ys]
          ring

/-- The relation holds between two numbers. -/
def Relation.Holds : Relation → ℚ → ℚ → Prop
  | .atMost, a, b => a ≤ b
  | .equal, a, b => a = b
  | .atLeast, a, b => b ≤ a

instance (r : Relation) (a b : ℚ) : Decidable (r.Holds a b) :=
  match r with
  | .atMost => inferInstanceAs (Decidable (a ≤ b))
  | .equal => inferInstanceAs (Decidable (a = b))
  | .atLeast => inferInstanceAs (Decidable (b ≤ a))

theorem Relation.holds_reversed (r : Relation) (a b : ℚ) :
    r.reversed.Holds (-a) (-b) ↔ r.Holds a b := by
  cases r with
  | atMost => exact neg_le_neg_iff
  | equal => exact neg_inj
  | atLeast => exact neg_le_neg_iff

namespace Constraint

/-- The point satisfies the constraint. -/
def Holds (c : Constraint ℚ) (x : List ℚ) : Prop :=
  c.relation.Holds (dot c.coefficients x) c.rhs

instance (c : Constraint ℚ) (x : List ℚ) : Decidable (c.Holds x) :=
  inferInstanceAs (Decidable (c.relation.Holds (dot c.coefficients x) c.rhs))

/-- The distance between the two sides at a point, counted from the side that may be smaller. An
equation leaves no distance. -/
def slack (c : Constraint ℚ) (x : List ℚ) : ℚ :=
  match c.relation with
  | .atMost => c.rhs - dot c.coefficients x
  | .equal => 0
  | .atLeast => dot c.coefficients x - c.rhs

theorem slack_nonneg {c : Constraint ℚ} {x : List ℚ} (h : c.Holds x) : 0 ≤ c.slack x := by
  unfold Holds at h
  unfold slack
  cases hrelation : c.relation with
  | atMost => rw [hrelation] at h; exact sub_nonneg.2 h
  | equal => exact le_rfl
  | atLeast => rw [hrelation] at h; exact sub_nonneg.2 h

/-- **Normalising a constraint keeps the points that satisfy it.** -/
theorem holds_normalize (c : Constraint ℚ) (x : List ℚ) : c.normalize.Holds x ↔ c.Holds x := by
  unfold normalize
  split
  · rw [Holds, dot_map_neg]
    exact c.relation.holds_reversed _ _
  · exact Iff.rfl

theorem rhs_normalize_nonneg (c : Constraint ℚ) : 0 ≤ c.normalize.rhs := by
  unfold normalize
  split
  · next h => exact neg_nonneg.2 h.le
  · next h => exact not_lt.1 h

end Constraint

/-- A point with `n` coordinates, none of them negative, that satisfies every constraint. -/
structure FeasiblePoint (n : Nat) (constraints : List (Constraint ℚ)) (x : List ℚ) : Prop where
  length : x.length = n
  nonneg : ∀ v ∈ x, 0 ≤ v
  holds : ∀ c ∈ constraints, c.Holds x

instance (n : Nat) (constraints : List (Constraint ℚ)) (x : List ℚ) :
    Decidable (FeasiblePoint n constraints x) :=
  decidable_of_iff (x.length = n ∧ (∀ v ∈ x, 0 ≤ v) ∧ ∀ c ∈ constraints, c.Holds x)
    ⟨fun h => ⟨h.1, h.2.1, h.2.2⟩, fun h => ⟨h.length, h.nonneg, h.holds⟩⟩

theorem feasiblePoint_map_normalize {n : Nat} {constraints : List (Constraint ℚ)} {x : List ℚ} :
    FeasiblePoint n (constraints.map Constraint.normalize) x ↔ FeasiblePoint n constraints x := by
  constructor
  · intro h
    refine ⟨h.length, h.nonneg, fun c hc => ?_⟩
    exact (c.holds_normalize x).1 (h.holds _ (List.mem_map_of_mem hc))
  · intro h
    refine ⟨h.length, h.nonneg, fun d hd => ?_⟩
    obtain ⟨c, hc, rfl⟩ := List.mem_map.1 hd
    exact (c.holds_normalize x).2 (h.holds c hc)

/-- The first objective value is strictly better than the second. -/
def Direction.Better : Direction → ℚ → ℚ → Prop
  | .maximize, a, b => b < a
  | .minimize, a, b => a < b

theorem Direction.better_iff (d : Direction) (a b : ℚ) :
    d.Better a b ↔ d.sign * b < d.sign * a := by
  cases d with
  | maximize => simp [Better, sign]
  | minimize => simp [Better, sign]

/-! ### Building a program -/

/-- A request to add constraints to a program. -/
inductive Request (K : Type) where
  /-- One constraint, whose relation is named by a token. -/
  | add (coefficients : List K) (token : String) (rhs : K)
  /-- One constraint, to be normalised. -/
  | push (c : Constraint K)
  /-- One upper bound per row. -/
  | addUpperBounds (rows : List (List K))

/-- The constraints that a request means to add, as they are given. A token that names no relation
makes the request fail, so nothing is added. -/
def Request.given {K : Type} [Zero K] : Request K → List (Constraint K)
  | .add coefficients token rhs =>
    match Relation.ofToken token with
    | .ok relation => [⟨coefficients, relation, rhs⟩]
    | .error _ => []
  | .push c => [c]
  | .addUpperBounds rows => rows.map fun row => ⟨row.dropLast, .atMost, row.getLastD 0⟩

namespace Program

variable {K : Type} [Zero K] [Neg K] [LT K] [DecidableLT K]

/-- The program after a request. One that fails leaves the program as it was. -/
def perform (p : Program K) : Request K → Program K
  | .add coefficients token rhs =>
    match p.add coefficients token rhs with
    | .ok q => q
    | .error _ => p
  | .push c => p.push c.normalize
  | .addUpperBounds rows => p.addUpperBounds rows

/-- The program that requests build, one after the other. -/
def build (direction : Direction) (objective : List K) (requests : List (Request K)) : Program K :=
  requests.foldl perform ⟨direction, objective, []⟩

theorem perform_eq (p : Program K) (r : Request K) :
    p.perform r = { p with constraints := p.constraints ++ r.given.map Constraint.normalize } := by
  cases r with
  | add coefficients token rhs =>
      cases htoken : Relation.ofToken token with
      | ok relation => simp [perform, add, Request.given, htoken, push, bind, Except.bind, pure,
          Except.pure]
      | error e => simp [perform, add, Request.given, htoken, bind, Except.bind]
  | push c => rfl
  | addUpperBounds rows =>
      simp only [perform, addUpperBounds, Request.given, List.map_map]
      rfl

/-- **The stored constraints are the given ones**, in order and normalised. -/
theorem build_eq (direction : Direction) (objective : List K) (requests : List (Request K)) :
    build direction objective requests =
      ⟨direction, objective, (requests.flatMap Request.given).map Constraint.normalize⟩ := by
  have hfold : ∀ p : Program K, requests.foldl perform p =
      { p with constraints :=
          p.constraints ++ (requests.flatMap Request.given).map Constraint.normalize } := by
    -- for any program to start from, since each request changes it
    induction requests with
    | nil => intro p; simp
    | cons r rest ih =>
        intro p
        rw [List.foldl_cons, ih, perform_eq]
        simp
  exact hfold _

@[simp] theorem direction_build (direction : Direction) (objective : List K)
    (requests : List (Request K)) : (build direction objective requests).direction = direction := by
  rw [build_eq]

@[simp] theorem objective_build (direction : Direction) (objective : List K)
    (requests : List (Request K)) : (build direction objective requests).objective = objective := by
  rw [build_eq]

/-- **The points of the built program are those of the given constraints.** -/
theorem feasiblePoint_build {direction : Direction} {objective : List ℚ}
    {requests : List (Request ℚ)} {x : List ℚ} :
    FeasiblePoint (build direction objective requests).variableCount
        (build direction objective requests).constraints x ↔
      FeasiblePoint objective.length (requests.flatMap Request.given) x := by
  rw [build_eq]
  exact feasiblePoint_map_normalize

/-- Stored constraints have no negative right-hand side. -/
theorem rhs_nonneg_of_build {direction : Direction} {objective : List ℚ}
    {requests : List (Request ℚ)} :
    ∀ c ∈ (build direction objective requests).constraints, 0 ≤ c.rhs := by
  rw [build_eq]
  intro c hc
  obtain ⟨d, -, rfl⟩ := List.mem_map.1 hc
  exact d.rhs_normalize_nonneg

end Program

end SimplexMethod
