import Mathlib.Algebra.BigOperators.Field
import Mathlib.Algebra.BigOperators.Ring.Finset
import Mathlib.Algebra.Order.BigOperators.Ring.Finset
import Mathlib.Algebra.Order.Ring.Rat
import Mathlib.Tactic.FieldSimp
import Mathlib.Tactic.Linarith
import Mathlib.Tactic.Ring
import SimplexMethod.Feasibility

/-!
# SimplexMethod.Proofs.Exact

**What the searches of the method find over the rational numbers**, where no rounding hides it.

The two searches of `SimplexMethod.State.Pricing` are folds that keep the least
value so far. `IsFirstLeast` says what such a fold is meant to find, without a
fold: the list splits at the chosen candidate, everything before it is greater
and nothing after it is less. From `firstLeast_spec` follow the two
characterisations that all later proofs use, one for pricing and one for the
ratio test. Both are `IsFirstMinimum` of a function of columns or rows, since
either search numbers its candidates in order (`firstLeast_eq_some_iff`):

* `State.price` names an improving column of least signed reduced cost, and is
  `none` exactly if no column improves by more than the tolerance;
* `Tableau.ratioTest` names a limiting row of least quotient, and is `none`
  exactly if no row limits the column.
-/

namespace SimplexMethod

/-! ### Sums and magnitudes -/

/-- Adding up a range from a start. -/
theorem foldl_range_eq_sum (f : Nat → ℚ) (start : ℚ) (n : Nat) :
    (List.range n).foldl (fun sum i => sum + f i) start =
      start + ∑ i ∈ Finset.range n, f i := by
  induction n with
  | zero => simp
  | succ n ih =>
      rw [List.range_succ, List.foldl_append, ih, Finset.sum_range_succ]
      simp only [List.foldl_cons, List.foldl_nil]
      ring

/-- The negative zero that a total starts with is just zero. -/
theorem total_range (f : Nat → ℚ) (n : Nat) :
    total ((List.range n).map f) = ∑ i ∈ Finset.range n, f i := by
  rw [total, List.foldl_map, foldl_range_eq_sum, neg_zero, zero_add]

theorem magnitude_eq_abs (x : ℚ) : magnitude x = |x| := by
  unfold magnitude
  split
  · next h => exact (abs_of_neg h).symm
  · next h => exact (abs_of_nonneg (le_of_not_gt h)).symm

/-! ### The first least value -/

/-- The candidate `c` is the first of the least ones. -/
def IsFirstLeast (candidates : List (Nat × ℚ)) (c : Nat × ℚ) : Prop :=
  ∃ before after, candidates = before ++ c :: after ∧
    (∀ d ∈ before, c.2 < d.2) ∧ ∀ d ∈ after, c.2 ≤ d.2

theorem IsFirstLeast.mem {candidates : List (Nat × ℚ)} {c : Nat × ℚ}
    (h : IsFirstLeast candidates c) : c ∈ candidates := by
  obtain ⟨before, after, rfl, -, -⟩ := h
  simp

theorem IsFirstLeast.le {candidates : List (Nat × ℚ)} {c d : Nat × ℚ}
    (h : IsFirstLeast candidates c) (hd : d ∈ candidates) : c.2 ≤ d.2 := by
  obtain ⟨before, after, rfl, hbefore, hafter⟩ := h
  rcases List.mem_append.1 hd with hd | hd
  · exact (hbefore d hd).le
  · rcases List.mem_cons.1 hd with rfl | hd
    · exact le_rfl
    · exact hafter d hd

/-- A candidate at the end wins if it is less than the least one before it. -/
theorem IsFirstLeast.append_of_lt {candidates : List (Nat × ℚ)} {c d : Nat × ℚ}
    (h : IsFirstLeast candidates c) (hd : d.2 < c.2) : IsFirstLeast (candidates ++ [d]) d :=
  ⟨candidates, [], rfl, fun _ he => hd.trans_le (h.le he), by simp⟩

/-- A candidate at the end that is not less changes nothing. -/
theorem IsFirstLeast.append_of_le {candidates : List (Nat × ℚ)} {c d : Nat × ℚ}
    (h : IsFirstLeast candidates c) (hd : c.2 ≤ d.2) : IsFirstLeast (candidates ++ [d]) c := by
  obtain ⟨before, after, rfl, hbefore, hafter⟩ := h
  refine ⟨before, after ++ [d], by simp, hbefore, fun e he => ?_⟩
  rcases List.mem_append.1 he with he | he
  · exact hafter e he
  · rw [List.mem_singleton.1 he]
    exact hd

/-- One more candidate is compared with the least one so far. -/
theorem firstLeast_append (candidates : List (Nat × ℚ)) (d : Nat × ℚ) :
    firstLeast (candidates ++ [d]) =
      if takesOver (firstLeast candidates) d.2 then some d else firstLeast candidates := by
  rw [firstLeast, List.foldl_append]
  rfl

/-- **The search finds the first least candidate**, if there is a candidate at all. -/
theorem firstLeast_spec (candidates : List (Nat × ℚ)) :
    (candidates = [] ∧ firstLeast candidates = none) ∨
      ∃ c, firstLeast candidates = some c ∧ IsFirstLeast candidates c := by
  -- from the end of the list, because the fold compares the last candidate last
  induction candidates using List.reverseRecOn with
  | nil => exact Or.inl ⟨rfl, rfl⟩
  | append_singleton rest d ih =>
      refine Or.inr ?_
      rw [firstLeast_append]
      rcases ih with ⟨rfl, hnone⟩ | ⟨c, hc, hleast⟩
      · refine ⟨d, ?_, [], [], rfl, by simp, by simp⟩
        rw [hnone]
        rfl
      · rw [hc]
        by_cases hd : d.2 < c.2
        · exact ⟨d, if_pos (decide_eq_true hd), hleast.append_of_lt hd⟩
        · exact ⟨c, if_neg (by simpa [takesOver] using hd), hleast.append_of_le (not_lt.1 hd)⟩

theorem firstLeast_eq_none {candidates : List (Nat × ℚ)} :
    firstLeast candidates = none ↔ candidates = [] := by
  rcases firstLeast_spec candidates with ⟨h, hnone⟩ | ⟨c, hc, hleast⟩
  · exact ⟨fun _ => h, fun _ => hnone⟩
  · rw [hc]
    constructor
    · intro hsome
      cases hsome
    · intro hnil
      rw [hnil] at hleast
      exact absurd hleast.mem List.not_mem_nil

theorem isFirstLeast_of_firstLeast {candidates : List (Nat × ℚ)} {c : Nat × ℚ}
    (h : firstLeast candidates = some c) : IsFirstLeast candidates c := by
  rcases firstLeast_spec candidates with ⟨-, hnone⟩ | ⟨d, hd, hleast⟩
  · rw [h] at hnone
    cases hnone
  · rw [h] at hd
    cases hd
    exact hleast

/-- Of the numbers with the property, `i` is the first one at which `f` is least. -/
structure IsFirstMinimum (P : Nat → Prop) (f : Nat → ℚ) (i : Nat) : Prop where
  mem : P i
  le : ∀ k, P k → f i ≤ f k
  lt : ∀ k < i, P k → f i < f k

/-- Neither of two first ones comes before the other. -/
theorem IsFirstMinimum.unique {P : Nat → Prop} {f : Nat → ℚ} {i j : Nat}
    (hi : IsFirstMinimum P f i) (hj : IsFirstMinimum P f j) : i = j := by
  rcases lt_trichotomy i j with hlt | heq | hgt
  · exact absurd (hj.lt i hlt hi.mem) (not_lt.2 (hi.le j hj.mem))
  · exact heq
  · exact absurd (hi.lt j hgt hj.mem) (not_lt.2 (hj.le i hi.mem))

/-- A candidate that the first least one comes after is greater, where candidates are numbered in
order. -/
theorem IsFirstLeast.lt_of_lt {candidates : List (Nat × ℚ)} {c d : Nat × ℚ}
    (h : IsFirstLeast candidates c) (hsorted : candidates.Pairwise fun a b => a.1 < b.1)
    (hd : d ∈ candidates) (hlt : d.1 < c.1) : c.2 < d.2 := by
  obtain ⟨before, after, rfl, hbefore, -⟩ := h
  rcases List.mem_append.1 hd with hd | hd
  · exact hbefore d hd
  · rcases List.mem_cons.1 hd with rfl | hd
    · exact absurd hlt (lt_irrefl _)
    · obtain ⟨-, hlater, -⟩ := List.pairwise_append.1 hsorted
      exact absurd (List.rel_of_pairwise_cons hlater hd) (not_lt.2 hlt.le)

/-- **What the search finds**, if the candidates are the values of a function, numbered in order. -/
theorem firstLeast_eq_some_iff {candidates : List (Nat × ℚ)} {P : Nat → Prop} {f : Nat → ℚ}
    (hsorted : candidates.Pairwise fun a b => a.1 < b.1)
    (hmem : ∀ k x, (k, x) ∈ candidates ↔ P k ∧ x = f k) {i : Nat} {x : ℚ} :
    firstLeast candidates = some (i, x) ↔ IsFirstMinimum P f i ∧ x = f i := by
  have hfirst : ∀ {i x}, firstLeast candidates = some (i, x) → IsFirstMinimum P f i ∧ x = f i := by
    intro i x h
    have hleast := isFirstLeast_of_firstLeast h
    obtain ⟨hi, rfl⟩ := (hmem i x).1 hleast.mem
    refine ⟨⟨hi, fun k hk => ?_, fun k hlt hk => ?_⟩, rfl⟩
    · exact hleast.le ((hmem k _).2 ⟨hk, rfl⟩)
    · exact hleast.lt_of_lt hsorted ((hmem k _).2 ⟨hk, rfl⟩) hlt
  refine ⟨hfirst, fun ⟨hi, hx⟩ => ?_⟩
  rcases firstLeast_spec candidates with ⟨rfl, -⟩ | ⟨⟨j, y⟩, hsome, -⟩
  · exact absurd ((hmem i _).2 ⟨hi.mem, rfl⟩) List.not_mem_nil
  · obtain ⟨hj, rfl⟩ := hfirst hsome
    rw [hsome, hj.unique hi, hx]

/-! ### Pricing -/

/-- What pricing chooses from: each column with its signed reduced cost. -/
theorem candidates_eq (reducedCosts : List ℚ) (sign : ℚ) :
    (reducedCosts.zipIdx.map fun c => (c.2, sign * c.1)) =
      (List.range reducedCosts.length).map fun j => (j, sign * reducedCosts.getD j 0) := by
  apply List.ext_getElem
  · simp
  · intro j hj _
    have hlt : j < reducedCosts.length := by simpa using hj
    simp [hlt]

/-- **Which column is priced in**: the first one among those that improve most, if that is by more
than the tolerance. -/
theorem firstImproving_eq_some_iff {reducedCosts : List ℚ} {sign tolerance : ℚ} {j : Nat} :
    firstImproving reducedCosts sign tolerance = some j ↔
      IsFirstMinimum (· < reducedCosts.length) (fun k => sign * reducedCosts.getD k 0) j ∧
        sign * reducedCosts.getD j 0 < -tolerance := by
  have hsorted : ((List.range reducedCosts.length).map fun j =>
      (j, sign * reducedCosts.getD j 0)).Pairwise fun a b => a.1 < b.1 :=
    List.pairwise_map.2 List.pairwise_lt_range
  have hmem : ∀ k x, (k, x) ∈ (List.range reducedCosts.length).map
      (fun j => (j, sign * reducedCosts.getD j 0)) ↔
        k < reducedCosts.length ∧ x = sign * reducedCosts.getD k 0 := by
    intro k x
    simp only [List.mem_map, List.mem_range, Prod.mk.injEq]
    constructor
    · rintro ⟨_, hk, rfl, rfl⟩
      exact ⟨hk, rfl⟩
    · rintro ⟨hk, rfl⟩
      exact ⟨k, hk, rfl, rfl⟩
  unfold firstImproving
  rw [candidates_eq]
  split
  · next i least hleast =>
    obtain ⟨hi, rfl⟩ := (firstLeast_eq_some_iff hsorted hmem).1 hleast
    constructor
    · intro h
      split at h
      · next himproves =>
        cases h
        exact ⟨hi, himproves⟩
      · cases h
    · rintro ⟨hj, himproves⟩
      obtain rfl := hi.unique hj
      exact if_pos himproves
  · next hnone =>
    refine iff_of_false nofun fun ⟨hj, _⟩ => ?_
    have hsome := (firstLeast_eq_some_iff hsorted hmem).2 ⟨hj, rfl⟩
    rw [hnone] at hsome
    cases hsome

/-- No column is priced in exactly if none improves by more than the tolerance. -/
theorem firstImproving_eq_none {reducedCosts : List ℚ} {sign tolerance : ℚ} :
    firstImproving reducedCosts sign tolerance = none ↔
      ∀ j < reducedCosts.length, -tolerance ≤ sign * reducedCosts.getD j 0 := by
  unfold firstImproving
  rw [candidates_eq]
  split
  · next j least hleast =>
    have hfirst := isFirstLeast_of_firstLeast hleast
    obtain ⟨k, hk, heq⟩ := List.mem_map.1 hfirst.mem
    cases heq
    constructor
    · intro hnone i hi
      have hstop : ¬sign * reducedCosts.getD j 0 < -tolerance := by
        intro hlt
        rw [if_pos hlt] at hnone
        cases hnone
      have hle := hfirst.le (List.mem_map.2 ⟨i, List.mem_range.2 hi, rfl⟩)
      exact (not_lt.1 hstop).trans hle
    · intro hall
      exact if_neg (not_lt.2 (hall j (List.mem_range.1 hk)))
  · next hnone =>
    have hnil := firstLeast_eq_none.1 hnone
    have hlen : reducedCosts.length = 0 := by simpa using hnil
    simp [hlen]

namespace State

variable {s : State ℚ} {sign tolerance : ℚ}

theorem getD_reducedCosts {j : Nat} (hj : j < s.objective.length) :
    s.reducedCosts.getD j 0 = s.reducedCost j := by
  simp [reducedCosts, hj]

theorem price_eq_none :
    s.price sign tolerance = none ↔
      ∀ j < s.objective.length, -tolerance ≤ sign * s.reducedCost j := by
  rw [price, firstImproving_eq_none, reducedCosts, List.length_map, List.length_range]
  refine forall₂_congr fun j hj => ?_
  rw [← reducedCosts, getD_reducedCosts hj]

/-- **The column that is priced in** is the first one among those that improve most, if that is by
more than the tolerance. -/
theorem price_eq_some_iff {j : Nat} :
    s.price sign tolerance = some j ↔
      j < s.objective.length ∧ sign * s.reducedCost j < -tolerance ∧
        (∀ k < s.objective.length, sign * s.reducedCost j ≤ sign * s.reducedCost k) ∧
        ∀ k < j, sign * s.reducedCost j < sign * s.reducedCost k := by
  have hlength : s.reducedCosts.length = s.objective.length := by simp [reducedCosts]
  rw [price, firstImproving_eq_some_iff, hlength]
  constructor
  · rintro ⟨⟨hj, hle, hlt⟩, himproves⟩
    rw [getD_reducedCosts hj] at himproves
    refine ⟨hj, himproves, fun k hk => ?_, fun k hk => ?_⟩
    · have hk' := hle k hk
      rwa [getD_reducedCosts hj, getD_reducedCosts hk] at hk'
    · have hk' := hlt k hk (hk.trans hj)
      rwa [getD_reducedCosts hj, getD_reducedCosts (hk.trans hj)] at hk'
  · rintro ⟨hj, himproves, hle, hlt⟩
    rw [getD_reducedCosts hj]
    refine ⟨⟨hj, fun k hk => ?_, fun k hk _ => ?_⟩, himproves⟩
    · rw [getD_reducedCosts hj, getD_reducedCosts hk]
      exact hle k hk
    · rw [getD_reducedCosts hj, getD_reducedCosts (hk.trans hj)]
      exact hlt k hk

theorem price_eq_some {j : Nat} (h : s.price sign tolerance = some j) :
    j < s.objective.length ∧ sign * s.reducedCost j < -tolerance := by
  obtain ⟨hj, himproves, -⟩ := price_eq_some_iff.1 h
  exact ⟨hj, himproves⟩

end State

/-! ### The ratio test -/

namespace Tableau

variable {t : Tableau ℚ} {col : Nat} {tolerance : ℚ}

theorem ratio_eq_some {i : Nat} {q : ℚ} :
    t.ratio col tolerance i = some q ↔
      tolerance < t.entry i col ∧ 0 ≤ q ∧ q = t.rhs i / t.entry i col := by
  unfold ratio
  by_cases hentry : tolerance < t.entry i col
  · rw [if_pos hentry]
    by_cases hneg : t.rhs i / t.entry i col < 0
    · simp only [if_pos hneg]
      constructor
      · intro h
        cases h
      · rintro ⟨-, hq, rfl⟩
        exact absurd hneg (not_lt.2 hq)
    · simp only [if_neg hneg, Option.some.injEq]
      constructor
      · rintro rfl
        exact ⟨hentry, not_lt.1 hneg, rfl⟩
      · rintro ⟨-, -, rfl⟩
        rfl
  · simp [hentry]

/-- What the ratio test chooses from: each limiting row with its quotient. -/
theorem mem_limits {i : Nat} {q : ℚ} :
    (i, q) ∈ (List.range t.rows).filterMap
        (fun i => (t.ratio col tolerance i).map fun r => (i, r)) ↔
      i < t.rows ∧ t.ratio col tolerance i = some q := by
  simp only [List.mem_filterMap, List.mem_range, Option.map_eq_some_iff, Prod.mk.injEq]
  constructor
  · intro h
    obtain ⟨k, hk, r, hr, rfl, rfl⟩ := h
    exact ⟨hk, hr⟩
  · intro h
    obtain ⟨hi, hq⟩ := h
    exact ⟨i, hi, q, hq, rfl, rfl⟩

/-- The row keeps the column from growing: its entry there is above the tolerance and its quotient is
not negative. -/
def Limits (t : Tableau ℚ) (col : Nat) (tolerance : ℚ) (i : Nat) : Prop :=
  i < t.rows ∧ tolerance < t.entry i col ∧ 0 ≤ t.rhs i / t.entry i col

/-- **Which row is taken**: the first one among the limiting rows of least quotient. -/
theorem ratioTest_eq_some_iff {i : Nat} :
    t.ratioTest col tolerance = some i ↔
      IsFirstMinimum (t.Limits col tolerance) (fun k => t.rhs k / t.entry k col) i := by
  have hsorted : ((List.range t.rows).filterMap
      (fun i => (t.ratio col tolerance i).map fun r => (i, r))).Pairwise fun a b => a.1 < b.1 := by
    refine List.Pairwise.filterMap _ (fun i j hij c hc d hd => ?_) List.pairwise_lt_range
    obtain ⟨_, -, rfl⟩ := Option.map_eq_some_iff.1 hc
    obtain ⟨_, -, rfl⟩ := Option.map_eq_some_iff.1 hd
    exact hij
  have hmem : ∀ k q, (k, q) ∈ (List.range t.rows).filterMap
      (fun i => (t.ratio col tolerance i).map fun r => (i, r)) ↔
        t.Limits col tolerance k ∧ q = t.rhs k / t.entry k col := by
    intro k q
    rw [mem_limits, ratio_eq_some]
    constructor
    · rintro ⟨hk, hentry, hquotient, rfl⟩
      exact ⟨⟨hk, hentry, hquotient⟩, rfl⟩
    · rintro ⟨⟨hk, hentry, hquotient⟩, rfl⟩
      exact ⟨hk, hentry, hquotient, rfl⟩
  unfold ratioTest
  rw [Option.map_eq_some_iff]
  constructor
  · rintro ⟨⟨i, q⟩, hleast, rfl⟩
    exact ((firstLeast_eq_some_iff hsorted hmem).1 hleast).1
  · intro hi
    exact ⟨(i, _), (firstLeast_eq_some_iff hsorted hmem).2 ⟨hi, rfl⟩, rfl⟩

/-- The ratio test takes a limiting row, and no limiting row has a smaller quotient. -/
theorem ratioTest_eq_some {i : Nat} (h : t.ratioTest col tolerance = some i) :
    i < t.rows ∧ tolerance < t.entry i col ∧ 0 ≤ t.rhs i / t.entry i col ∧
      ∀ k < t.rows, tolerance < t.entry k col → 0 ≤ t.rhs k / t.entry k col →
        t.rhs i / t.entry i col ≤ t.rhs k / t.entry k col := by
  obtain ⟨⟨hi, hentry, hquotient⟩, hle, -⟩ := ratioTest_eq_some_iff.1 h
  exact ⟨hi, hentry, hquotient, fun k hk hpos hnonneg => hle k ⟨hk, hpos, hnonneg⟩⟩

/-- No row is taken exactly if every entry above the tolerance stands beside a quotient below
zero. -/
theorem ratioTest_eq_none :
    t.ratioTest col tolerance = none ↔
      ∀ i < t.rows, tolerance < t.entry i col → t.rhs i / t.entry i col < 0 := by
  simp only [ratioTest, Option.map_eq_none_iff, firstLeast_eq_none, List.eq_nil_iff_forall_not_mem,
    Prod.forall, mem_limits, ratio_eq_some]
  constructor
  · intro h i hi hentry
    by_contra hneg
    exact h i _ ⟨hi, hentry, not_lt.1 hneg, rfl⟩
  · rintro h i q ⟨hi, hentry, hq, rfl⟩
    exact absurd (h i hi hentry) (not_lt.2 hq)

end Tableau

end SimplexMethod
