/-!
# SimplexMethod.Scalar

**One algorithm for every kind of number.** The simplex method needs the four operations, a
decidable order and an equality test, and nothing else. Everything in this library that computes
with coefficients takes these as instance arguments, so that the same definitions run on
floating-point numbers and are reasoned about over an exact field.

Design points:

- **No law is assumed of the numbers.** Terms are added and multiplied in a stated order, because
  rounding makes the order visible.
- **Infinity is not a number of the library.** What a search for a least value needs to know of it
  is one question, `Selectable.selectable`; an exact number type answers it with yes.
-/

namespace SimplexMethod

variable {K : Type}

/-! ### Sums and magnitudes -/

/-- The sum of a list, from left to right. It starts at `-0`, the neutral element of addition also
where zero has a sign: `-0 + x` is `x` for every `x`, while `0 + -0` is `0`. -/
def total [Zero K] [Neg K] [Add K] (xs : List K) : K := xs.foldl (· + ·) (-0)

/-- The distance of a number from zero. -/
def magnitude [Zero K] [Neg K] [LT K] [DecidableLT K] (x : K) : K := if x < 0 then -x else x

/-! ### The first least value -/

/-- A type of numbers some of whose values may be too large, or no number at all, to be chosen as a
least value. -/
class Selectable (K : Type) where
  /-- Whether the value lies below positive infinity. -/
  selectable : K → Bool

/-- A float is selectable unless it is positive infinity or no number. -/
instance : Selectable Float := ⟨fun x => x < 1.0 / 0.0⟩

/-- Every rational number is selectable. -/
instance : Selectable Rat := ⟨fun _ => true⟩

section Least

variable [LT K] [DecidableLT K] [Selectable K]

/-- Whether a value takes the place of the least one so far: it has to be smaller, so the earlier of
two equal values stays. -/
def takesOver : Option (Nat × K) → K → Bool
  | none, x => Selectable.selectable x
  | some (_, least), x => decide (x < least)

/-- The least value of a list of indexed values with its index, the earliest one on ties, or `none`
if no value is selectable. -/
def firstLeast (candidates : List (Nat × K)) : Option (Nat × K) :=
  candidates.foldl (fun best c => if takesOver best c.2 then some c else best) none

/-- The fold behind `firstLeast` ends with what it began with or with a candidate. -/
theorem foldl_takesOver_mem (candidates : List (Nat × K)) (start : Option (Nat × K)) {c : Nat × K}
    (h : candidates.foldl (fun best c => if takesOver best c.2 then some c else best) start
      = some c) :
    start = some c ∨ c ∈ candidates := by
  induction candidates generalizing start with
  | nil => exact Or.inl h
  | cons d rest ih =>
    rcases ih _ h with hd | hrest
    · dsimp only at hd
      split at hd
      · cases hd
        exact Or.inr (List.mem_cons_self ..)
      · exact Or.inl hd
    · exact Or.inr (List.mem_cons_of_mem d hrest)

/-- A chosen value is one of the candidates. -/
theorem mem_of_firstLeast {candidates : List (Nat × K)} {c : Nat × K}
    (h : firstLeast candidates = some c) : c ∈ candidates := by
  rcases foldl_takesOver_mem candidates none h with hnone | hmem
  · cases hnone
  · exact hmem

end Least

end SimplexMethod
