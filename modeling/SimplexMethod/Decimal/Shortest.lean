/-!
# SimplexMethod.Decimal.Shortest

**The fewest digits that name a binary number.** A number `mantissa · 2^exponent` of a format with a
fixed width stands for every real that rounds to it. Its shortest decimal is the point of the
coarsest decimal grid that still lies among those reals, and of the points of that grid the nearest
one.

Design points:

- **Exact arithmetic only.** A decimal `d · 10^e` and a multiple `k · 2^r` are compared after both
  are brought to a common denominator, so every comparison is one of natural numbers.
- **Two neighbours per grid are enough.** If any point of a grid rounds to the number, then so does
  the last point not above it or the first point above it.
- **Both ends of the interval belong to it when the mantissa is even**, because a tie between two
  neighbouring numbers goes to the even one.
-/

namespace SimplexMethod

/-- A decimal number `digits · 10^exponent`. -/
structure Decimal where
  /-- The digits as one natural number. -/
  digits : Nat
  /-- The power of ten that the last digit stands for. -/
  exponent : Int
  deriving DecidableEq, Repr

/-- A positive number of a binary format: `mantissa · 2^exponent`. -/
structure Binary where
  /-- The mantissa, positive. -/
  mantissa : Nat
  /-- The power of two that the last bit of the mantissa stands for. -/
  exponent : Int
  /-- Whether the next smaller number of the format is only half a unit of the last place away, as
  it is just above a power of two. -/
  closeBelow : Bool
  deriving DecidableEq, Repr

namespace Binary

/-! ### The reals that round to a number

Ends and value are counted in quarters of the last place, so that they are natural numbers: the
value is `4 · mantissa` of them. -/

/-- The value in quarters of the last place. -/
def quarters (x : Binary) : Nat := 4 * x.mantissa

/-- The lower end of the reals that round to the number: half the way to the next smaller one. -/
def lowerQuarters (x : Binary) : Nat := x.quarters - (if x.closeBelow then 1 else 2)

/-- The upper end of the reals that round to the number: half the way to the next greater one. -/
def upperQuarters (x : Binary) : Nat := x.quarters + 2

/-- Whether the two ends themselves round to the number. -/
def endsIncluded (x : Binary) : Bool := x.mantissa % 2 == 0

/-- The natural number that `d · 10^e` becomes over the common denominator with the quarters. -/
def decimalScaled (x : Binary) (e : Int) (d : Nat) : Nat :=
  d * Nat.pow 10 e.toNat * Nat.pow 2 (2 - x.exponent).toNat

/-- The natural number that `k` quarters become over the common denominator with `10^e`. -/
def quarterScaled (x : Binary) (e : Int) (k : Nat) : Nat :=
  k * Nat.pow 2 (x.exponent - 2).toNat * Nat.pow 10 (-e).toNat

/-- Whether the decimal `d · 10^e` rounds to the number. -/
def holds (x : Binary) (e : Int) (d : Nat) : Bool :=
  let point := x.decimalScaled e d
  let lower := x.quarterScaled e x.lowerQuarters
  let upper := x.quarterScaled e x.upperQuarters
  if x.endsIncluded then lower ≤ point && point ≤ upper else lower < point && point < upper

/-! ### The search over grids -/

/-- The last point of the grid of step `10^e` that is not above the value. -/
def floorOnGrid (x : Binary) (e : Int) : Nat :=
  x.quarterScaled e x.quarters / x.decimalScaled e 1

/-- The point of the grid of step `10^e` that rounds to the number and is nearest to it. Of two
points at the same distance the greater one is taken. -/
def nearestOnGrid (x : Binary) (e : Int) : Option Nat :=
  let below := x.floorOnGrid e
  let above := below + 1
  match x.holds e below, x.holds e above with
  | false, false => none
  | true, false => some below
  | false, true => some above
  | true, true =>
    let value := x.quarterScaled e x.quarters
    if value - x.decimalScaled e below < x.decimalScaled e above - value then some below
    else some above

/-- The chosen point of a grid rounds to the number. -/
theorem holds_of_nearestOnGrid {x : Binary} {e : Int} {d : Nat} (h : x.nearestOnGrid e = some d) :
    x.holds e d = true := by
  simp only [nearestOnGrid] at h
  split at h
  · cases h
  · next hbelow _ => cases h; exact hbelow
  · next _ habove => cases h; exact habove
  · next hbelow habove =>
    split at h
    · cases h; exact hbelow
    · cases h; exact habove

/-- A power of ten whose grid is too coarse or just coarse enough: `10^e` is greater than the
number. It comes from the bit length, with 30103 / 100000 for the decimal logarithm of two. -/
def coarsestGrid (x : Binary) : Int :=
  Int.fdiv (((x.mantissa.log2 : Int) + x.exponent + 1) * 30103) 100000 + 1

/-- The number itself as a decimal, with all its digits. -/
def exactDecimal (x : Binary) : Decimal :=
  ⟨x.mantissa * Nat.pow 2 x.exponent.toNat * Nat.pow 5 (-x.exponent).toNat, min x.exponent 0⟩

/-- The shortest decimal that rounds to the number: the first grid with a point that does, from
coarse to fine. Twenty grids reach past the seventeenth digit, and seventeen always suffice for a
mantissa of 53 bits; a wider mantissa that needs more is written out in full. -/
def shortest (x : Binary) : Decimal :=
  let attempt (k : Nat) : Option Decimal :=
    let e := x.coarsestGrid - k
    (x.nearestOnGrid e).map fun d => ⟨d, e⟩
  ((List.range 20).findSome? attempt).getD x.exactDecimal

end Binary

end SimplexMethod
