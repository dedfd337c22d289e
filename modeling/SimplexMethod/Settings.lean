/-!
# SimplexMethod.Settings

**What a caller can choose about a solve**: how many exchanges each phase may make, and how far a
number has to be from zero to count as different from it.

Without a cap a degenerate program can make exchanges forever. The counter of exchanges has 32 bits,
so `counterLimit` bounds a run in any case.
-/

namespace SimplexMethod

/-- Iteration counters stay below this number, the count of 32-bit words. -/
def counterLimit : Nat := 4294967296

/-- The choices of a caller. -/
structure Settings (K : Type) where
  /-- The greatest number of exchanges in one phase, if there is one. -/
  cap : Option Nat
  /-- Reduced costs, entries and sums of artificial variables up to this size count as zero. -/
  tolerance : K
  deriving DecidableEq, Repr

namespace Settings

/-- No cap, and a tolerance of one billionth. -/
def standard {K : Type} [OfScientific K] : Settings K := ⟨none, 1e-9⟩

/-- Whether a count of exchanges uses up the cap. -/
def capReached {K : Type} (settings : Settings K) (iterations : Nat) : Bool :=
  match settings.cap with
  | none => false
  | some cap => decide (cap ≤ iterations)

end Settings

end SimplexMethod
