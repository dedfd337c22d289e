import SimplexMethod.Decimal.Shortest

/-!
# SimplexMethod.Decimal.Text

**Numbers as text.** Every number is written positionally, without an exponent however large or
small it is, with the fewest digits that read back as the same number:

- a whole number has no decimal point, and a fraction starts with a digit before the point;
- a negative number has a leading minus sign, negative zero included;
- the infinities are `inf` and `-inf`, and what is not a number is `NaN` without a sign.
-/

namespace SimplexMethod

/-- The decimal written positionally: padded with zeros up to the units on either side. -/
def Decimal.positional (d : Decimal) : String :=
  let digits := Nat.toDigits 10 d.digits
  let places := (-d.exponent).toNat
  let whole := digits ++ List.replicate d.exponent.toNat '0'
  if places = 0 then String.ofList whole
  else
    let padded := List.replicate (places + 1 - digits.length) '0' ++ digits
    let split := padded.length - places
    String.ofList (padded.take split ++ '.' :: padded.drop split)

/-- The kinds of value that a float holds, the sign aside. -/
inductive FloatKind where
  | zero
  | finite (x : Binary)
  | infinite
  | notANumber
  deriving DecidableEq, Repr

/-- What a bit pattern of a double stands for, the sign bit aside: eleven bits of biased exponent
over fifty-two bits of fraction, the leading bit of the mantissa being implied for normal
numbers. -/
def FloatKind.ofBits (bits : UInt64) : FloatKind :=
  let hidden := Nat.pow 2 52
  let fraction := bits.toNat % hidden
  let biased := bits.toNat / hidden % Nat.pow 2 11
  if biased = 2047 then if fraction = 0 then .infinite else .notANumber
  else if biased = 0 then
    if fraction = 0 then .zero else .finite ⟨fraction, -1074, false⟩
  else .finite ⟨hidden + fraction, (biased : Int) - 1075, fraction = 0 && 1 < biased⟩

/-- The text of a number. -/
def numberText (x : Float) : String :=
  let sign := if x.toBits.toNat < Nat.pow 2 63 then "" else "-"
  match FloatKind.ofBits x.toBits with
  | .zero => sign ++ "0"
  | .finite b => sign ++ b.shortest.positional
  | .infinite => sign ++ "inf"
  | .notANumber => "NaN"

end SimplexMethod
