/-!
# Doubles

A double is a whole number of at most 53 binary digits times a power of two,
with a sign.  `Double.round` is the double nearest to a fraction; of two that
are equally near, the one with an even significand is taken.  Arithmetic is
done exactly on fractions and then rounded once.
-/

namespace SdkMigration

/-- The number `significand * 2 ^ exponent`, negated when `negative`. -/
structure Double where
  negative : Bool
  significand : Nat
  exponent : Int
deriving DecidableEq, Repr

namespace Double

/-- The least exponent. -/
def minExponent : Int := -1074

/-- The greatest exponent. -/
def maxExponent : Int := 971

/-- Zero with a sign. -/
def zero (negative : Bool) : Double := ⟨negative, 0, minExponent⟩

/-- Whether the number is zero. -/
def isZero (d : Double) : Bool := d.significand == 0

/-- The numerator of `n * base ^ exponent` as a fraction. -/
def scaledUp (base n : Nat) (exponent : Int) : Nat := n * Nat.pow base exponent.toNat

/-- The denominator of `base ^ exponent` as a fraction. -/
def scaledDown (base : Nat) (exponent : Int) : Nat := Nat.pow base (-exponent).toNat

/-- The whole number nearest to a fraction, the even one of two that are
equally near. -/
def roundQuotient (numerator denominator : Nat) : Nat :=
  let quotient := numerator / denominator
  let rest := 2 * (numerator % denominator)
  if rest < denominator then quotient
  else if denominator < rest then quotient + 1
  else if quotient % 2 = 0 then quotient else quotient + 1

/-- The greatest exponent of a power of two that is no larger than a positive
fraction. -/
def binaryOrder (numerator denominator : Nat) : Int :=
  let guess : Int := Int.ofNat (Nat.log2 numerator) - Int.ofNat (Nat.log2 denominator)
  if scaledUp 2 denominator guess ≤ numerator * scaledDown 2 guess then guess else guess - 1

/-- The double nearest to a fraction, if it is not too large. -/
def round (negative : Bool) (numerator denominator : Nat) : Option Double :=
  if numerator = 0 then some (zero negative)
  else
    let exponent := max minExponent (binaryOrder numerator denominator - 52)
    let significand :=
      roundQuotient (numerator * scaledDown 2 exponent) (scaledUp 2 denominator exponent)
    let found : Double :=
      if significand = Nat.pow 2 53 then ⟨negative, Nat.pow 2 52, exponent + 1⟩
      else ⟨negative, significand, exponent⟩
    if found.exponent ≤ maxExponent then some found else none

/-- The numerator of the number without its sign. -/
def numerator (d : Double) : Nat := scaledUp 2 d.significand d.exponent

/-- The denominator of the number. -/
def denominator (d : Double) : Nat := scaledDown 2 d.exponent

/-- The product of two numbers, with the sign of the first. -/
def mul (a b : Double) : Option Double :=
  round a.negative (a.numerator * b.numerator) (a.denominator * b.denominator)

/-- The quotient of two numbers, with the sign of the first. -/
def div (a b : Double) : Option Double :=
  round a.negative (a.numerator * b.denominator) (a.denominator * b.numerator)

end Double

end SdkMigration
