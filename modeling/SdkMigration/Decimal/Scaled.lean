import SdkMigration.Decimal.Double

/-!
# Doubles from decimal numerals

A numeral is read in double arithmetic: the digits as a whole number, and
then one multiplication or division by a power of ten, which is itself a
rounded double.  The result is the nearest double for the numerals that
people write, and otherwise one very near to it.
-/

namespace SdkMigration.Double

/-- The largest power of ten that is a double. -/
def greatestPower : Nat := 308

/-- The double nearest to a power of ten, which has to be one of those that
are small enough. -/
def powerOfTen (exponent : Nat) : Double := (round false (Nat.pow 10 exponent) 1).getD (zero false)

/-- Divides by powers of ten until the given exponent is used up. -/
def divideByTens (d : Double) (exponent : Nat) : Nat → Option Double
  | 0 => some (zero d.negative)
  | fuel + 1 =>
    if exponent ≤ greatestPower then d.div (powerOfTen exponent)
    else if d.isZero then some d
    else
      match d.div (powerOfTen greatestPower) with
      | some smaller => divideByTens smaller (exponent - greatestPower) fuel
      | none => none

/-- The number `digits * 10 ^ exponent`, if it is not too large. -/
def ofDecimal (negative : Bool) (digits : Nat) (exponent : Int) : Option Double :=
  match round negative digits 1 with
  | none => none
  | some d =>
    if 0 ≤ exponent then
      if exponent ≤ greatestPower then d.mul (powerOfTen exponent.toNat)
      else if d.isZero then some d
      else none
    else divideByTens d (-exponent).toNat 4

end SdkMigration.Double
