import SdkMigration.Decimal.Double

/-!
# The shortest decimal of a double

Of all decimals that are nearer to a double than to any other, or as near and
the significand is even, those with the fewest digits are considered, and of
these the one nearest to the double is chosen.

The search goes down the powers of ten.  On the grid of multiples of a power,
if any point reads back as the double, then one of the two points next to the
double does.
-/

namespace SdkMigration.Double

/-- A decimal: `digits * 10 ^ exponent`. -/
structure Decimal where
  digits : Nat
  exponent : Int
deriving DecidableEq, Repr

/-- What is known about a double in the search: all numbers count quarters of
the unit in the last place. -/
structure Neighbourhood where
  /-- The double itself. -/
  value : Nat
  /-- Where the numbers begin that read back as the double. -/
  low : Nat
  /-- Where they end. -/
  high : Nat
  /-- Whether the two ends belong to them. -/
  closed : Bool
  /-- The power of two that one quarter stands for. -/
  exponent : Int

/-- The neighbourhood of a positive double. -/
def neighbourhood (d : Double) : Neighbourhood where
  value := 4 * d.significand
  low :=
    if d.significand = Nat.pow 2 52 ∧ minExponent < d.exponent then 4 * d.significand - 1
    else 4 * d.significand - 2
  high := 4 * d.significand + 2
  closed := d.significand % 2 == 0
  exponent := d.exponent - 2

/-- Whether a decimal reads back as the double. -/
def Neighbourhood.accepts (near : Neighbourhood) (digits : Nat) (exponent : Int) : Bool :=
  let left := scaledUp 10 digits exponent * scaledDown 2 near.exponent
  let unit := scaledDown 10 exponent
  let low := scaledUp 2 near.low near.exponent * unit
  let high := scaledUp 2 near.high near.exponent * unit
  if near.closed then decide (low ≤ left) && decide (left ≤ high)
  else decide (low < left) && decide (left < high)

/-- The decimal on the grid of a power of ten that reads back as the double
and is nearest to it. -/
def Neighbourhood.onGrid? (near : Neighbourhood) (exponent : Int) : Option Decimal :=
  let numerator := scaledUp 2 near.value near.exponent * scaledDown 10 exponent
  let denominator := scaledUp 10 1 exponent * scaledDown 2 near.exponent
  let below := numerator / denominator
  let nearest := roundQuotient numerator denominator
  let other := if nearest = below then below + 1 else below
  if near.accepts nearest exponent then some ⟨nearest, exponent⟩
  else if near.accepts other exponent then some ⟨other, exponent⟩
  else none

/-- Searches the grids from a power of ten downwards. -/
def Neighbourhood.search (near : Neighbourhood) (exponent : Int) : Nat → Decimal
  | 0 => ⟨0, 0⟩
  | fuel + 1 =>
    match near.onGrid? exponent with
    | some decimal => decimal
    | none => near.search (exponent - 1) fuel

/-- A power of ten that is larger than the double. -/
def decimalBound (d : Double) : Int :=
  (Int.ofNat (Nat.log2 d.significand) + d.exponent) * 30103 / 100000 + 2

/-- The shortest decimal of a double without its sign. -/
def shortest (d : Double) : Decimal :=
  if d.isZero then ⟨0, 0⟩ else (neighbourhood d).search (decimalBound d) 24

end SdkMigration.Double
