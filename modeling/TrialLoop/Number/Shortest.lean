import TrialLoop.Number.Dyadic

namespace TrialLoop

/-- The positive number `coefficient · 10 ^ exponent`. -/
structure Decimal where
  coefficient : Nat
  exponent : Int

/-- The numbers that round to one double, all four over one positive denominator. -/
structure RoundingInterval where
  low : Nat
  value : Nat
  high : Nat
  denominator : Nat
  /-- The ends round to the double too. -/
  closed : Bool

/--
The interval of a positive finite double. Each end lies halfway to the next double; the next one
below is half as far where the exponent field changes.
-/
def RoundingInterval.ofFloat (x : Float) : RoundingInterval :=
  let d := Dyadic.ofFloat x
  let unit := 1 <<< d.exponent.toNat
  let below := if fractionField x = 0 ∧ 1 < exponentField x then unit else 2 * unit
  let value := 4 * d.mantissa * unit
  ⟨value - below, value, value + 2 * unit, 4 <<< (-d.exponent).toNat, d.mantissa % 2 = 0⟩

/-- The number `coefficient / denominator` rounds to the double. -/
def RoundingInterval.holds (r : RoundingInterval) (numerator : Nat) : Bool :=
  if r.closed then r.low ≤ numerator && numerator ≤ r.high
  else r.low < numerator && numerator < r.high

/-- The interval in units of `10 ^ exponent`. -/
def RoundingInterval.inUnits (r : RoundingInterval) (exponent : Int) : RoundingInterval :=
  let up := Nat.pow 10 (-exponent).toNat
  ⟨r.low * up, r.value * up, r.high * up, r.denominator * Nat.pow 10 exponent.toNat, r.closed⟩

/--
The multiple of the unit in the interval that is nearest to its value, if there is one; of two
equally near multiples the greater.
-/
def RoundingInterval.nearest? (r : RoundingInterval) : Option Nat :=
  let down := r.value / r.denominator
  let downHolds := r.holds (down * r.denominator)
  let upHolds := r.holds ((down + 1) * r.denominator)
  let upNearer := (down + 1) * r.denominator - r.value ≤ r.value - down * r.denominator
  if upHolds && (!downHolds || upNearer) then some (down + 1)
  else if downHolds then some down
  else none

/-- The first hit on the grids of `10 ^ exponent`, `10 ^ (exponent - 1)` and so on. -/
def RoundingInterval.search (r : RoundingInterval) : Nat → Int → Decimal
  | 0, exponent =>
    ⟨r.value * Nat.pow 10 (-exponent).toNat / (r.denominator * Nat.pow 10 exponent.toNat), exponent⟩
  | grids + 1, exponent =>
    match (r.inUnits exponent).nearest? with
    | some coefficient => ⟨coefficient, exponent⟩
    | none => r.search grids (exponent - 1)

/--
The decimal number with the fewest digits that rounds to a positive finite double, and of those
the nearest to it. The search starts above the first digit, and seventeen digits always suffice.
-/
def shortestDecimal (x : Float) : Decimal :=
  let d := Dyadic.ofFloat x
  let top := ((d.mantissa.log2 : Int) + 1 + d.exponent) * 30103 / 100000 + 1
  (RoundingInterval.ofFloat x).search 24 top

end TrialLoop
