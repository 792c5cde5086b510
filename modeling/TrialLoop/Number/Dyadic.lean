namespace TrialLoop

/-- The magnitude `mantissa · 2 ^ exponent` of a finite double. -/
structure Dyadic where
  mantissa : Nat
  exponent : Int

/-- The sign bit of a double is set. -/
def hasMinus (x : Float) : Bool :=
  x.toBits >>> 63 == 1

/-- The biased exponent field of a double. -/
def exponentField (x : Float) : Nat :=
  ((x.toBits >>> 52) &&& 0x7FF).toNat

/-- The fraction field of a double. -/
def fractionField (x : Float) : Nat :=
  (x.toBits &&& 0xFFFFFFFFFFFFF).toNat

/-- The magnitude of a finite double, read off its fields. -/
def Dyadic.ofFloat (x : Float) : Dyadic :=
  if exponentField x = 0 then ⟨fractionField x, -1074⟩
  else ⟨fractionField x + 1 <<< 52, (exponentField x : Int) - 1075⟩

/-- The nonnegative double of a magnitude that some double has exactly. -/
def Dyadic.toFloat (d : Dyadic) : Float :=
  let shift := min (52 - (d.mantissa.log2 : Int)) (d.exponent + 1074)
  let mantissa := d.mantissa <<< shift.toNat
  let field := if mantissa < 1 <<< 52 then 0 else (d.exponent - shift + 1075).toNat
  Float.ofBits (UInt64.ofNat (field <<< 52 + mantissa % 1 <<< 52))

/--
The exact remainder of a division that rounds its quotient toward zero. It has the sign of the
dividend and is smaller than the divisor.
-/
def floatRemainder (x y : Float) : Float :=
  if !x.isFinite || y.isNaN || y == 0.0 then 0.0 / 0.0
  else if !y.isFinite then x
  else
    let a := Dyadic.ofFloat x
    let b := Dyadic.ofFloat y
    let exponent := min a.exponent b.exponent
    let dividend := a.mantissa <<< (a.exponent - exponent).toNat
    let divisor := b.mantissa <<< (b.exponent - exponent).toNat
    let rest := Dyadic.toFloat ⟨dividend % divisor, exponent⟩
    if hasMinus x then -rest else rest

end TrialLoop
