namespace TrialLoop

/--
The square root of `a² + b²` for `a ≥ b ≥ 0` whose squares neither overflow nor underflow. The
rounded root `h` is moved by the error `h² - a² - b²`, divided by `2 h`, which is summed from
differences that cancel exactly.
-/
def correctedHypotenuse (a b : Float) : Float :=
  let h := (a * a + b * b).sqrt
  let error :=
    if h ≤ 2.0 * b then
      let d := h - b
      a * (2.0 * d - a) + (d - 2.0 * (a - b)) * d
    else
      let d := h - a
      2.0 * d * (a - 2.0 * b) + ((4.0 * d - b) * b + d * d)
  h - error / (2.0 * h)

/-- Two to the power -600, by which sides are scaled. -/
def sideScale : Float :=
  Float.ofBits 0x1A70000000000000

/-- Two to the power -54: a side that much shorter than the other only rounds the sum. -/
def sideRatio : Float :=
  Float.ofBits 0x3C90000000000000

/-- Two to the power 511: longer sides are scaled down. -/
def longSide : Float :=
  Float.ofBits 0x5FE0000000000000

/-- Two to the power -459: shorter sides are scaled up. -/
def shortSide : Float :=
  Float.ofBits 0x2340000000000000

/-- The length of the longest side of a right triangle with the other sides `x` and `y`. -/
def hypotenuse (x y : Float) : Float :=
  if x.isInf || y.isInf then 1.0 / 0.0
  else if x.isNaN || y.isNaN then x + y
  else
    let a := if x.abs < y.abs then y.abs else x.abs
    let b := if x.abs < y.abs then x.abs else y.abs
    if a > longSide then
      if b ≤ a * sideRatio then a + b
      else correctedHypotenuse (a * sideScale) (b * sideScale) / sideScale
    else if b < shortSide then
      if a ≥ b / sideRatio then a + b
      else correctedHypotenuse (a / sideScale) (b / sideScale) * sideScale
    else if b ≤ a * sideRatio then a + b
    else correctedHypotenuse a b

end TrialLoop
