import TrialLoop.Number.Shortest

namespace TrialLoop

/-- How the text of a double is laid out. -/
structure FloatStyle where
  /-- The least decimal exponent that is written without an exponent part. -/
  lowest : Int
  /-- The least decimal exponent above it that is written with an exponent part. -/
  highest : Int
  /-- Whole numbers with a decimal exponent below this end in a point and a zero. -/
  pointBelow : Int

/-- Values are shown without an exponent part, and whole ones below 10 ^ 15 keep a point. -/
def FloatStyle.shown : FloatStyle := ⟨-400, 400, 15⟩

/-- Arguments of a command have an exponent part below 10 ^ -6 and from 10 ^ 21 on. -/
def FloatStyle.argument : FloatStyle := ⟨-6, 21, 15⟩

/-- Messages about tokens have an exponent part below 10 ^ -4 and from 10 ^ 16 on. -/
def FloatStyle.token : FloatStyle := ⟨-4, 16, 16⟩

/-- Every number has an exponent part. -/
def FloatStyle.scientific : FloatStyle := ⟨0, 0, 0⟩

/-- The decimal digits of a natural number. -/
def digits (n : Nat) : List Char :=
  Nat.toDigits 10 n

/-- The text of an integer. -/
def intText (n : Int) : String :=
  String.ofList (if n < 0 then '-' :: digits n.natAbs else digits n.natAbs)

/-- A decimal number without an exponent part. -/
def Decimal.positional (ds : List Char) (exponent : Int) (pointBelow : Int) : List Char :=
  let first := ds.length + exponent
  if 0 ≤ exponent then
    ds ++ List.replicate exponent.toNat '0' ++ (if first - 1 < pointBelow then ['.', '0'] else [])
  else if 0 < first then ds.take first.toNat ++ '.' :: ds.drop first.toNat
  else '0' :: '.' :: List.replicate (-first).toNat '0' ++ ds

/-- A decimal number with one digit before the point and an exponent part. -/
def Decimal.withExponent (ds : List Char) (exponent : Int) : List Char :=
  let point := if ds.length ≤ 1 then ds else ds.take 1 ++ '.' :: ds.drop 1
  point ++ 'e' :: (intText (ds.length - 1 + exponent)).toList

/-- The digits and the exponent of the last digit. -/
def Decimal.text (style : FloatStyle) (ds : List Char) (exponent : Int) : List Char :=
  let first := ds.length - 1 + exponent
  if style.lowest ≤ first ∧ first < style.highest then
    Decimal.positional ds exponent style.pointBelow
  else Decimal.withExponent ds exponent

/-- The text of a double in a style. -/
def floatText (style : FloatStyle) (x : Float) : String :=
  if x.isNaN then "NaN"
  else
    let magnitude :=
      if x.isInf then ['i', 'n', 'f']
      else if x == 0.0 then Decimal.text style ['0'] 0
      else
        let d := shortestDecimal x
        Decimal.text style (digits d.coefficient) d.exponent
    String.ofList (if hasMinus x then '-' :: magnitude else magnitude)

end TrialLoop
