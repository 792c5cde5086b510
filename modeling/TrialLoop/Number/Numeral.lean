namespace TrialLoop

/-- The parts of a decimal numeral. -/
structure Numeral where
  negative : Bool
  whole : List Char
  /-- The digits after the point, if there is a point. -/
  fraction : Option (List Char)
  exponent : Option Int

/-- The number that a row of digits stands for. -/
def digitsValue (ds : List Char) : Nat :=
  ds.foldl (fun n d => 10 * n + (d.toNat - '0'.toNat)) 0

/-- The integer with a sign and a magnitude. -/
def signed (negative : Bool) (n : Nat) : Int :=
  if negative then -(n : Int) else n

/-- Whether a minus sign comes first, and what follows the sign. -/
def splitSign : List Char → Bool × List Char
  | '-' :: cs => (true, cs)
  | '+' :: cs => (false, cs)
  | cs => (false, cs)

/-- The digits from the first that is not zero on. -/
def significant (ds : List Char) : List Char :=
  ds.dropWhile (· == '0')

/-- The number that a row of digits stands for, if no more than 20 of them are significant. -/
def wordValue? (ds : List Char) : Option Nat :=
  if (significant ds).length ≤ 20 then some (digitsValue (significant ds)) else none

/-- The number below 2 ^ 64 that an optional plus sign and at least one digit stand for. -/
def natural? (cs : List Char) : Option Nat :=
  let ds :=
    match cs with
    | '+' :: ds => ds
    | ds => ds
  if ds ≠ [] ∧ ds.all Char.isDigit then (wordValue? ds).filter (· < 1 <<< 64) else none

/-- The integer as a word of 64 bits, if it fits. -/
def fit? (n : Int) : Option Int64 :=
  if Int64.minValue.toInt ≤ n ∧ n ≤ Int64.maxValue.toInt then some (Int64.ofInt n) else none

/-- The word of 64 bits with a sign and a row of digits, if it fits. -/
def signedWord? (negative : Bool) (ds : List Char) : Option Int64 :=
  (wordValue? ds).bind fun n => fit? (signed negative n)

/-- The word of 64 bits that an optional sign and at least one digit stand for. -/
def integer? (cs : List Char) : Option Int64 :=
  let (negative, ds) := splitSign cs
  if ds ≠ [] ∧ ds.all Char.isDigit then signedWord? negative ds else none

/-- The digits of an exponent, of which those after the number has reached 2 ^ 16 do not count. -/
def exponentValue (ds : List Char) : Nat :=
  ds.foldl (fun n d => if n < 1 <<< 16 then 10 * n + (d.toNat - '0'.toNat) else n) 0

/-- The exponent part that ends a numeral, which may be missing. -/
def exponentPart? : List Char → Option (Option Int)
  | [] => some none
  | c :: cs =>
    let (negative, ds) := splitSign cs
    if (c = 'e' ∨ c = 'E') ∧ ds ≠ [] ∧ ds.all Char.isDigit then
      some (some (signed negative (exponentValue ds)))
    else none

/--
A numeral is an optional sign, digits with an optional point after or between them or a point and
digits, and an optional exponent part.
-/
def Numeral.read? (cs : List Char) : Option Numeral :=
  let (negative, unsigned) := splitSign cs
  let whole := unsigned.takeWhile Char.isDigit
  match unsigned.dropWhile Char.isDigit with
  | '.' :: after =>
    let fraction := after.takeWhile Char.isDigit
    if whole = [] ∧ fraction = [] then none
    else (exponentPart? (after.dropWhile Char.isDigit)).map (⟨negative, whole, some fraction, ·⟩)
  | after => if whole = [] then none else (exponentPart? after).map (⟨negative, whole, none, ·⟩)

/-- The numeral as an integer, if it has neither point nor exponent and fits into 64 bits. -/
def Numeral.int? (n : Numeral) : Option Int64 :=
  match n.fraction, n.exponent with
  | none, none => signedWord? n.negative n.whole
  | _, _ => none

/-- So many digits always tell on which side of a point halfway between two doubles a number is. -/
def maxDigits : Nat := 800

/-- A first part of some digits, in which a last digit that is not zero stands for all others. -/
def roundingDigits (ds : List Char) : List Char :=
  if ds.length ≤ maxDigits then ds
  else ds.take maxDigits ++ [if (ds.drop maxDigits).any (· != '0') then '1' else '0']

/--
The double nearest to a number with some digits, the first of which is not zero, and a power of
ten. What is far outside the range of doubles is infinity or zero.
-/
def nearestFloat (ds : List Char) (exponent : Int) : Float :=
  let used := roundingDigits ds
  let e := exponent + ds.length - used.length
  if ds = [] then 0.0
  else if ds.length + exponent > 400 then 1.0 / 0.0
  else if ds.length + exponent < -400 then 0.0
  else Float.ofScientific (digitsValue used) (e < 0) e.natAbs

/-- The double nearest to the numeral. -/
def Numeral.float (n : Numeral) : Float :=
  let fraction := n.fraction.getD []
  let magnitude :=
    nearestFloat (significant (n.whole ++ fraction)) (n.exponent.getD 0 - fraction.length)
  if n.negative then -magnitude else magnitude

end TrialLoop
