import TrialLoop.Function.Argument
import TrialLoop.Value.Arith
import TrialLoop.Value.Order

namespace TrialLoop

/-- The function `int`: doubles lose their fraction, and text must be an integer of 64 bits. -/
def toInteger (arguments : List Value) : Except EvalError Value := do
  match ← argument "int" arguments 0 with
  | .float x => return .int x.toInt64
  | .str s =>
    match integer? (trim s.toList) with
    | some n => return .int n
    | none => throw (.type (.integerText s))
  | v =>
    match v.int? with
    | some n => return .int n
    | none => throw (.type (.notInteger v.kind))

/-- The function `float`. -/
def toDouble (arguments : List Value) : Except EvalError Value := do
  let v ← argument "float" arguments 0
  match v.float? with
  | some x => return .float x
  | none => throw (.type (.notFloat v.text))

/-- The function `str`. -/
def toText (arguments : List Value) : Except EvalError Value := do
  return .str (← argument "str" arguments 0).text

/-- The function `len`: the characters of a text or the items of a list. -/
def lengthOf (arguments : List Value) : Except EvalError Value := do
  match ← argument "len" arguments 0 with
  | .str s => return .int (Int64.ofNat s.length)
  | .list items => return .int (Int64.ofNat items.length)
  | v => throw (.type (.noLength v.kind))

/-- The function `abs`. -/
def absolute (arguments : List Value) : Except EvalError Value := do
  match ← argument "abs" arguments 0 with
  | .int n => return Value.exactOr n.toInt.natAbs (Value.intFloat n).abs
  | v => return .float (← number "abs" v).abs

/-- A power with squarings, one for each binary digit of the exponent after the first. -/
def powerBySquares (x product : Float) : Nat → Nat → Float
  | 0, _ => product
  | steps + 1, n =>
    let product := if n % 2 = 1 then product * x else product
    if n / 2 = 0 then product else powerBySquares (x * x) product steps (n / 2)

/-- A power of ten, by the lowest 32 bits of the exponent. -/
def powerOfTen (exponent : Int) : Float :=
  let n := Int.bmod exponent (1 <<< 32)
  let power := powerBySquares 10.0 1.0 32 n.natAbs
  if n < 0 then 1.0 / power else power

/-- The function `round`: halves are rounded away from zero, to an integer or to some digits. -/
def rounded (arguments : List Value) : Except EvalError Value := do
  let x ← number "round" (← argument "round" arguments 0)
  match arguments[1]? with
  | none => return .int x.round.toInt64
  | some d =>
    match d.int? with
    | none => throw (.type .digitCount)
    | some d =>
      let factor := powerOfTen d.toInt
      return .float ((x * factor).round / factor)

/-- The function `sqrt`. -/
def squareRoot (arguments : List Value) : Except EvalError Value := do
  return .float (← number "sqrt" (← argument "sqrt" arguments 0)).sqrt

/-- The function `pow`. -/
def powerOf (arguments : List Value) : Except EvalError Value := do
  let base ← argument "pow" arguments 0
  let exponent ← argument "pow" arguments 1
  base.pow exponent

/-- The best of a value and some others: one after it counts if it has the wanted order to it. -/
def best (function : String) (wanted : Ordering) (current : Value) :
    List Value → Except EvalError Value
  | [] => .ok current
  | v :: vs =>
    match v.order? current with
    | none => .error (.type (.notComparable function))
    | some o => best function wanted (if o = wanted then v else current) vs

/-- The functions `min` and `max`, of a list or of all arguments. -/
def extreme (function : String) (wanted : Ordering) (arguments : List Value) :
    Except EvalError Value :=
  let items :=
    match arguments with
    | [.list items] => items
    | _ => arguments
  match items with
  | [] => .error (.type (.noItems function))
  | v :: vs => best function wanted v vs

end TrialLoop
