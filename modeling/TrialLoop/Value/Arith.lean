import TrialLoop.Number.Dyadic
import TrialLoop.Value.Error

namespace TrialLoop

/-- A text after which another one stands a number of times. -/
def appendTimes (acc s : String) : Nat → String
  | 0 => acc
  | n + 1 => appendTimes (acc ++ s) s n

/-- A text a number of times. -/
def repeatText (s : String) (n : Nat) : String :=
  if s = "" then "" else appendTimes "" s n

namespace Value

/-- An integer or a truth value as a word; unlike elsewhere, doubles and texts are none. -/
def word? : Value → Option Int64
  | int n => some n
  | bool b => some (boolInt b)
  | _ => none

/-- Two integers or truth values as words. -/
def integers? (a b : Value) : Option (Int64 × Int64) :=
  match a.word?, b.word? with
  | some m, some n => some (m, n)
  | _, _ => none

/-- Two values as doubles. Two texts are no numbers here, whatever they look like. -/
def floats? : Value → Value → Option (Float × Float)
  | str _, str _ => none
  | a, b =>
    match a.float?, b.float? with
    | some x, some y => some (x, y)
    | _, _ => none

/-- An exact result if it fits, else the result between doubles. -/
def exactOr (exact : Int) (rounded : Float) : Value :=
  match fit? exact with
  | some n => int n
  | none => float rounded

def operandError (op : Operator) (a b : Value) : EvalError :=
  .type (.operands op a.kind b.kind)

/-- An operation on integers, or else on doubles. -/
def numeric (op : Operator) (exact : Int → Int → Int) (rounded : Float → Float → Float)
    (a b : Value) : Except EvalError Value :=
  match integers? a b with
  | some (m, n) => .ok (exactOr (exact m.toInt n.toInt) (rounded (intFloat m) (intFloat n)))
  | none =>
    match floats? a b with
    | some (x, y) => .ok (float (rounded x y))
    | none => .error (operandError op a b)

/-- Texts and lists are joined, numbers are added. -/
def add : Value → Value → Except EvalError Value
  | str s, str t => .ok (str (s ++ t))
  | list as, list bs => .ok (list (as ++ bs))
  | a, b => numeric .add (· + ·) (· + ·) a b

def sub (a b : Value) : Except EvalError Value :=
  numeric .sub (· - ·) (· - ·) a b

/-- A text a number of times; a negative number is zero times. -/
def repeated (s : String) (n : Int64) : Except EvalError Value :=
  let times := n.toInt.toNat
  if s.utf8ByteSize * times ≤ maxLength then .ok (str (repeatText s times))
  else .error (.arithmetic .repetition)

def mul : Value → Value → Except EvalError Value
  | str s, int n => repeated s n
  | int n, str s => repeated s n
  | a, b => numeric .mul (· * ·) (· * ·) a b

/-- Division between doubles. -/
def div (a b : Value) : Except EvalError Value :=
  match floats? a b with
  | some (x, y) => if y == 0.0 then .error (.arithmetic .division) else .ok (float (x / y))
  | none => .error (operandError .div a b)

/-- A remainder of words is not zero and has not the sign of the divisor. -/
def signsDiffer (remainder divisor : Int64) : Bool :=
  remainder != 0 && decide (remainder < 0) != decide (divisor < 0)

/--
The greatest whole number that is not above the quotient. The quotient of words is rounded toward
zero, so that it is one too large if it is below zero and not exact.
-/
def floorDiv (a b : Value) : Except EvalError Value :=
  match integers? a b with
  | some (m, n) =>
    if n = 0 then .error (.arithmetic .floorDivision)
    else if m = Int64.minValue ∧ n = -1 then .ok (float (-(intFloat m)))
    else .ok (int (if signsDiffer (m % n) n then m / n - 1 else m / n))
  | none =>
    match floats? a b with
    | some (x, y) =>
      if y == 0.0 then .error (.arithmetic .floorDivision) else .ok (float (x / y).floor)
    | none => .error (operandError .floorDiv a b)

/-- The remainder with the sign of the divisor. That of words has the sign of the dividend. -/
def rem (a b : Value) : Except EvalError Value :=
  match integers? a b with
  | some (m, n) =>
    if n = 0 then .error (.arithmetic .modulo)
    else .ok (int (if signsDiffer (m % n) n then m % n + n else m % n))
  | none =>
    match floats? a b with
    | some (x, y) =>
      if y == 0.0 then .error (.arithmetic .modulo)
      else .ok (float (floatRemainder (floatRemainder x y + y) y))
    | none => .error (operandError .rem a b)

/-- The product of two words, if it is one. -/
def product? (m n : Int64) : Option Int64 :=
  fit? (m.toInt * n.toInt)

/--
A product of a word with a power, if all products on the way are words. The base is squared once
for each binary digit of the exponent after the first.
-/
def powerFrom? (product base : Int64) (exponent : Nat) : Option Int64 :=
  if exponent = 0 then some product
  else if exponent = 1 then product? product base
  else do
    let next ← if exponent % 2 = 1 then product? product base else some product
    powerFrom? next (← product? base base) (exponent / 2)
termination_by exponent

/-- A power of integers if its exponent has 32 bits and the result fits, else one of doubles. -/
def pow (a b : Value) : Except EvalError Value :=
  let exact :=
    match integers? a b with
    | some (m, n) =>
      if 0 ≤ n.toInt ∧ n.toInt < 1 <<< 32 then powerFrom? 1 m n.toInt.toNat else none
    | none => none
  match exact, floats? a b with
  | some n, _ => .ok (int n)
  | none, some (x, y) => .ok (float (x.pow y))
  | none, none => .error (operandError .pow a b)

def neg : Value → Except EvalError Value
  | int n => .ok (exactOr (-n.toInt) (-(intFloat n)))
  | float x => .ok (float (-x))
  | bool b => .ok (int (Int64.ofInt (-(boolInt b).toInt)))
  | v => .error (.type (.negated v.kind))

/-- The value of an operation on two values. -/
def arith : Operator → Value → Value → Except EvalError Value
  | .add => add
  | .sub => sub
  | .mul => mul
  | .div => div
  | .floorDiv => floorDiv
  | .rem => rem
  | .pow => pow

end Value

end TrialLoop
