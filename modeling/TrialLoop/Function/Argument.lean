import TrialLoop.Value.Error

namespace TrialLoop

/-- A number as a double; unlike elsewhere, text and truth values are none. -/
def Value.strictFloat? : Value → Option Float
  | .int n => some (intFloat n)
  | .float x => some x
  | _ => none

/-- The argument of a function at an index. -/
def argument (function : String) (arguments : List Value) (index : Nat) : Except EvalError Value :=
  match arguments[index]? with
  | some v => .ok v
  | none => .error (.type (.missing function index))

/-- A value that a function takes as a number. -/
def number (function : String) (v : Value) : Except EvalError Float :=
  match v.float? with
  | some x => .ok x
  | none => .error (.type (.notNumber function v.kind))

/-- The strict number at an index, which has a name. -/
def namedNumber (function name : String) (arguments : List Value) (index : Nat) :
    Except EvalError Float :=
  match arguments[index]? >>= Value.strictFloat? with
  | some x => .ok x
  | none => .error (.validation (.notNumeric name function))

/-- A list of two strict numbers. -/
def pair? : Value → Option (Float × Float)
  | .list [a, b] =>
    match a.strictFloat?, b.strictFloat? with
    | some x, some y => some (x, y)
    | _, _ => none
  | _ => none

/-- The point that coordinates count from: the origin if it is not given. -/
def poleOf : Option Value → Except ValidationError (Float × Float)
  | none => .ok (0.0, 0.0)
  | some v =>
    match pair? v with
    | some p => .ok p
    | none => .error .pole

/-- A list of two strict numbers, or one that counts twice. -/
def pairOrBoth (cause : ValidationError) (v : Option Value) :
    Except ValidationError (Float × Float) :=
  match v >>= pair?, v >>= Value.strictFloat? with
  | some p, _ => .ok p
  | none, some x => .ok (x, x)
  | none, none => .error cause

/-- A product of two counts, if no list of more items is asked for than may be built. -/
def pointCount (function : String) (columns rows : UInt64) : Except ValidationError Nat :=
  let n := columns.toNat * rows.toNat
  if n ≤ maxLength then .ok n else .error (.pointCount function)

/-- A point as a list of two numbers. -/
def pointValue (p : Float × Float) : Value :=
  .list [.float p.1, .float p.2]

end TrialLoop
