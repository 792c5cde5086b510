import TrialLoop.Function.Geometry
import TrialLoop.Function.Number

namespace TrialLoop

/-- The function `sometimes`: true with a probability, which is one half if it is not given. -/
def sometimes (arguments : List Value) : Eval RandomStream Value := do
  let p ←
    match arguments[0]? with
    | none => pure 0.5
    | some v =>
      match v.strictFloat? with
      | some p => if 0.0 ≤ p && p ≤ 1.0 then pure p else throw (.validation .probability)
      | none => throw (.validation .probability)
  return .bool ((← RandomStream.unit) < p)

/-- The function with a name. -/
def function? (name : String) : Option (List Value → Eval RandomStream Value) :=
  match name with
  | "int" => some fun vs => Eval.ofResult (toInteger vs)
  | "float" => some fun vs => Eval.ofResult (toDouble vs)
  | "str" => some fun vs => Eval.ofResult (toText vs)
  | "len" => some fun vs => Eval.ofResult (lengthOf vs)
  | "abs" => some fun vs => Eval.ofResult (absolute vs)
  | "round" => some fun vs => Eval.ofResult (rounded vs)
  | "sqrt" => some fun vs => Eval.ofResult (squareRoot vs)
  | "pow" => some fun vs => Eval.ofResult (powerOf vs)
  | "min" => some fun vs => Eval.ofResult (extreme "min" .lt vs)
  | "max" => some fun vs => Eval.ofResult (extreme "max" .gt vs)
  | "sometimes" => some sometimes
  | "xy_from_polar" => some fun vs => Eval.ofResult (fromPolar vs)
  | "xy_to_polar" => some fun vs => Eval.ofResult (toPolar vs)
  | "xy_distance" => some fun vs => Eval.ofResult (distanceOf vs)
  | "xy_circle" => some fun vs => Eval.ofResult (circle vs)
  | "xy_grid" => some fun vs => Eval.ofResult (grid vs)
  | "xy_random" => some randomPoints
  | _ => none

/-- The result of a function, if there is one of the name. -/
def callFunction (name : String) (arguments : List Value) : Eval RandomStream Value :=
  match function? name with
  | some f => f arguments
  | none => throw (.unknownFunction name)

end TrialLoop
