import TrialLoop.Expr.Eval
import TrialLoop.Function.Argument
import TrialLoop.Number.Hypotenuse
import TrialLoop.Random.Stream

namespace TrialLoop

/-- The circumference of a circle divided by its diameter. -/
def circleRatio : Float := 3.141592653589793

/-- The number of degrees in an angle whose arc is as long as the radius. -/
def degreesPerRadius : Float := 57.29577951308232

/-- The point at a distance and an angle in degrees from a pole. -/
def ofPolar (distance angle : Float) (pole : Float × Float) : Float × Float :=
  let a := angle / 360.0 * 2.0 * circleRatio
  (distance * a.cos + pole.1, distance * a.sin + pole.2)

/-- The distance between two points. -/
def distance (p q : Float × Float) : Float :=
  hypotenuse (p.1 - q.1) (p.2 - q.2)

/-- The function `xy_from_polar`. -/
def fromPolar (arguments : List Value) : Except EvalError Value := do
  let rho ← namedNumber "xy_from_polar" "rho" arguments 0
  let phi ← namedNumber "xy_from_polar" "phi" arguments 1
  let pole ← (poleOf arguments[2]?).mapError .validation
  return pointValue (ofPolar rho phi pole)

/-- The function `xy_to_polar`. -/
def toPolar (arguments : List Value) : Except EvalError Value := do
  let x ← namedNumber "xy_to_polar" "x" arguments 0
  let y ← namedNumber "xy_to_polar" "y" arguments 1
  let pole ← (poleOf arguments[2]?).mapError .validation
  let dx := x - pole.1
  let dy := y - pole.2
  return pointValue (hypotenuse dx dy, Float.atan2 dy dx * degreesPerRadius)

/-- The function `xy_distance`. -/
def distanceOf (arguments : List Value) : Except EvalError Value :=
  match (arguments.take 4).map Value.strictFloat? with
  | [some x1, some y1, some x2, some y2] => .ok (.float (distance (x1, y1) (x2, y2)))
  | _ => .error (.validation .coordinates)

/-- Points on a circle from an angle on, each a step after the one before, after other points. -/
def circlePoints (radius step : Float) (pole : Float × Float) :
    Nat → Float → Array Value → Array Value
  | 0, _, points => points
  | n + 1, angle, points =>
    circlePoints radius step pole n (angle + step)
      (points.push (pointValue (ofPolar radius angle pole)))

/-- A count of points given as a whole number that is not negative. -/
def pointsWanted (function : String) (cause : ValidationError) (v : Option Value) :
    Except ValidationError Nat :=
  match v >>= Value.int? with
  | some n => if 0 ≤ n.toInt then pointCount function n.toUInt64 1 else .error cause
  | none => .error cause

/-- The function `xy_circle`. -/
def circle (arguments : List Value) : Except EvalError Value := do
  let n ← (pointsWanted "xy_circle" .circleCount arguments[0]?).mapError .validation
  let start :=
    match arguments[2]? with
    | none => some 0.0
    | some v => v.strictFloat?
  match arguments[1]? >>= Value.strictFloat?, start with
  | some radius, some angle =>
    let pole ← (poleOf arguments[3]?).mapError .validation
    return .list (circlePoints radius (360.0 / n.toFloat) pole n angle #[]).toList
  | _, _ => throw (.validation .circleNumbers)

/-- The places along one side of a grid, around its middle. -/
def gridPlaces (n : Nat) (spacing middle : Float) : List Float :=
  (List.range n).map fun i => (i.toFloat - (n.toFloat - 1.0) / 2.0) * spacing + middle

/-- A count of points along a side; what is not above zero counts as zero. -/
def sideCount (x : Float) : UInt64 :=
  if x > 0.0 then x.toUInt64 else 0

/-- The function `xy_grid`, row by row. -/
def grid (arguments : List Value) : Except EvalError Value := do
  let counts ← (pairOrBoth .gridCount arguments[0]?).mapError .validation
  let spacing ← (pairOrBoth .gridSpacing arguments[1]?).mapError .validation
  let pole ← (poleOf arguments[2]?).mapError .validation
  let columns := sideCount counts.1
  let rows := sideCount counts.2
  if (← (pointCount "xy_grid" columns rows).mapError .validation) = 0 then return .list []
  return .list <| (gridPlaces rows.toNat spacing.2 pole.2).flatMap fun y =>
    (gridPlaces columns.toNat spacing.1 pole.1).map fun x => pointValue (x, y)

/-- A point in a field around a pole. -/
def randomPoint (width height : Float) (pole : Float × Float) :
    StateM RandomStream (Float × Float) := do
  let x ← RandomStream.unit
  let y ← RandomStream.unit
  return ((x - 0.5) * width + pole.1, (y - 0.5) * height + pole.2)

/-- How often a point is tried, and how often a set of points. -/
def maxTries : Nat := 1000

/-- One more point that is far enough from the others, the newest first, if some try gives one. -/
def placePoint (draw : StateM RandomStream (Float × Float)) (least : Float) :
    Nat → List (Float × Float) → StateM RandomStream (List (Float × Float))
  | 0, points => return points
  | tries + 1, points => do
    let p ← draw
    if points.all fun q => distance p q ≥ least then return p :: points
    else placePoint draw least tries points

/-- A number of points more, as far as they find a place. -/
def placePoints (draw : StateM RandomStream (Float × Float)) (least : Float) :
    Nat → List (Float × Float) → StateM RandomStream (List (Float × Float))
  | 0, points => return points
  | n + 1, points => do
    placePoints draw least n (← placePoint draw least maxTries points)

/-- The first set of points that is complete. -/
def placeAll (draw : StateM RandomStream (Float × Float)) (least : Float) (n : Nat) :
    Nat → StateM RandomStream (Option (List (Float × Float)))
  | 0 => return none
  | tries + 1 => do
    let points ← placePoints draw least n []
    if points.length = n then return some points.reverse else placeAll draw least n tries

/-- The function `xy_random`. -/
def randomPoints (arguments : List Value) : Eval RandomStream Value := do
  let n ← Eval.ofResult
    ((pointsWanted "xy_random" .randomCount arguments[0]?).mapError .validation)
  match arguments[1]? >>= Value.strictFloat?, arguments[2]? >>= Value.strictFloat? with
  | some width, some height =>
    let least ←
      match arguments[3]? with
      | none => pure 0.0
      | some v =>
        match v.strictFloat? with
        | some d => if d ≥ 0.0 then pure d else throw (.validation .randomDistance)
        | none => throw (.validation .randomDistance)
    let pole ← Eval.ofResult ((poleOf arguments[4]?).mapError .validation)
    match ← placeAll (randomPoint width height pole) least n maxTries with
    | some points => return .list (points.map pointValue)
    | none => throw (.validation .randomFailed)
  | _, _ => throw (.validation .randomSize)

end TrialLoop
