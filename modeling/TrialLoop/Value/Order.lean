import TrialLoop.Value.Basic

namespace TrialLoop

/-- The order of two doubles, which a NaN has with none. -/
def floatOrder? (x y : Float) : Option Ordering :=
  if x < y then some .lt
  else if x == y then some .eq
  else if x > y then some .gt
  else none

namespace Value

/-- The order of two values as numbers: exact between integers, else between doubles. -/
def numberOrder? : Value → Value → Option Ordering
  | int a, int b => some (compare a b)
  | a, b =>
    match a.float?, b.float? with
    | some x, some y => floatOrder? x y
    | _, _ => none

/-- Two texts are compared as numbers if both are numbers, else character by character. -/
def textOrder? (a b : String) : Option Ordering :=
  match readNumber? a, readNumber? b with
  | some x, some y => numberOrder? x y
  | _, _ => some (compare a b)

mutual

/--
The order of two values, if they have one. Null equals itself alone, lists are compared item by
item with the shorter one first, and the rest are compared as numbers or as texts.
-/
def order? : Value → Value → Option Ordering
  | null, null => some .eq
  | str a, str b => textOrder? a b
  | list as, list bs => itemsOrder? as bs
  | null, _ => none
  | _, null => none
  | list _, _ => none
  | _, list _ => none
  | a, b => numberOrder? a b

/-- The order at the first two items that differ, or of the lengths. -/
def itemsOrder? : List Value → List Value → Option Ordering
  | [], [] => some .eq
  | [], _ :: _ => some .lt
  | _ :: _, [] => some .gt
  | a :: as, b :: bs =>
    match order? a b with
    | some .eq => itemsOrder? as bs
    | other => other

end

/-- Equality in scripts: the values have an order and neither comes first. -/
def equal (a b : Value) : Bool :=
  order? a b == some .eq

end Value

end TrialLoop
