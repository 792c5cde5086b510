import TrialLoop.Number.FloatText
import TrialLoop.Number.Numeral
import TrialLoop.Text.Blank

namespace TrialLoop

/-- The longest text, in bytes, and the longest list that one operation may build. -/
def maxLength : Nat := 1 <<< 24

/-- A value of a script. -/
inductive Value where
  | null
  | bool (b : Bool)
  | int (n : Int64)
  | float (x : Float)
  | str (s : String)
  | list (items : List Value)
  deriving Inhabited

/-- The kinds of values. -/
inductive Kind where
  | null | bool | int | float | str | list
  deriving DecidableEq

/-- The name of a kind in messages. -/
def Kind.name : Kind → String
  | null => "NoneType"
  | bool => "bool"
  | int => "int"
  | float => "float"
  | str => "str"
  | list => "list"

namespace Value

def kind : Value → Kind
  | null => .null
  | bool _ => .bool
  | int _ => .int
  | float _ => .float
  | str _ => .str
  | list _ => .list

mutual

/-- The value as text. Texts inside a list stand in single quotes. -/
def text : Value → String
  | null => "None"
  | bool true => "True"
  | bool false => "False"
  | int n => intText n.toInt
  | float x => floatText .shown x
  | str s => s
  | list items => "[" ++ ", ".intercalate (itemTexts items) ++ "]"

/-- The texts of the items of a list. -/
def itemTexts : List Value → List String
  | [] => []
  | str s :: vs => ("'" ++ s ++ "'") :: itemTexts vs
  | v :: vs => v.text :: itemTexts vs

end

/-- The number that a text stands for: an integer if it is one of 64 bits, else a double. -/
def readNumber? (s : String) : Option Value :=
  (Numeral.read? (trim s.toList)).map fun n =>
    match n.int? with
    | some i => int i
    | none => float n.float

/-- The value of script text: a number if it is one, else the text itself. -/
def ofText (s : String) : Value :=
  (readNumber? s).getD (str s)

/-- Null, false, zero and everything empty are untrue. -/
def isTrue : Value → Bool
  | null => false
  | bool b => b
  | int n => n != 0
  | float x => x != 0.0
  | str s => s != ""
  | list items => !items.isEmpty

/-- A double without a fraction; infinities and NaN are none. -/
def isWhole (x : Float) : Bool :=
  x.isFinite && x.floor == x

/-- The nearest double to a word, of two the even one. -/
def intFloat (n : Int64) : Float :=
  .ofModel (.ofInt64 n)

def boolInt (b : Bool) : Int64 :=
  if b then 1 else 0

/-- The value as a double. Text counts if it is a number. -/
def float? : Value → Option Float
  | int n => some (intFloat n)
  | float x => some x
  | bool b => some (intFloat (boolInt b))
  | str s =>
    match readNumber? s with
    | some (int n) => some (intFloat n)
    | some (float x) => some x
    | _ => none
  | _ => none

/-- A whole double as an integer, the nearest one of 64 bits. -/
def wholeInt? (x : Float) : Option Int64 :=
  if isWhole x then some x.toInt64 else none

/-- The value as an integer. Whole doubles count, and text if it is a whole number. -/
def int? : Value → Option Int64
  | int n => some n
  | bool b => some (boolInt b)
  | float x => wholeInt? x
  | str s =>
    match readNumber? s with
    | some (int n) => some n
    | some (float x) => wholeInt? x
    | _ => none
  | _ => none

def isNumber : Value → Bool
  | int _ => true
  | float _ => true
  | _ => false

/-- Null and the empty text, which a full design leaves out. -/
def isEmpty : Value → Bool
  | null => true
  | str s => s == ""
  | _ => false

mutual

/-- The same kind and equal content; doubles are compared as numbers. -/
def same : Value → Value → Bool
  | null, null => true
  | bool a, bool b => a == b
  | int a, int b => a == b
  | float a, float b => a == b
  | str a, str b => a == b
  | list as, list bs => sameItems as bs
  | _, _ => false

def sameItems : List Value → List Value → Bool
  | [], [] => true
  | a :: as, b :: bs => same a b && sameItems as bs
  | _, _ => false

end

end Value

end TrialLoop
