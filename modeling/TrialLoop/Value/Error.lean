import TrialLoop.Expr.Token
import TrialLoop.Value.Basic
import TrialLoop.Value.Operator

namespace TrialLoop

/-- The most rows that a table operation may produce. -/
def maxRows : Nat := 1 <<< 24

/-- An argument that a table operation, a loop or a function does not accept. -/
inductive ValidationError where
  | rowWidth (row found expected : Nat)
  | unknownColumn (column : String)
  | columnLength (column : String)
  | designSize
  | weight (found : String) (row : Nat)
  | weightedSize
  | notInteger (what found : String)
  | missingArgument (what : String)
  | repeatCount (found : String)
  | cycleCount (count : String) (rows : Nat)
  | skipCount (most : Nat) (found : String)
  | probability
  | pole
  | notNumeric (argument function : String)
  | coordinates
  | circleCount
  | circleNumbers
  | gridCount
  | gridSpacing
  | randomCount
  | randomSize
  | randomDistance
  | randomFailed
  | pointCount (function : String)

def ValidationError.message : ValidationError → String
  | rowWidth row found expected =>
    "row " ++ toString row ++ " has " ++ toString found ++ " cells, expected " ++ toString expected
  | unknownColumn column => "unknown column: " ++ column
  | columnLength column => "column " ++ column ++ " has a different length"
  | designSize => "full-factorial design exceeds " ++ toString maxRows ++ " rows"
  | weight found row =>
    "weight values must be non-negative integers, got '" ++ found ++ "' in row " ++ toString row
  | weightedSize => "weighted table exceeds " ++ toString maxRows ++ " rows"
  | notInteger what found => what ++ " should be an integer, got '" ++ found ++ "'"
  | missingArgument what => "missing " ++ what ++ " argument"
  | repeatCount found => "repeat should be a non-negative number, got '" ++ found ++ "'"
  | cycleCount count rows =>
    "repeat " ++ count ++ " over " ++ toString rows ++ " rows exceeds " ++ toString maxRows
      ++ " cycles"
  | skipCount most found =>
    "skip should be an integer between 0 and " ++ toString most ++ ", got '" ++ found ++ "'"
  | probability => "p should be a numeric value between 0 and 1"
  | pole => "pole should be an array of two numeric values"
  | notNumeric argument function => argument ++ " should be numeric in " ++ function ++ "()"
  | coordinates => "Coordinates should be numeric in xy_distance()"
  | circleCount => "n should be a non-negative integer in xy_circle()"
  | circleNumbers => "rho and phi0 should be numeric in xy_circle()"
  | gridCount =>
    "n should be a single non-negative number, or an array of two non-negative numbers in xy_grid()"
  | gridSpacing =>
    "spacing should be a single non-negative number, or an array of two non-negative numbers"
      ++ " in xy_grid()"
  | randomCount => "n should be a non-negative number in xy_random()"
  | randomSize => "width and height should be numeric in xy_random()"
  | randomDistance => "min_dist should be a non-negative number in xy_random()"
  | randomFailed => "Failed to generate random coordinates in xy_random()"
  | pointCount function => "too many points requested in " ++ function ++ "()"

/-- Text that is no expression. The places name what was found there, or the end. -/
inductive GrammarError where
  | unterminatedText
  | nesting
  | expected (what found : String)
  | attributeName (found : String)
  | unexpected (found : String)
  | trailing (found : String)

/-- The deepest nesting of an expression. -/
def maxNesting : Nat := 100

def GrammarError.message : GrammarError → String
  | unterminatedText => "unterminated string literal"
  | nesting => "expression nested deeper than " ++ toString maxNesting ++ " levels"
  | expected what found => "expected " ++ what ++ ", found " ++ found
  | attributeName found => "expected attribute name after '.', found " ++ found
  | unexpected found => "unexpected token " ++ found
  | trailing found => "unexpected trailing " ++ found

/-- A value of the wrong kind. -/
inductive TypeError where
  | operands (operator : Operator) (left right : Kind)
  | negated (kind : Kind)
  | signed (kind : Kind)
  | noAttribute (kind : Kind) (name : String)
  | indexKind (kind : Kind)
  | indexRange (index : Int)
  | indexed (kind : Kind)
  | unordered (left right : Kind)
  | integerText (text : String)
  | notInteger (kind : Kind)
  | notFloat (text : String)
  | noLength (kind : Kind)
  | digitCount
  | notComparable (function : String)
  | noItems (function : String)
  | missing (function : String) (index : Nat)
  | notNumber (function : String) (kind : Kind)

def TypeError.message : TypeError → String
  | operands operator left right =>
    "unsupported operand types for " ++ operator.symbol ++ ": '" ++ left.name ++ "' and '"
      ++ right.name ++ "'"
  | negated kind => "bad operand type for unary -: '" ++ kind.name ++ "'"
  | signed kind => "bad operand type for unary +: '" ++ kind.name ++ "'"
  | noAttribute kind name => "'" ++ kind.name ++ "' object has no attribute '" ++ name ++ "'"
  | indexKind kind => "indices must be integers, not '" ++ kind.name ++ "'"
  | indexRange index => "index " ++ intText index ++ " out of range"
  | indexed kind => "'" ++ kind.name ++ "' object is not subscriptable"
  | unordered left right => "'" ++ left.name ++ "' and '" ++ right.name ++ "' cannot be ordered"
  | integerText text => "invalid literal for int(): '" ++ text ++ "'"
  | notInteger kind => "int() argument is '" ++ kind.name ++ "'"
  | notFloat text => "could not convert '" ++ text ++ "' to float"
  | noLength kind => "object of type '" ++ kind.name ++ "' has no len()"
  | digitCount => "round(): ndigits must be an integer"
  | notComparable function => function ++ "(): values are not comparable"
  | noItems function => function ++ "() arg is an empty sequence"
  | missing function index => function ++ ": argument " ++ toString index ++ " missing"
  | notNumber function kind => function ++ ": expected a number, got '" ++ kind.name ++ "'"

/-- An operation without a result. -/
inductive ArithmeticError where
  | division
  | floorDivision
  | modulo
  | repetition

def ArithmeticError.message : ArithmeticError → String
  | division => "division by zero"
  | floorDivision => "integer division by zero"
  | modulo => "modulo by zero"
  | repetition => "repeated string would exceed " ++ toString maxLength ++ " bytes"

/-- Why an expression has no value. -/
inductive EvalError where
  | grammar (cause : GrammarError)
  | undefined (name : String)
  | type (cause : TypeError)
  | arithmetic (cause : ArithmeticError)
  | unknownFunction (name : String)
  | validation (cause : ValidationError)

def EvalError.message : EvalError → String
  | grammar cause => "syntax error: " ++ cause.message
  | undefined name => "name '" ++ name ++ "' is not defined"
  | type cause => "type error: " ++ cause.message
  | arithmetic cause => "arithmetic error: " ++ cause.message
  | unknownFunction name => "unknown function: " ++ name
  | validation cause => cause.message

end TrialLoop
