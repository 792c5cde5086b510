import TrialLoop.Condition.Basic
import TrialLoop.Store.Lookup
import TrialLoop.Table.Design
import TrialLoop.Table.Reorder

namespace TrialLoop

/-- A loop that cannot be prepared. -/
inductive ConfigurationError where
  | fileKind
  | noFile (file : String)
  | badFile (file cause : String)

def ConfigurationError.message : ConfigurationError → String
  | fileKind => "Only csv files are supported as source files by loop items"
  | noFile file => "Loop item refers to non-existing source file: " ++ file
  | badFile file cause => "source file " ++ file ++ ": " ++ cause

/-- Why a loop cannot go on. -/
inductive LoopError where
  | configuration (cause : ConfigurationError)
  | validation (cause : ValidationError)
  | eval (cause : EvalError)
  | condition (cause : ConditionError)

def LoopError.message : LoopError → String
  | configuration cause => cause.message
  | validation cause => cause.message
  | eval cause => cause.message
  | condition cause => cause.message

/-- The operations of loops on their tables. -/
inductive OperationKind where
  | fullFactorial | shuffle | shuffleHoriz | slice | sort | sortBy | reverse | roll | weight
  deriving DecidableEq

/-- The operation that a command names. -/
def OperationKind.ofName? : String → Option OperationKind
  | "fullfactorial" => some fullFactorial
  | "shuffle" => some shuffle
  | "shuffle_horiz" => some shuffleHoriz
  | "slice" => some slice
  | "sort" => some sort
  | "sortby" => some sortBy
  | "reverse" => some reverse
  | "roll" => some roll
  | "weight" => some weight
  | _ => none

/-- An operation with its arguments as written. -/
structure Operation where
  kind : OperationKind
  arguments : List String

/-- The integer that an argument is. -/
def integerArgument (what s : String) : Except ValidationError Int64 :=
  match Value.ofText s with
  | .int n => .ok n
  | _ => .error (.notInteger what s)

/-- The first argument, which must be given. -/
def firstArgument (what : String) : List String → Except ValidationError String
  | [] => .error (.missingArgument what)
  | s :: _ => .ok s

namespace OperationKind

/-- The table that an operation makes of a table with some arguments. -/
def run (kind : OperationKind) (arguments : List String) (t : Table) :
    StateM RandomStream (Except ValidationError Table) :=
  match kind with
  | fullFactorial => return t.fullDesign
  | shuffle => t.shuffleRows arguments
  | shuffleHoriz => t.shuffleCells arguments
  | slice => return do
    let start ← integerArgument "from" (← firstArgument "from" arguments)
    let stop ← (arguments[1]?).mapM (integerArgument "to")
    return t.slice start stop
  | sort => return firstArgument "column" arguments >>= t.sortColumn
  | sortBy => return firstArgument "column" arguments >>= t.sortBy
  | reverse => return t.reverse arguments
  | roll => return do
    let steps ← integerArgument "steps" (← firstArgument "steps" arguments)
    t.roll steps (arguments.drop 1)
  | weight => return firstArgument "column" arguments >>= t.weight

end OperationKind

namespace Operation

/-- The value of an argument, without the quotes around it and around its text. -/
def argument (context : Context Session) (s : String) : Eval Session String := do
  return unquote (← interpolate context (unquote s)).text

/-- The values of arguments from left to right. -/
def arguments? (context : Context Session) : List String → Eval Session (List String)
  | [] => return []
  | s :: ss => do
    let a ← argument context s
    return a :: (← arguments? context ss)

/-- The table that the operation makes of a table. -/
def apply (op : Operation) (context : Context Session) (t : Table) :
    StateM Session (Except LoopError Table) := do
  match ← arguments? context op.arguments with
  | .error cause => return .error (.eval cause)
  | .ok arguments =>
    return (← Session.draw (op.kind.run arguments t)).mapError .validation

/-- The table after some operations. -/
def applyAll (context : Context Session) : List Operation → Table →
    StateM Session (Except LoopError Table)
  | [], t => return .ok t
  | op :: ops, t => do
    match ← op.apply context t with
    | .error cause => return .error cause
    | .ok t => applyAll context ops t

end Operation

end TrialLoop
