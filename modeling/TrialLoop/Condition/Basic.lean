import TrialLoop.Condition.Piece
import TrialLoop.Expr.Eval
import TrialLoop.Store.Event

namespace TrialLoop

/-- Why a text is no condition. -/
inductive ConditionError where
  | unbalancedParens (condition : String)
  | unclosedBracket (condition : String)

def ConditionError.message : ConditionError → String
  | unbalancedParens condition => "unbalanced parentheses in condition: " ++ condition
  | unclosedBracket condition => "unclosed bracket in condition: " ++ condition

namespace Piece

def isComparison : Piece → Bool
  | comparison _ => true
  | _ => false

/-- The first piece that is no space is a comparison. -/
def comparisonFollows : List Piece → Bool
  | space _ :: ps => comparisonFollows ps
  | p :: _ => p.isComparison
  | [] => false

/-- Words that stand for themselves also beside a comparison. -/
def isReserved (w : List Char) : Bool :=
  ["and".toList, "or".toList, "not".toList].contains w ||
    (Value.readNumber? (String.ofList w)).isSome

/-- The expression text of a piece. A word beside a comparison is a text. -/
def source (beside : Bool) : Piece → List Char
  | space s => s
  | quoted s => s
  | literal s => '"' :: escapeQuotes s ++ ['"']
  | name n => "var.".toList ++ n
  | comparison op => op.symbol.toList
  | openParen => ['(']
  | closeParen => [')']
  | word w => if beside && !isReserved w then '"' :: w ++ ['"'] else w

/-- The expression text of some pieces after a comparison or not. -/
def sources (after : Bool) : List Piece → List Char
  | [] => []
  | space s :: ps => s ++ sources after ps
  | p :: ps => p.source (after || comparisonFollows ps) ++ sources p.isComparison ps

/-- Each closing parenthesis has its own opening one before it, after some that are open. -/
def balanced : Nat → List Piece → Bool
  | open_, [] => open_ == 0
  | open_, openParen :: ps => balanced (open_ + 1) ps
  | 0, closeParen :: _ => false
  | open_ + 1, closeParen :: ps => balanced open_ ps
  | open_, _ :: ps => balanced open_ ps

end Piece

/-- A condition that settings hold. -/
inductive Condition where
  | always
  | never
  | formula (source : String)
  deriving DecidableEq

namespace Condition

/-- The condition that a word or an expression alone stands for. -/
def plain? (text : List Char) : Option Condition :=
  let lower := text.map Char.toLower
  if lower = "always".toList then some always
  else if lower = "never".toList then some never
  else
    match text with
    | '=' :: rest => some (formula (String.ofList (trim rest)))
    | _ => none

/-- The condition of a text. -/
def ofText (text : String) : Except ConditionError Condition :=
  let trimmed := trim text.toList
  match plain? trimmed with
  | some c => .ok c
  | none =>
    match pieces trimmed with
    | none => .error (.unclosedBracket (String.ofList trimmed))
    | some (ps, _) =>
      if Piece.balanced 0 ps then .ok (formula (String.ofList (Piece.sources false ps)))
      else .error (.unbalancedParens text)

/-- What is worth a line in the log about the text of a condition. -/
def events (text : String) : List Event :=
  let trimmed := trim text.toList
  match plain? trimmed, pieces trimmed with
  | none, some (_, false) => [.quoteClosed (String.ofList trimmed)]
  | _, _ => []

variable {σ : Type}

/-- The condition has a true value. -/
def test (context : Context σ) : Condition → Eval σ Bool
  | always => return true
  | never => return false
  | formula source => return (← Expr.evalText context source).isTrue

/-- The condition has the truth value true. -/
def holds (context : Context σ) : Condition → Eval σ Bool
  | always => return true
  | never => return false
  | formula source => do
    match ← Expr.evalText context source with
    | .bool true => return true
    | _ => return false

end Condition

end TrialLoop
