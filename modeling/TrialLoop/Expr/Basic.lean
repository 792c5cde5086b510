import TrialLoop.Value.Error

namespace TrialLoop

/-- The expressions of scripts. -/
inductive Expr where
  | literal (v : Value)
  | name (s : String)
  /-- A name after a point: `var.name`. -/
  | member (base : Expr) (name : String)
  | index (base index : Expr)
  | list (items : List Expr)
  | unary (op : UnaryOperator) (operand : Expr)
  | binary (op : Operator) (left right : Expr)
  /-- A chain of comparisons, each with the operand before it: `a < b <= c`. -/
  | compare (first : Expr) (links : List (Comparison × Expr))
  | and (left right : Expr)
  | or (left right : Expr)
  | call (function : String) (arguments : List Expr)
  deriving Inhabited

end TrialLoop
