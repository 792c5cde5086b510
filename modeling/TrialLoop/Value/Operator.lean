namespace TrialLoop

/-- The operations of arithmetic on two values. -/
inductive Operator where
  | add | sub | mul | div | floorDiv | rem | pow
  deriving DecidableEq

def Operator.symbol : Operator → String
  | add => "+"
  | sub => "-"
  | mul => "*"
  | div => "/"
  | floorDiv => "//"
  | rem => "%"
  | pow => "**"

/-- The comparisons of two values. -/
inductive Comparison where
  | eq | ne | lt | le | gt | ge
  deriving DecidableEq

def Comparison.symbol : Comparison → String
  | eq => "=="
  | ne => "!="
  | lt => "<"
  | le => "<="
  | gt => ">"
  | ge => ">="

/-- The prefix operations on one value. -/
inductive UnaryOperator where
  | neg | pos | not
  deriving DecidableEq

end TrialLoop
