import TrialLoop.Expr.Grammar
import TrialLoop.Value.Arith
import TrialLoop.Value.Order

namespace TrialLoop

/-- Evaluation with a state, which it may change whether or not it fails. -/
abbrev Eval (σ : Type) := ExceptT EvalError (StateM σ)

/-- What gives expressions the values of names and the results of functions. -/
structure Context (σ : Type) where
  lookup : String → StateM σ (Option Value)
  call : String → List Value → Eval σ Value

namespace Eval

variable {σ : Type}

/-- A result that leaves the state as it is. -/
def ofResult {α : Type} : Except EvalError α → Eval σ α
  | .ok a => pure a
  | .error e => throw e

end Eval

namespace Comparison

/-- The comparison holds of two values with an order. -/
def holds : Comparison → Ordering → Bool
  | eq, o => o == .eq
  | ne, o => o != .eq
  | lt, o => o == .lt
  | le, o => o != .gt
  | gt, o => o == .gt
  | ge, o => o != .lt

/-- Values without an order are unequal, and an error for the other comparisons. -/
def test (op : Comparison) (a b : Value) : Except EvalError Bool :=
  match a.order? b, op with
  | some o, _ => .ok (op.holds o)
  | none, eq => .ok false
  | none, ne => .ok true
  | none, _ => .error (.type (.unordered a.kind b.kind))

end Comparison

namespace Value

/-- The position that an index means in a list of a length. Negative ones count from the end. -/
def position (length : Nat) (index : Int) : Except EvalError Nat :=
  let i := if index < 0 then length + index else index
  if 0 ≤ i ∧ i < length then .ok i.toNat else .error (.type (.indexRange index))

/-- The item of a list or the character of a text at an index. -/
def item (base index : Value) : Except EvalError Value := do
  match index.int? with
  | none => .error (.type (.indexKind index.kind))
  | some i =>
    match base with
    | list items => return items.getD (← position items.length i.toInt) null
    | str s =>
      let cs := s.toList
      return str (String.ofList ((cs.drop (← position cs.length i.toInt)).take 1))
    | v => .error (.type (.indexed v.kind))

/-- The value of a prefix operation. -/
def prefixed : UnaryOperator → Value → Except EvalError Value
  | .neg, v => v.neg
  | .pos, v => if v.isNumber then .ok v else .error (.type (.signed v.kind))
  | .not, v => .ok (bool (!v.isTrue))

end Value

namespace Expr

variable {σ : Type}

/-- The value of a name, which a message shows as given. -/
def named (context : Context σ) (name shown : String) : Eval σ Value := do
  match ← context.lookup name with
  | some v => pure v
  | none => throw (.undefined shown)

mutual

/--
The value of an expression. Operands are evaluated from left to right, and those that cannot
matter are left out.
-/
def eval (context : Context σ) : Expr → Eval σ Value
  | literal v => pure v
  | name s => named context s s
  | member (name "var") s => named context s ("var." ++ s)
  | member base s => do
    let v ← base.eval context
    throw (.type (.noAttribute v.kind s))
  | index base i => do
    let v ← base.eval context
    let w ← i.eval context
    Eval.ofResult (v.item w)
  | list items => return .list (← evalAll context items)
  | unary op operand => do
    let v ← operand.eval context
    Eval.ofResult (v.prefixed op)
  | binary op left right => do
    let v ← left.eval context
    let w ← right.eval context
    Eval.ofResult (v.arith op w)
  | compare first links => do
    let v ← first.eval context
    evalLinks context v links
  | and left right => do
    let v ← left.eval context
    if v.isTrue then right.eval context else pure v
  | or left right => do
    let v ← left.eval context
    if v.isTrue then pure v else right.eval context
  | call function arguments => do
    context.call function (← evalAll context arguments)

/-- The values of expressions from left to right. -/
def evalAll (context : Context σ) : List Expr → Eval σ (List Value)
  | [] => pure []
  | e :: es => do
    let v ← e.eval context
    let vs ← evalAll context es
    pure (v :: vs)

/-- Whether a chain of comparisons holds after a value. It ends at the first that does not. -/
def evalLinks (context : Context σ) (left : Value) : List (Comparison × Expr) → Eval σ Value
  | [] => pure (.bool true)
  | (op, e) :: links => do
    let right ← e.eval context
    if ← Eval.ofResult (op.test left right) then evalLinks context right links
    else pure (.bool false)

end

/-- The value of the expression that a text writes. -/
def evalText (context : Context σ) (source : String) : Eval σ Value := do
  match Expr.read source with
  | .ok e => e.eval context
  | .error cause => throw (.grammar cause)

end Expr

/-- An expression with the text that writes it. -/
structure Formula where
  source : String
  body : Expr

/-- The formula of a text. -/
def Formula.ofText (source : String) : Except GrammarError Formula :=
  (Expr.read source).map (⟨source, ·⟩)

end TrialLoop
