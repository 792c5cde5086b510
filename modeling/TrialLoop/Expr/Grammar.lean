import TrialLoop.Expr.Basic
import TrialLoop.Expr.Lexer

namespace TrialLoop

/-- The levels of the grammar. An operand of a level is of the next lower one. -/
inductive Level where
  /-- An expression at the top or inside brackets. -/
  | whole
  | or | and | not | comparison | sum | product | unary | power | suffixed | primary
  deriving DecidableEq

namespace Level

/-- The order in which the levels refer to each other without going deeper. -/
def rank : Level → Nat
  | whole => 0
  | primary => 1
  | suffixed => 2
  | power => 3
  | unary => 4
  | product => 5
  | sum => 6
  | comparison => 7
  | not => 8
  | and => 9
  | or => 10

end Level

/-- The comparison that a token writes. -/
def Token.comparison? : Token → Option Comparison
  | eq => some .eq
  | ne => some .ne
  | lt => some .lt
  | le => some .le
  | gt => some .gt
  | ge => some .ge
  | _ => none

/-- The operation of a level that joins two operands. -/
def Token.joining? : Level → Token → Option (Expr → Expr → Expr)
  | .or, or => some .or
  | .and, and => some .and
  | .sum, plus => some (.binary .add)
  | .sum, minus => some (.binary .sub)
  | .product, star => some (.binary .mul)
  | .product, slash => some (.binary .div)
  | .product, slashSlash => some (.binary .floorDiv)
  | .product, percent => some (.binary .rem)
  | _, _ => none

/-- The level of the operands that a level joins. -/
def Level.operand : Level → Level
  | or => and
  | and => not
  | sum => product
  | product => unary
  | level => level

/-- A closing bracket must come next. -/
def expect (closing : Token → Bool) (what : String) :
    List Token → Except GrammarError (Unit × List Token)
  | [] => .error (.expected what (shownNext []))
  | t :: rest => if closing t then .ok ((), rest) else .error (.expected what t.shown)

def Token.isCloseParen : Token → Bool
  | closeParen => true
  | _ => false

def Token.isCloseBracket : Token → Bool
  | closeBracket => true
  | _ => false

/-- The comparisons after a first operand. Each takes a token of the bound. -/
def readLinks (operand : List Token → Except GrammarError (Expr × List Token)) :
    (bound : List Token) → List Token →
    Except GrammarError (List (Comparison × Expr) × List Token)
  | _ :: bound, t :: rest =>
    match t.comparison? with
    | none => .ok ([], t :: rest)
    | some op => do
      let (e, rest) ← operand rest
      let (links, rest) ← readLinks operand bound rest
      .ok ((op, e) :: links, rest)
  | _, ts => .ok ([], ts)

/--
Expressions with commas between them up to a closing bracket, with a comma after the last one or
not. Each takes a token of the bound.
-/
def readItems (item : List Token → Except GrammarError (Expr × List Token))
    (closing : Token → Bool) :
    (bound : List Token) → List Token → Except GrammarError (List Expr × List Token)
  | [], ts => .error (.expected "','" (shownNext ts))
  | _ :: bound, ts =>
    match ts with
    | [] => more bound (item [])
    | t :: rest => if closing t then .ok ([], rest) else more bound (item (t :: rest))
where
  more (bound : List Token) (first : Except GrammarError (Expr × List Token)) :
      Except GrammarError (List Expr × List Token) := do
    let (e, rest) ← first
    match rest with
    | [] => .error (.expected "','" (shownNext []))
    | t :: rest =>
      if closing t then .ok ([e], rest)
      else
        match t with
        | .comma => do
          let (es, rest) ← readItems item closing bound rest
          .ok (e :: es, rest)
        | t => .error (.expected "','" t.shown)

mutual

/--
An expression of a level. The room is the number of levels of nesting that are left: each prefix
operator, each bracket and each operator of a chain takes one.
-/
def readLevel (room : Nat) (level : Level) (ts : List Token) :
    Except GrammarError (Expr × List Token) :=
  match level with
  | .whole =>
    match room with
    | 0 => .error .nesting
    | room + 1 => readLevel room .or ts
  | .or => do
    let (e, rest) ← readLevel room .and ts
    readJoined room .or e rest
  | .and => do
    let (e, rest) ← readLevel room .not ts
    readJoined room .and e rest
  | .not =>
    match ts with
    | .not :: rest =>
      match room with
      | 0 => .error .nesting
      | room + 1 => do
        let (e, rest) ← readLevel room .not rest
        .ok (.unary .not e, rest)
    | _ => readLevel room .comparison ts
  | .comparison => do
    let (first, rest) ← readLevel room .sum ts
    let (links, rest) ← readLinks (fun ts => readLevel room .sum ts) rest rest
    .ok (if links.isEmpty then first else .compare first links, rest)
  | .sum => do
    let (e, rest) ← readLevel room .product ts
    readJoined room .sum e rest
  | .product => do
    let (e, rest) ← readLevel room .unary ts
    readJoined room .product e rest
  | .unary =>
    match ts with
    | .minus :: rest =>
      match room with
      | 0 => .error .nesting
      | room + 1 => do
        let (e, rest) ← readLevel room .unary rest
        .ok (.unary .neg e, rest)
    | .plus :: rest =>
      match room with
      | 0 => .error .nesting
      | room + 1 => do
        let (e, rest) ← readLevel room .unary rest
        .ok (.unary .pos e, rest)
    | _ => readLevel room .power ts
  | .power => do
    let (base, rest) ← readLevel room .suffixed ts
    match rest with
    | .starStar :: rest =>
      match room with
      | 0 => .error .nesting
      | room + 1 => do
        let (e, rest) ← readLevel room .unary rest
        .ok (.binary .pow base e, rest)
    | _ => .ok (base, rest)
  | .suffixed => do
    let (e, rest) ← readLevel room .primary ts
    readSuffixes room e rest
  | .primary =>
    match ts with
    | .int n :: rest => .ok (.literal (.int n), rest)
    | .float x :: rest => .ok (.literal (.float x), rest)
    | .str s :: rest => .ok (.literal (.str s), rest)
    | .name s :: rest =>
      if s = "True" ∨ s = "true" then .ok (.literal (.bool true), rest)
      else if s = "False" ∨ s = "false" then .ok (.literal (.bool false), rest)
      else if s = "None" then .ok (.literal .null, rest)
      else
        match rest with
        | .openParen :: rest => do
          let (es, rest) ← readItems (fun ts => readLevel room .whole ts) Token.isCloseParen
            ts rest
          .ok (.call s es, rest)
        | _ => .ok (.name s, rest)
    | .openParen :: rest => do
      let (e, rest) ← readLevel room .whole rest
      let (_, rest) ← expect Token.isCloseParen "')'" rest
      .ok (e, rest)
    | .openBracket :: rest => do
      let (es, rest) ← readItems (fun ts => readLevel room .whole ts) Token.isCloseBracket
        ts rest
      .ok (.list es, rest)
    | _ => .error (.unexpected (shownNext ts))
  termination_by 11 * room + level.rank
  decreasing_by all_goals simp only [Level.rank]; omega

/-- The operands that a level joins to a first one, from left to right. -/
def readJoined (room : Nat) (level : Level) (left : Expr) (ts : List Token) :
    Except GrammarError (Expr × List Token) :=
  match ts with
  | [] => .ok (left, [])
  | t :: rest =>
    match t.joining? level with
    | none => .ok (left, t :: rest)
    | some join =>
      match room with
      | 0 => .error .nesting
      | room + 1 => do
        let (right, rest) ← readLevel room level.operand rest
        readJoined room level (join left right) rest
  termination_by 11 * room
  decreasing_by
    · have : level.operand.rank ≤ 10 := by cases level <;> decide
      omega
    · omega

/-- The names and indices after an operand, from left to right. -/
def readSuffixes (room : Nat) (base : Expr) (ts : List Token) :
    Except GrammarError (Expr × List Token) :=
  match ts with
  | .dot :: rest =>
    match room with
    | 0 => .error .nesting
    | room + 1 =>
      match rest with
      | .name s :: rest => readSuffixes room (.member base s) rest
      | rest => .error (.attributeName (shownNext rest))
  | .openBracket :: rest =>
    match room with
    | 0 => .error .nesting
    | room + 1 => do
      let (e, rest) ← readLevel room .whole rest
      let (_, rest) ← expect Token.isCloseBracket "']'" rest
      readSuffixes room (.index base e) rest
  | ts => .ok (base, ts)
  termination_by 11 * room
  decreasing_by all_goals (try simp only [Level.rank]) <;> omega

end

/-- The expression that a list of tokens writes as a whole. -/
def Expr.ofTokens (ts : List Token) : Except GrammarError Expr := do
  match ← readLevel maxNesting .whole ts with
  | (e, []) => .ok e
  | (_, rest) => .error (.trailing (shownNext rest))

/-- The expression that a text writes. -/
def Expr.read (source : String) : Except GrammarError Expr := do
  Expr.ofTokens (← tokens source.toList)

end TrialLoop
