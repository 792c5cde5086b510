import TrialLoop.Expr.Grammar

namespace TrialLoop

/-- The levels whose expressions are operands joined from left to right, with their operands. -/
inductive Level.Joins : Level → Level → Prop where
  | or : Joins .or .and
  | and : Joins .and .not
  | sum : Joins .sum .product
  | product : Joins .product .unary

/-- The operators of such a level. -/
def Level.operators : Level → List (Token × (Expr → Expr → Expr))
  | or => [(.or, .or)]
  | and => [(.and, .and)]
  | sum => [(.plus, .binary .add), (.minus, .binary .sub)]
  | product => [(.star, .binary .mul), (.slash, .binary .div), (.slashSlash, .binary .floorDiv),
      (.percent, .binary .rem)]
  | _ => []

/-- The operators before an operand of the same level. -/
def Level.prefixes : Level → List (Token × UnaryOperator)
  | not => [(.not, .not)]
  | unary => [(.minus, .neg), (.plus, .pos)]
  | _ => []

def comparisonTokens : List (Token × Comparison) :=
  [(.eq, .eq), (.ne, .ne), (.lt, .lt), (.le, .le), (.gt, .gt), (.ge, .ge)]

/-- The names that write a value. They name nothing and call nothing. -/
def wordValues : List (String × Value) :=
  [("True", .bool true), ("true", .bool true), ("False", .bool false), ("false", .bool false),
    ("None", .null)]

/-- What a stretch of tokens can write. -/
inductive Phrase where
  | level (l : Level) (e : Expr)
  /-- Operators with their operands. They make the first operand into `e`. -/
  | joined (l : Level) (first e : Expr)
  | links (ls : List (Comparison × Expr))
  /-- Names after a point and indices. They make the base into `e`. -/
  | suffixes (base e : Expr)
  /-- The expressions between the brackets of a call or of a list. -/
  | items (es : List Expr)

/-- The grammar: the tokens that write a phrase. -/
inductive Derives : List Token → Phrase → Prop where
  | operands {us vs l k first e} : Level.Joins l k → Derives us (.level k first) →
      Derives vs (.joined l first e) → Derives (us ++ vs) (.level l e)
  | joinedEnd {l e} : Derives [] (.joined l e e)
  | join {us vs l k t f left right e} : Level.Joins l k → (t, f) ∈ l.operators →
      Derives us (.level k right) → Derives vs (.joined l (f left right) e) →
      Derives (t :: us ++ vs) (.joined l left e)
  | applied {us l t op e} : (t, op) ∈ l.prefixes → Derives us (.level l e) →
      Derives (t :: us) (.level l (.unary op e))
  | comparison {us e} : Derives us (.level .comparison e) → Derives us (.level .not e)
  | compare {us vs first link links} : Derives us (.level .sum first) →
      Derives vs (.links (link :: links)) →
      Derives (us ++ vs) (.level .comparison (.compare first (link :: links)))
  | sum {us e} : Derives us (.level .sum e) → Derives us (.level .comparison e)
  | linksEnd : Derives [] (.links [])
  | link {us vs t op e links} : (t, op) ∈ comparisonTokens → Derives us (.level .sum e) →
      Derives vs (.links links) → Derives (t :: us ++ vs) (.links ((op, e) :: links))
  | power {us e} : Derives us (.level .power e) → Derives us (.level .unary e)
  | raised {us vs base e} : Derives us (.level .suffixed base) → Derives vs (.level .unary e) →
      Derives (us ++ .starStar :: vs) (.level .power (.binary .pow base e))
  | suffixed {us e} : Derives us (.level .suffixed e) → Derives us (.level .power e)
  | primary {us vs base e} : Derives us (.level .primary base) → Derives vs (.suffixes base e) →
      Derives (us ++ vs) (.level .suffixed e)
  | suffixesEnd {e} : Derives [] (.suffixes e e)
  | member {us base s e} : Derives us (.suffixes (.member base s) e) →
      Derives (.dot :: .name s :: us) (.suffixes base e)
  | index {us vs base i e} : Derives us (.level .or i) →
      Derives vs (.suffixes (.index base i) e) →
      Derives (.openBracket :: us ++ .closeBracket :: vs) (.suffixes base e)
  | int {n} : Derives [.int n] (.level .primary (.literal (.int n)))
  | float {x} : Derives [.float x] (.level .primary (.literal (.float x)))
  | str {s} : Derives [.str s] (.level .primary (.literal (.str s)))
  | word {s v} : (s, v) ∈ wordValues → Derives [.name s] (.level .primary (.literal v))
  | name {s} : s ∉ wordValues.map Prod.fst → Derives [.name s] (.level .primary (.name s))
  | call {us s es} : s ∉ wordValues.map Prod.fst → Derives us (.items es) →
      Derives (.name s :: .openParen :: us ++ [.closeParen]) (.level .primary (.call s es))
  | group {us e} : Derives us (.level .or e) →
      Derives (.openParen :: us ++ [.closeParen]) (.level .primary e)
  | list {us es} : Derives us (.items es) →
      Derives (.openBracket :: us ++ [.closeBracket]) (.level .primary (.list es))
  | noItems : Derives [] (.items [])
  | lastItem {us e} : Derives us (.level .or e) → Derives us (.items [e])
  /-- A comma follows the item. There may be none after it. -/
  | item {us vs e es} : Derives us (.level .or e) → Derives vs (.items es) →
      Derives (us ++ .comma :: vs) (.items (e :: es))

theorem joining?_eq_some {l : Level} {t : Token} {f : Expr → Expr → Expr} :
    t.joining? l = some f ↔ (t, f) ∈ l.operators := by
  cases l <;> cases t <;> simp [Token.joining?, Level.operators, eq_comm]

theorem comparison?_eq_some {t : Token} {op : Comparison} :
    t.comparison? = some op ↔ (t, op) ∈ comparisonTokens := by
  cases t <;> simp [Token.comparison?, comparisonTokens, eq_comm]

theorem isCloseParen_iff {t : Token} : t.isCloseParen = true ↔ t = .closeParen := by
  cases t <;> simp [Token.isCloseParen]

theorem isCloseBracket_iff {t : Token} : t.isCloseBracket = true ↔ t = .closeBracket := by
  cases t <;> simp [Token.isCloseBracket]

theorem Level.Joins.operand_eq {l k : Level} (h : l.Joins k) : l.operand = k := by
  cases h <;> rfl

theorem Level.Joins.rank_lt {l k : Level} (h : l.Joins k) : k.rank < l.rank := by
  cases h <;> decide

theorem readLevel_operands {l k : Level} (h : l.Joins k) (room : Nat) (ts : List Token) :
    readLevel room l ts = (do
      let (e, rest) ← readLevel room k ts
      readJoined room l e rest) := by
  cases h <;> rw [readLevel]

theorem readLevel_applied {l : Level} {t : Token} {op : UnaryOperator} (h : (t, op) ∈ l.prefixes)
    (room : Nat) (ts : List Token) :
    readLevel room l (t :: ts) =
      (match room with
      | 0 => .error .nesting
      | room + 1 => do
        let (e, rest) ← readLevel room l ts
        .ok (.unary op e, rest)) := by
  refine (readLevel.eq_def room l (t :: ts)).trans ?_
  cases l with
  | not =>
    cases List.mem_singleton.mp h
    cases room <;> rfl
  | unary =>
    rw [Level.prefixes, List.mem_cons, List.mem_singleton] at h
    rcases h with ⟨⟨⟩⟩ | ⟨⟨⟩⟩ <;> cases room <;> rfl
  | _ => cases h

end TrialLoop
