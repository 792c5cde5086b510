import TrialLoop.Expr.Grammar

namespace TrialLoop

/-- Where a reader is: what follows in a list of tokens, in which marks of the end stand as none. -/
structure Cursor where
  rest : List (Option Token)
  depth : Nat

/--
A reader with one counter for the depth, which it raises and restores on its way. It may be stuck.
If it fails the cursor stays where it is.
-/
abbrev Counting := ExceptT GrammarError (StateT Cursor Option)

namespace Counting

/-- Where a reader must not come. -/
def stuck {α : Type} : Counting α := fun _ => none

def peek : Counting (Option Token) := fun c => some (.ok c.rest.head?.join, c)

def following : Counting (List (Option Token)) := fun c => some (.ok c.rest, c)

def skip : Counting Unit := fun c => some (.ok (), { c with rest := c.rest.tail })

def depth : Counting Nat := fun c => some (.ok c.depth, c)

def reset (mark : Nat) : Counting Unit := fun c => some (.ok (), { c with depth := mark })

/-- No function of the grammar is entered beyond the limit. -/
def enter : Counting Unit := do
  if (← depth) ≤ maxNesting then pure () else stuck

/-- One level deeper, if the limit allows it. -/
def descend : Counting Unit := do
  reset ((← depth) + 1)
  if (← depth) ≤ maxNesting then pure () else throw .nesting

/-- One level back. The counter is not below zero. -/
def ascend : Counting Unit := do
  if (← depth) = 0 then stuck else reset ((← depth) - 1)

/-- A reader one level deeper, with the counter lowered again after it. -/
def nested {α : Type} (m : Counting α) : Counting α := do
  descend
  let a ← m
  ascend
  return a

/-- A reader with the counter set back after it to where it was. -/
def marked {α : Type} (m : Counting α) : Counting α := do
  let mark ← depth
  let a ← m
  reset mark
  return a

/-- A token must come next. -/
def require (wanted : Token → Bool) (what : String) : Counting Unit := do
  let next ← peek
  if next.any wanted then skip else throw (.expected what (shownNext next.toList))

end Counting

def Token.isComma : Token → Bool
  | comma => true
  | _ => false

namespace Counting

/-- The comparisons after a first operand. Each takes a token of the bound. -/
def links (operand : Counting Expr) : (bound : List (Option Token)) →
    Counting (List (Comparison × Expr))
  | [] => stuck
  | _ :: bound => do
    match (← peek).bind Token.comparison? with
    | none => return []
    | some op => do
      skip
      let e ← operand
      let ls ← links operand bound
      return (op, e) :: ls

/-- An expression, and the others after a comma. -/
def moreItems (item : Counting Expr) (closing : Token → Bool) (others : Counting (List Expr)) :
    Counting (List Expr) := do
  let e ← item
  if (← peek).any closing then
    skip
    return [e]
  else
    require Token.isComma "','"
    let es ← others
    return e :: es

/-- Items with commas between them up to a closing bracket. Each takes a token of the bound. -/
def items (item : Counting Expr) (closing : Token → Bool) : (bound : List (Option Token)) →
    Counting (List Expr)
  | [] => stuck
  | _ :: bound => do
    if (← peek).any closing then
      skip
      return []
    else moreItems item closing (items item closing bound)

def itemList (item : Counting Expr) (closing : Token → Bool) : Counting (List Expr) := do
  enter
  items item closing (none :: (← following))

mutual

/--
An expression of a level. The room bounds the recursion, and a reader that is out of room is stuck;
what is refused for the nesting is decided by the counter alone.
-/
def level (room : Nat) (l : Level) : Counting Expr := do
  enter
  match l with
  | .whole =>
    nested do
      match room with
      | 0 => stuck
      | room + 1 => level room .or
  | .or => marked do joined room .or (← level room .and)
  | .and => marked do joined room .and (← level room .not)
  | .not => do
    match ← peek with
    | some .not => do
      skip
      let e ← nested do
        match room with
        | 0 => stuck
        | room + 1 => level room .not
      return .unary .not e
    | _ => level room .comparison
  | .comparison => do
    let first ← level room .sum
    let ls ← links (level room .sum) (none :: (← following))
    return if ls.isEmpty then first else .compare first ls
  | .sum => marked do joined room .sum (← level room .product)
  | .product => marked do joined room .product (← level room .unary)
  | .unary => do
    match ← peek with
    | some .minus => do
      skip
      let e ← nested do
        match room with
        | 0 => stuck
        | room + 1 => level room .unary
      return .unary .neg e
    | some .plus => do
      skip
      let e ← nested do
        match room with
        | 0 => stuck
        | room + 1 => level room .unary
      return .unary .pos e
    | _ => level room .power
  | .power => do
    let base ← level room .suffixed
    match ← peek with
    | some .starStar => do
      skip
      let e ← nested do
        match room with
        | 0 => stuck
        | room + 1 => level room .unary
      return .binary .pow base e
    | _ => return base
  | .suffixed => marked do suffixes room (← level room .primary)
  | .primary => do
    let next ← peek
    skip
    match next with
    | some (.int n) => return .literal (.int n)
    | some (.float x) => return .literal (.float x)
    | some (.str s) => return .literal (.str s)
    | some (.name s) =>
      if s = "True" ∨ s = "true" then return .literal (.bool true)
      else if s = "False" ∨ s = "false" then return .literal (.bool false)
      else if s = "None" then return .literal .null
      else
        match ← peek with
        | some .openParen => do
          skip
          let es ← itemList (level room .whole) Token.isCloseParen
          return .call s es
        | _ => return .name s
    | some .openParen => do
      let e ← level room .whole
      require Token.isCloseParen "')'"
      return e
    | some .openBracket => do
      let es ← itemList (level room .whole) Token.isCloseBracket
      return .list es
    | next => throw (.unexpected (shownNext next.toList))
  termination_by 11 * room + l.rank
  decreasing_by all_goals simp only [Level.rank]; omega

/-- The operands joined to a first one. Each operator raises the counter, and nothing lowers it. -/
def joined (room : Nat) (l : Level) (left : Expr) : Counting Expr := do
  match (← peek).bind (Token.joining? l) with
  | none => return left
  | some join => do
    skip
    descend
    match room with
    | 0 => stuck
    | room + 1 => do
      let right ← level room l.operand
      joined room l (join left right)
  termination_by 11 * room
  decreasing_by
    · have : l.operand.rank ≤ 10 := by cases l <;> decide
      omega
    · omega

/-- The names and indices after an operand. Each raises the counter, and nothing lowers it. -/
def suffixes (room : Nat) (base : Expr) : Counting Expr := do
  match ← peek with
  | some .dot => do
    skip
    descend
    match room with
    | 0 => stuck
    | room + 1 => do
      let next ← peek
      skip
      match next with
      | some (.name s) => suffixes room (.member base s)
      | next => throw (.attributeName (shownNext next.toList))
  | some .openBracket => do
    skip
    descend
    match room with
    | 0 => stuck
    | room + 1 => do
      let i ← level room .whole
      require Token.isCloseBracket "']'"
      suffixes room (.index base i)
  | _ => return base
  termination_by 11 * room
  decreasing_by all_goals (try simp only [Level.rank]) <;> omega

end

/-- A level with the room that the counter leaves. -/
def read (l : Level) : Counting Expr := do
  level (maxNesting - (← depth)) l

def readList (closing : Token → Bool) : Counting (List Expr) := do
  itemList (level (maxNesting - (← depth)) .whole) closing

section Steps

variable {α β : Type} {m : Counting α} {c c' : Cursor} {rest : List (Option Token)} {d : Nat}

theorem bind_ok {a : α} (h : m c = some (.ok a, c')) (g : α → Counting β) :
    (m >>= g) c = g a c' := by
  show (m c).bind _ = _
  rw [h]
  rfl

theorem bind_error {e : GrammarError} (h : m c = some (.error e, c')) (g : α → Counting β) :
    (m >>= g) c = some (.error e, c') := by
  show (m c).bind _ = _
  rw [h]
  rfl

theorem peek_bind (g : Option Token → Counting β) (c : Cursor) :
    (peek >>= g) c = g c.rest.head?.join c := rfl

theorem following_bind (g : List (Option Token) → Counting β) (c : Cursor) :
    (following >>= g) c = g c.rest c := rfl

theorem depth_bind (g : Nat → Counting β) (c : Cursor) : (depth >>= g) c = g c.depth c := rfl

theorem reset_bind (mark : Nat) (g : Unit → Counting β) (c : Cursor) :
    (reset mark >>= g) c = g () ⟨c.rest, mark⟩ := rfl

theorem enter_bind (h : c.depth ≤ maxNesting) (g : Unit → Counting β) :
    (enter >>= g) c = g () c := by
  refine bind_ok ?_ g
  rw [enter, depth_bind, if_pos h]
  rfl

theorem descend_bind (h : d + 1 ≤ maxNesting) (g : Unit → Counting β) :
    (descend >>= g) ⟨rest, d⟩ = g () ⟨rest, d + 1⟩ := by
  refine bind_ok ?_ g
  rw [descend, depth_bind, reset_bind, depth_bind]
  exact if_pos h ▸ rfl

theorem descend_beyond (h : d = maxNesting) (g : Unit → Counting β) :
    (descend >>= g) ⟨rest, d⟩ = some (.error .nesting, ⟨rest, d + 1⟩) := by
  have hover : ¬ d + 1 ≤ maxNesting := by omega
  refine bind_error ?_ g
  rw [descend, depth_bind, reset_bind, depth_bind]
  exact if_neg hover ▸ rfl

theorem nested_beyond (h : d = maxNesting) (m : Counting α) :
    nested m ⟨rest, d⟩ = some (.error .nesting, ⟨rest, d + 1⟩) :=
  descend_beyond h _

theorem require_run {wanted : Token → Bool} {t : Token} (what : String) (h : wanted t) :
    require wanted what ⟨some t :: rest, d⟩ = some (.ok (), ⟨rest, d⟩) := by
  rw [require, peek_bind]
  exact if_pos h ▸ rfl

theorem require_refused {wanted : Token → Bool} (what : String)
    (h : ¬ c.rest.head?.join.any wanted) :
    require wanted what c =
      some (.error (.expected what (shownNext c.rest.head?.join.toList)), c) := by
  rw [require, peek_bind]
  exact if_neg h ▸ rfl

theorem joined_end {room : Nat} {l : Level} (left : Expr)
    (h : c.rest.head?.join.bind (Token.joining? l) = none) :
    joined room l left c = some (.ok left, c) := by
  rw [joined, peek_bind, h]
  rfl

theorem joined_next {room : Nat} {l : Level} {t : Token} {join : Expr → Expr → Expr} (left : Expr)
    (h : t.joining? l = some join) (hd : d + 1 ≤ maxNesting) :
    joined (room + 1) l left ⟨some t :: rest, d⟩ = (do
      let right ← level room l.operand
      joined room l (join left right) : Counting Expr) ⟨rest, d + 1⟩ := by
  rw [joined, peek_bind]
  simp only [List.head?_cons, Option.join_some, Option.bind_some, h]
  exact descend_bind hd _

theorem joined_beyond {room : Nat} {l : Level} {t : Token} {join : Expr → Expr → Expr}
    (left : Expr) (h : t.joining? l = some join) (hd : d = maxNesting) :
    joined room l left ⟨some t :: rest, d⟩ = some (.error .nesting, ⟨rest, d + 1⟩) := by
  rw [joined, peek_bind]
  simp only [List.head?_cons, Option.join_some, Option.bind_some, h]
  exact descend_beyond hd _

theorem links_end {operand : Counting Expr} {t : Option Token} {bound : List (Option Token)}
    (h : c.rest.head?.join.bind Token.comparison? = none) :
    links operand (t :: bound) c = some (.ok [], c) := by
  rw [links, peek_bind, h]
  rfl

theorem links_next {operand : Counting Expr} {t₀ : Option Token} {bound : List (Option Token)}
    {t : Token} {op : Comparison} (h : t.comparison? = some op) :
    links operand (t₀ :: bound) ⟨some t :: rest, d⟩ = (do
      let e ← operand
      let ls ← links operand bound
      return (op, e) :: ls : Counting _) ⟨rest, d⟩ := by
  rw [links, peek_bind]
  simp only [List.head?_cons, Option.join_some, Option.bind_some, h]
  rfl

end Steps

end Counting

end TrialLoop
