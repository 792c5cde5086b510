import TrialLoop.Proofs.Expr.Derivation

namespace TrialLoop

/--
How many square brackets are open after a token. A bracket that was not opened does not close, and
nothing goes on after a character that is no token.
-/
def Token.openAfter? (depth : Nat) : Token → Option Nat
  | openBracket => some (depth + 1)
  | closeBracket =>
    match depth with
    | 0 => none
    | depth + 1 => some depth
  | unknown _ => none
  | _ => some depth

/-- How many square brackets are open after some tokens. -/
def openAfter? (depth : Nat) (ts : List Token) : Option Nat :=
  ts.foldlM Token.openAfter? depth

@[simp]
theorem openAfter?_nil (depth : Nat) : openAfter? depth [] = some depth := rfl

@[simp]
theorem openAfter?_cons (depth : Nat) (t : Token) (ts : List Token) :
    openAfter? depth (t :: ts) = t.openAfter? depth >>= (openAfter? · ts) :=
  List.foldlM_cons

@[simp]
theorem openAfter?_append (depth : Nat) (ts us : List Token) :
    openAfter? depth (ts ++ us) = openAfter? depth ts >>= (openAfter? · us) :=
  List.foldlM_append

theorem openAfter?_of_operator {l : Level} {t : Token} {f : Expr → Expr → Expr}
    (h : (t, f) ∈ l.operators) (depth : Nat) : t.openAfter? depth = some depth := by
  cases l <;> cases t <;> first | rfl | simp [Level.operators] at h

theorem openAfter?_of_sign {l : Level} {t : Token} {op : UnaryOperator}
    (h : (t, op) ∈ l.prefixes) (depth : Nat) : t.openAfter? depth = some depth := by
  cases l <;> cases t <;> first | rfl | simp [Level.prefixes] at h

theorem openAfter?_of_comparison {t : Token} {op : Comparison} (h : (t, op) ∈ comparisonTokens)
    (depth : Nat) : t.openAfter? depth = some depth := by
  cases t <;> first | rfl | simp [comparisonTokens] at h

/-- Every bracket that opens in a phrase closes in it, and none that was open before it does. -/
theorem Derives.openAfter?_eq {ts : List Token} {p : Phrase} (h : Derives ts p) (depth : Nat) :
    openAfter? depth ts = some depth := by
  induction h generalizing depth with
  | joinedEnd | linksEnd | suffixesEnd | noItems => rfl
  | int | float | str | word | name => rfl
  | comparison _ ih | sum _ ih | power _ ih | suffixed _ ih | lastItem _ ih => exact ih depth
  | operands _ _ _ ihu ihv | compare _ _ ihu ihv | primary _ _ ihu ihv => simp [ihu, ihv]
  | join _ ht _ _ ihu ihv => simp [openAfter?_of_operator ht, ihu, ihv]
  | link ht _ _ ihu ihv => simp [openAfter?_of_comparison ht, ihu, ihv]
  | applied ht _ ih => simp [openAfter?_of_sign ht, ih]
  | raised _ _ ihu ihv | item _ _ ihu ihv => simp [Token.openAfter?, ihu, ihv]
  | index _ _ ihu ihv => simp [Token.openAfter?, ihu, ihv]
  | member _ ih | call _ _ ih | group _ ih | list _ ih => simp [Token.openAfter?, ih]

end TrialLoop
