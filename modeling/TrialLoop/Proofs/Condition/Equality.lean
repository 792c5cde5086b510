import TrialLoop.Proofs.Condition.Meaning

namespace TrialLoop

/-- The condition that a variable is equal to an operand. -/
def equalsText (name operand : String) : String :=
  "[" ++ name ++ "] = " ++ operand

/-- The expression text of the condition. -/
def equalsSource (name operand : String) : String :=
  "var." ++ name ++ " == " ++ operand

/-- The expression that a variable is equal to a text. -/
def equalsExpr (name text : String) : Expr :=
  .compare (.member (.name "var") name) [(.eq, .literal (.str text))]

/-- A text that brackets make a variable. -/
def IsNameText (name : String) : Prop :=
  name ≠ "" ∧ ∀ c ∈ name.toList, isNameChar c = true

/-- An operand of a single piece that starts and ends with no blank. -/
structure IsOperand (operand : String) (p : Piece) : Prop where
  pieces : pieces operand.toList = some ([p], true)
  kind : (∃ q, p = .quoted q) ∨ ∃ w, p = .word w
  head : ∃ c cs, operand.toList = c :: cs ∧ isBlank c = false
  last : ∀ c, operand.toList.getLast? = some c → isBlank c = false

theorem toList_equalsText (name operand : String) :
    (equalsText name operand).toList =
      '[' :: (name.toList ++ ']' :: ' ' :: '=' :: ' ' :: operand.toList) := by
  simp [equalsText]

theorem pieces_equals {name operand : String} {p : Piece} (hn : IsNameText name)
    (hp : IsOperand operand p) :
    pieces (equalsText name operand).toList =
      some ([.name name.toList, .space [' '], .comparison .eq, .space [' '], p], true) := by
  have hclose : ']' ∉ name.toList := fun h => absurd (hn.2 _ h) (by decide)
  have hbracket : bracketPiece name.toList = .name name.toList :=
    if_pos ⟨by simpa using hn.1, List.all_eq_true.mpr hn.2⟩
  have hoperand : pieces (' ' :: operand.toList) = some ([.space [' '], p], true) := by
    have hpieces : pieces (operand.toList ++ []) = some ([p], true) := by
      rw [List.append_nil]
      exact hp.pieces
    have hspace := pieces_space_before hp.head hpieces
    rwa [List.append_nil] at hspace
  have hsign := pieces_space (by decide) (pieces_sign .single hoperand)
  rw [toList_equalsText]
  have hname := readPiece_bracket hclose (' ' :: '=' :: ' ' :: operand.toList)
  rw [hbracket] at hname
  exact pieces_before hname hsign

theorem sources_equals (name : List Char) {p : Piece}
    (hp : (∃ q, p = .quoted q) ∨ ∃ w, p = .word w) :
    Piece.sources false [.name name, .space [' '], .comparison .eq, .space [' '], p] =
      "var.".toList ++ name ++ " == ".toList ++ p.source true := by
  rcases hp with ⟨q, rfl⟩ | ⟨w, rfl⟩ <;>
    simp [Piece.sources, Piece.source, Piece.isComparison, Comparison.symbol]

theorem ofText_equals {name operand : String} {p : Piece} (hn : IsNameText name)
    (hp : IsOperand operand p) :
    Condition.ofText (equalsText name operand) =
      .ok (.formula (equalsSource name (String.ofList (p.source true)))) := by
  have htext := toList_equalsText name operand
  have htrim : trim (equalsText name operand).toList = (equalsText name operand).toList := by
    refine trim_eq_self (fun c hc => ?_) fun c hc => ?_
    · rw [htext] at hc
      cases hc
      decide
    · obtain ⟨d, ds, hd, -⟩ := hp.head
      refine hp.last c ?_
      rw [htext, hd] at hc
      rw [hd]
      simpa [List.getLast?_append, List.getLast?_cons] using hc
  have hplain : Condition.plain? (equalsText name operand).toList = none := by
    have hne : ∀ w : List Char, w.head? ≠ some '[' →
        (equalsText name operand).toList.map Char.toLower ≠ w := by
      rintro w hw rfl
      rw [htext] at hw
      exact hw rfl
    rw [Condition.plain?, if_neg (hne _ (by decide)), if_neg (hne _ (by decide))]
    intro rest he
    cases htext.symm.trans he
  have hbalanced : Piece.balanced 0
      [.name name.toList, .space [' '], .comparison .eq, .space [' '], p] = true := by
    rcases hp.kind with ⟨q, rfl⟩ | ⟨w, rfl⟩ <;> rfl
  have hread := ofText_of_pieces htrim hplain (pieces_equals hn hp) hbalanced
  rw [String.ofList_toList] at hread
  rw [hread, sources_equals _ hp.kind]
  congr 2
  apply String.toList_inj.mp
  simp [equalsSource]

theorem isOperand_quote (s : String) : IsOperand (quote s) (.quoted (quote s).toList) where
  pieces := by
    have hblank : isBlank '"' = false := by decide
    have hmark : isQuoteMark '"' = true := by decide
    have hrun : readPiece '"' (escapeQuotes s.toList ++ ['"']) =
        some ⟨[.quoted ('"' :: escapeQuotes s.toList ++ ['"'])], [], true⟩ := by
      simp [readPiece, hblank, hmark, quotedRun_escapeQuotes]
    have hnil : TrialLoop.pieces [] = some ([], true) := by rw [pieces.eq_def]
    rw [toList_quote]
    exact pieces_before hrun hnil
  kind := .inl ⟨_, rfl⟩
  head := ⟨'"', _, by rw [toList_quote]; rfl, by decide⟩
  last := by
    intro c hc
    rw [toList_quote, List.getLast?_concat] at hc
    cases hc
    decide

theorem ofText_equals_quote {name : String} (hn : IsNameText name) (s : String) :
    Condition.ofText (equalsText name (quote s)) =
      .ok (.formula (equalsSource name (quote s))) := by
  rw [ofText_equals hn (isOperand_quote s), Piece.source, String.ofList_toList]

theorem toList_equalsSource (name operand : String) :
    (equalsSource name operand).toList =
      'v' :: ("ar".toList ++ '.' :: (name.toList ++ ' ' :: '=' :: '=' :: ' ' :: operand.toList)) := by
  simp [equalsSource]

/-- The text starts with a variable and a point, which a number or an operator may follow. -/
theorem tokens_var (cs : List Char) :
    tokens ('v' :: ("ar".toList ++ '.' :: cs)) =
      (tokens ('.' :: cs)).map (.name "var" :: ·) := by
  refine tokens_read (by decide) (readToken_word (.inl (by decide)) ?_ ?_)
  · exact forall_mem_of_all (by decide)
  · rintro d ⟨⟩
    decide

theorem tokens_attribute {c : Char} {w rest : List Char} (hc : c.isAlpha = true ∨ c = '_')
    (hw : ∀ d ∈ w, isNameChar d = true) (hr : Ends rest) :
    tokens ('.' :: c :: (w ++ rest)) =
      (tokens rest).map fun ts => .dot :: wordToken (String.ofList (c :: w)) :: ts := by
  rw [tokens_read (by decide) (readToken_point (word_begins hc).2.1 _),
    tokens_read (word_begins hc).1 (readToken_word hc hw (hr.stop (by decide)))]
  cases tokens rest <;> rfl

theorem tokens_equals {name : String} (hv : IsVariableName name.toList) (operand : String) :
    tokens (equalsSource name operand).toList =
      (tokens operand.toList).map fun ts => .name "var" :: .dot :: .name name :: .eq :: ts := by
  obtain ⟨⟨c, cs, hname, hc, hcs⟩, hop⟩ := hv
  have hequals : tokens (' ' :: '=' :: '=' :: ' ' :: operand.toList) =
      (tokens operand.toList).map (.eq :: ·) := by
    rw [tokens_space, ← tokens_space operand.toList]
    exact tokens_read (by decide) (by rfl)
  have hword : wordToken (String.ofList (c :: cs)) = .name name := by
    rw [wordToken_name (hname ▸ hop), ← hname, String.ofList_toList]
  rw [toList_equalsSource, tokens_var, hname, List.cons_append,
    tokens_attribute hc hcs (ends_space _), hequals, hword]
  cases tokens operand.toList <;> rfl

theorem read_equals {name operand text : String} (hv : IsVariableName name.toList)
    (h : tokens operand.toList = .ok [.str text]) :
    Expr.read (equalsSource name operand) = .ok (equalsExpr name text) := by
  have hvar := Derives.primary (.name (s := "var") (by decide))
    (.member (s := name) .suffixesEnd)
  have hleft : Derives [.name "var", .dot, .name name] (.level .sum (.member (.name "var") name)) :=
    .loosen .sum (.loosen .product (.power (.suffixed hvar)))
  have hlink : Derives [.eq, .str text] (.links [(.eq, .literal (.str text))]) :=
    .link List.mem_cons_self Derives.str.sum_of_primary .linksEnd
  have hexpr : Derives [.name "var", .dot, .name name, .eq, .str text]
      (.level .or (equalsExpr name text)) :=
    .loosen .or (.loosen .and (.comparison (.compare hleft hlink)))
  have htokens := tokens_equals hv operand
  rw [h] at htokens
  exact (read_of_derives htokens hexpr).resolve_right (by simp [maxNesting])

theorem Comparison.test_eq (v w : Value) : Comparison.eq.test v w = .ok (v.equal w) := by
  unfold Comparison.test Value.equal
  cases v.order? w <;> rfl

section

variable {σ : Type}

theorem test_equalsExpr {source name text : String}
    (h : Expr.read source = .ok (equalsExpr name text)) (context : Context σ) :
    (Condition.formula source).test context =
      (fun v => v.equal (.str text)) <$> Expr.named context name ("var." ++ name) := by
  rw [Condition.test, Expr.evalText, h]
  simp only [equalsExpr, Expr.eval, Expr.evalLinks, map_eq_pure_bind, bind_assoc, pure_bind,
    Comparison.test_eq, Eval.ofResult]
  refine bind_congr fun v => ?_
  cases v.equal (.str text) <;> rfl

end

theorem readToken_number {c : Char} {cs : List Char} (h : startsNumber c cs = true) :
    ∃ t rest, readToken c cs = .ok (t, rest) ∧ Level.or.rank < t.continues := by
  refine ⟨(numberToken (c :: cs)).1, (numberToken (c :: cs)).2, if_pos h, ?_⟩
  simp only [numberToken]
  split <;> exact Nat.lt_succ_self _

/-- No expression has a number after its first variable, as the point before a digit gives one. -/
theorem read_digit_name {name : String} {d : Char} {ds : List Char}
    (hname : name.toList = d :: ds) (hd : d.isDigit = true) (operand : String) :
    ∃ cause, Expr.read (equalsSource name operand) = .error cause := by
  have hvar : Derives [.name "var"] (.level .or (.name "var")) := by
    have h := Derives.primary (.name (s := "var") (by decide)) .suffixesEnd
    exact .loosen .or (.loosen .and (.comparison (.sum
      (.loosen .sum (.loosen .product (.power (.suffixed h)))))))
  obtain ⟨t, rest, hnumber, ht⟩ := @readToken_number '.'
    (d :: (ds ++ ' ' :: '=' :: '=' :: ' ' :: operand.toList)) (by simp [startsNumber, hd])
  rw [Expr.read, toList_equalsSource, tokens_var, hname, List.cons_append,
    tokens_read (by decide) hnumber]
  cases tokens rest with
  | error cause => exact ⟨cause, rfl⟩
  | ok ts => exact ⟨_, ofTokens_trailing hvar (by decide) ht⟩

theorem ofTokens_noAttribute {t : Token} (ht : ∀ s, t ≠ .name s) (ts : List Token) :
    Expr.ofTokens (.name "var" :: .dot :: t :: ts) = .error (.attributeName t.shown) := by
  have hs : readSuffixes 99 (.name "var") (.dot :: t :: ts) = .error (.attributeName t.shown) := by
    rw [readSuffixes]
    · rfl
    · rintro s rest ⟨⟩
      exact ht s rfl
  have hp : readLevel 99 .primary (.name "var" :: .dot :: t :: ts) =
      .ok (.name "var", .dot :: t :: ts) := by
    simp [readLevel]
  simp [Expr.ofTokens, readLevel, hp, hs, maxNesting, bind, Except.bind]

theorem read_operator_name {name : String} (h : name.toList ∈ operatorWords) (operand : String) :
    ∃ cause, Expr.read (equalsSource name operand) = .error cause := by
  have hword : ∃ c cs, name.toList = c :: cs ∧ c.isAlpha = true ∧
      (∀ d ∈ cs, isNameChar d = true) ∧ ∀ s, wordToken (String.ofList (c :: cs)) ≠ .name s := by
    simp only [operatorWords, List.mem_cons, List.not_mem_nil, or_false] at h
    rcases h with h | h | h
    · exact ⟨'a', ['n', 'd'], h, by decide, forall_mem_of_all (by decide), nofun⟩
    · exact ⟨'o', ['r'], h, by decide, forall_mem_of_all (by decide), nofun⟩
    · exact ⟨'n', ['o', 't'], h, by decide, forall_mem_of_all (by decide), nofun⟩
  obtain ⟨c, cs, hname, hc, hcs, hop⟩ := hword
  rw [Expr.read, toList_equalsSource, tokens_var, hname, List.cons_append,
    tokens_attribute (.inl hc) hcs (ends_space _)]
  cases tokens (' ' :: '=' :: '=' :: ' ' :: operand.toList) with
  | error cause => exact ⟨cause, rfl⟩
  | ok ts => exact ⟨_, ofTokens_noAttribute hop ts⟩

/-- A name between brackets is one that expressions can read, or none of its conditions is read. -/
theorem variableName_or_unreadable {name : String} (hn : IsNameText name) :
    IsVariableName name.toList ∨
      ∀ operand, ∃ cause, Expr.read (equalsSource name operand) = .error cause := by
  by_cases hop : name.toList ∈ operatorWords
  · exact .inr (read_operator_name hop)
  obtain ⟨c, cs, hname⟩ := List.exists_cons_of_ne_nil (l := name.toList) (by simpa using hn.1)
  have hall := hn.2
  rw [hname, List.forall_mem_cons] at hall
  by_cases hdigit : c.isDigit = true
  · exact .inr (read_digit_name hname hdigit)
  have hfirst : c.isAlpha = true ∨ c = '_' := by
    simpa [isNameChar, Char.isAlphanum, hdigit] using hall.1
  exact .inl ⟨⟨c, cs, hname, hfirst, hall.2⟩, hop⟩

/--
The condition that a variable is equal to a text in quotes reads the variable and compares it, if
its name starts with no digit and is no operator. If not, the condition fails in every context.
-/
theorem ofText_equals_quote_iff {name : String} (hn : IsNameText name) (s : String) :
    ∃ c, Condition.ofText (equalsText name (quote s)) = .ok c ∧
      (IsVariableName name.toList ↔ ∀ {σ : Type} (context : Context σ),
        c.test context =
          (fun v => v.equal (.str s)) <$> Expr.named context name ("var." ++ name)) ∧
      (¬IsVariableName name.toList →
        ∃ cause, ∀ {σ : Type} (context : Context σ), c.test context = throw (.grammar cause)) := by
  have hread : IsVariableName name.toList →
      Expr.read (equalsSource name (quote s)) = .ok (equalsExpr name s) := by
    intro hv
    have hquote := tokens_quote (s := s.toList) tokens_nil
    rw [List.append_nil, ← toList_quote, String.ofList_toList] at hquote
    exact read_equals hv hquote
  have hfails : ¬IsVariableName name.toList → ∃ cause, ∀ {σ : Type} (context : Context σ),
      (Condition.formula (equalsSource name (quote s))).test context = throw (.grammar cause) := by
    intro hv
    obtain ⟨cause, hcause⟩ := (variableName_or_unreadable hn).resolve_left hv (quote s)
    exact ⟨cause, fun context => (test_eq_throw hcause context).1⟩
  refine ⟨_, ofText_equals_quote hn s, ⟨fun hv _ context => test_equalsExpr (hread hv) context, ?_⟩,
    hfails⟩
  intro htest
  by_contra hv
  obtain ⟨cause, hcause⟩ := hfails hv
  -- In a context that has the variable, the comparison has a result and the condition has none.
  let context : Context Unit := ⟨fun _ => pure (some .null), fun _ _ => pure .null⟩
  have hresult := (hcause context).symm.trans (htest context)
  cases congrArg (fun m => (m.run ()).1) hresult

/-- The variable whose name starts with a digit has a value, and the condition still fails. -/
theorem ofText_equals_leadingDigit :
    ∃ c cause, Condition.ofText "[1a] = \"x\"" = .ok c ∧
      ∀ {σ : Type} (context : Context σ), c.test context = throw (.grammar cause) := by
  have hn : IsNameText "1a" := ⟨by decide, forall_mem_of_all (by decide)⟩
  obtain ⟨c, hc, -, hfails⟩ := ofText_equals_quote_iff hn "x"
  have hv : ¬IsVariableName "1a".toList := by
    rintro ⟨⟨d, ds, ⟨⟩, hd, -⟩, -⟩
    exact absurd hd (by decide)
  obtain ⟨cause, hcause⟩ := hfails hv
  exact ⟨c, cause, hc, hcause⟩

end TrialLoop
