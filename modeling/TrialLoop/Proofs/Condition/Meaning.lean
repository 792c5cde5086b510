import TrialLoop.Proofs.Condition.Tokens
import TrialLoop.Proofs.Expr.Completeness

namespace TrialLoop

theorem Derives.loosen {us : List Token} {l k : Level} {e : Expr} (hlk : l.Joins k)
    (h : Derives us (.level k e)) : Derives us (.level l e) := by
  have h := Derives.operands hlk h .joinedEnd
  rwa [List.append_nil] at h

theorem Derives.sum_of_primary {us : List Token} {e : Expr} (h : Derives us (.level .primary e)) :
    Derives us (.level .sum e) := by
  have hs := Derives.primary h .suffixesEnd
  rw [List.append_nil] at hs
  exact .loosen .sum (.loosen .product (.power (.suffixed hs)))

theorem Derives.operands_inv {us : List Token} {l k : Level} {e : Expr} (hlk : l.Joins k)
    (h : Derives us (.level l e)) : ∃ vs ws first, us = vs ++ ws ∧
      Derives vs (.level k first) ∧ Derives ws (.joined l first e) := by
  cases hlk <;> cases h with
  | operands hlk hf hj =>
    cases hlk
    exact ⟨_, _, _, rfl, hf, hj⟩
  | applied ht => cases ht

theorem Derives.joined_concat {us vs : List Token} {l k : Level} {t : Token}
    {f : Expr → Expr → Expr} {first e right : Expr} (hlk : l.Joins k) (ht : (t, f) ∈ l.operators)
    (h : Derives us (.joined l first e)) (hv : Derives vs (.level k right)) :
    Derives (us ++ t :: vs) (.joined l first (f e right)) := by
  generalize hp : Phrase.joined l first e = p at h
  induction h generalizing first with
  | joinedEnd =>
    cases hp
    have h : Derives (t :: vs ++ []) (.joined l e (f e right)) := .join hlk ht hv .joinedEnd
    rwa [List.append_nil] at h
  | join hlk' ht' hr _ _ ih =>
    cases hp
    have h := Derives.join hlk' ht' hr (ih rfl)
    rwa [← List.append_assoc] at h
  | _ => cases hp

/-- One more operand at the end of a row of them is joined to all before it. -/
theorem Derives.concat {us vs : List Token} {l k : Level} {t : Token} {f : Expr → Expr → Expr}
    {e right : Expr} (hlk : l.Joins k) (ht : (t, f) ∈ l.operators)
    (h : Derives us (.level l e)) (hv : Derives vs (.level k right)) :
    Derives (us ++ t :: vs) (.level l (f e right)) := by
  obtain ⟨us, ws, first, rfl, hf, hj⟩ := h.operands_inv hlk
  rw [List.append_assoc]
  exact .operands hlk hf (hj.joined_concat hlk ht hv)

theorem derives_operand (o : Operand) : Derives o.tokens (.level .sum o.expr) := by
  cases o with
  | name n _ =>
    have h := Derives.primary (.name (s := "var") (by decide))
      (.member (s := String.ofList n) .suffixesEnd)
    exact .loosen .sum (.loosen .product (.power (.suffixed h)))
  | integer negative ds _ =>
    have hs := Derives.primary (.int (n := Operand.magnitude ds)) .suffixesEnd
    rw [List.append_nil] at hs
    cases negative with
    | false => exact Derives.int.sum_of_primary
    | true =>
      exact .loosen .sum (.loosen .product (.applied List.mem_cons_self (.power (.suffixed hs))))
  | word | quoted | bracketed => exact Derives.str.sum_of_primary

theorem token_comparison (op : Comparison) : (op.token, op) ∈ comparisonTokens := by
  cases op <;> simp [Comparison.token, comparisonTokens]

theorem derives_written {l : Level} (c : Written l) :
    Derives (c.parts.flatMap Part.tokens) (.level l c.expr) := by
  induction c with
  | comparison left sign right =>
    have hlink := Derives.link (token_comparison sign.comparison) (derives_operand right) .linksEnd
    have h := Derives.compare (derives_operand left) hlink
    rw [List.append_nil] at h
    rw [Written.parts, List.flatMap_singleton]
    exact .comparison h
  | group c ih =>
    rw [Written.parts, List.flatMap_append, List.flatMap_singleton, List.flatMap_cons]
    exact .comparison (.sum (Derives.group ih).sum_of_primary)
  | not c ih => exact .applied (List.mem_singleton_self _) ih
  | single c ih => exact ih.loosen .and
  | clause c ih => exact ih.loosen .or
  | and left right ihl ihr =>
    rw [Written.parts, List.flatMap_append, List.flatMap_cons]
    exact ihl.concat .and (List.mem_singleton_self _) ihr
  | or left right ihl ihr =>
    rw [Written.parts, List.flatMap_append, List.flatMap_cons]
    exact ihl.concat .or (List.mem_singleton_self _) ihr

theorem read_of_tokens {cs : List Char} {ts : List Token} (h : tokens cs = .ok ts) :
    Expr.read (String.ofList cs) = Expr.ofTokens ts := by
  rw [Expr.read, String.toList_ofList, h]
  rfl

theorem read_source (c : Written .or) :
    Expr.read (String.ofList c.source) = .ok c.expr ∨
      Expr.read (String.ofList c.source) = .error .nesting ∧
        maxNesting ≤ (c.parts.flatMap Part.tokens).length := by
  rw [read_of_tokens (tokens_source c)]
  exact (ofTokens_of_derives (derives_written c)).imp_right (.imp_right Nat.le_of_lt_succ)

variable {σ : Type}

/-- The value of an operand. -/
def Operand.value (context : Context σ) : Operand → Eval σ Value
  | name n _ => Expr.named context (String.ofList n) ("var." ++ String.ofList n)
  | integer negative ds _ => pure (.int (Int64.ofInt (signed negative (digitsValue ds))))
  | word w _ => pure (.str (String.ofList w))
  | quoted _ _ cs => pure (.str (String.ofList (cs.flatMap QuotedChar.value)))
  | bracketed s _ => pure (.str (String.ofList ('[' :: s ++ [']'])))

/-- Whether the condition holds. What cannot matter is left out. -/
def Written.meaning (context : Context σ) {l : Level} : Written l → Eval σ Bool
  | comparison left sign right => do
    let v ← left.value context
    let w ← right.value context
    Eval.ofResult (sign.comparison.test v w)
  | group c => c.meaning context
  | not c => return !(← c.meaning context)
  | single c => c.meaning context
  | and left right => do
    if ← left.meaning context then right.meaning context else return false
  | clause c => c.meaning context
  | or left right => do
    if ← left.meaning context then return true else right.meaning context

theorem eval_operand (context : Context σ) (o : Operand) :
    o.expr.eval context = o.value context := by
  cases o with
  | name | word | quoted | bracketed => rfl
  | integer negative ds h =>
    cases negative with
    | false => rfl
    | true =>
      have hneg : (Value.int (Operand.magnitude ds)).prefixed .neg =
          .ok (.int (Int64.ofInt (signed true (digitsValue ds)))) := by
        have hfit : fit? (-(digitsValue ds : Int)) =
            some (Int64.ofInt (-(digitsValue ds : Int))) := fit?_eq_some (by omega) (by omega)
        rw [Value.prefixed, Value.neg, magnitude_toInt h.2.2, Value.exactOr, hfit]
        rfl
      rw [Operand.expr, Expr.eval, Expr.eval, pure_bind, hneg]
      rfl

/-- The value of the expression is the truth of the condition. -/
theorem eval_written (context : Context σ) {l : Level} (c : Written l) :
    c.expr.eval context = Value.bool <$> c.meaning context := by
  induction c with
  | comparison left sign right =>
    simp only [Written.expr, Expr.eval, Expr.evalLinks, eval_operand, Written.meaning, map_bind]
    refine bind_congr fun v => bind_congr fun w => ?_
    rw [map_eq_pure_bind]
    refine bind_congr fun b => ?_
    cases b <;> rfl
  | group c ih => exact ih
  | not c ih =>
    simp only [Written.expr, Expr.eval, ih, Written.meaning, map_eq_pure_bind, bind_assoc,
      pure_bind]
    rfl
  | single c ih => exact ih
  | clause c ih => exact ih
  | and left right ihl ihr =>
    simp only [Written.expr, Expr.eval, ihl, ihr, Written.meaning, map_eq_pure_bind, bind_assoc,
      pure_bind]
    refine bind_congr fun b => ?_
    cases b
    · rfl
    · rfl
  | or left right ihl ihr =>
    simp only [Written.expr, Expr.eval, ihl, ihr, Written.meaning, map_eq_pure_bind, bind_assoc,
      pure_bind]
    refine bind_congr fun b => ?_
    cases b
    · rfl
    · rfl

theorem test_eq_meaning {c : Written .or} {s : String} (h : Expr.read s = .ok c.expr)
    (context : Context σ) :
    (Condition.formula s).test context = c.meaning context ∧
      (Condition.formula s).holds context = c.meaning context := by
  have heval : Expr.evalText context s = Value.bool <$> c.meaning context := by
    rw [Expr.evalText, h]
    exact eval_written context c
  rw [Condition.test, Condition.holds, heval]
  constructor
  · simp only [map_eq_pure_bind, bind_assoc, pure_bind, Value.isTrue, bind_pure]
  · simp only [map_eq_pure_bind, bind_assoc, pure_bind]
    refine (bind_congr fun b => ?_).trans (bind_pure _)
    cases b <;> rfl

theorem test_eq_throw {s : String} {cause : GrammarError} (h : Expr.read s = .error cause)
    (context : Context σ) :
    (Condition.formula s).test context = throw (.grammar cause) ∧
      (Condition.formula s).holds context = throw (.grammar cause) := by
  have heval : Expr.evalText context s = throw (.grammar cause) := by
    rw [Expr.evalText, h]
  rw [Condition.test, Condition.holds, heval]
  exact ⟨rfl, rfl⟩

/--
The text of a condition becomes an expression that is read as the tree with the same structure and
has its meaning in every context, unless it is nested too deep. That takes as many tokens as levels.
-/
theorem ofText_keeps_meaning (c : Written .or) :
    ∃ s, Condition.ofText (String.ofList c.text) = .ok (.formula s) ∧
      ((Expr.read s = .ok c.expr ∧ ∀ {σ : Type} (context : Context σ),
          c.expr.eval context = Value.bool <$> c.meaning context ∧
          (Condition.formula s).test context = c.meaning context ∧
          (Condition.formula s).holds context = c.meaning context) ∨
        (Expr.read s = .error .nesting ∧ maxNesting ≤ (c.parts.flatMap Part.tokens).length ∧
          ∀ {σ : Type} (context : Context σ),
            (Condition.formula s).test context = throw (.grammar .nesting) ∧
            (Condition.formula s).holds context = throw (.grammar .nesting))) := by
  refine ⟨String.ofList c.source, ofText_text c, ?_⟩
  rcases read_source c with h | ⟨h, hdeep⟩
  · exact .inl ⟨h, fun context => ⟨eval_written context c, test_eq_meaning h context⟩⟩
  · exact .inr ⟨h, hdeep, fun context => test_eq_throw h context⟩

/--
Name characters between brackets are a variable, even one that expressions cannot name, and letters
beyond ASCII are no name characters.
-/
theorem brackets_around_operator_or_letter :
    (¬∃ s, Condition.ofText "[and] = x" = .ok (.formula s) ∧
      (Expr.read s = .ok (.compare (.literal (.str "[and]")) [(.eq, .literal (.str "x"))]) ∨
        Expr.read s = .error .nesting)) ∧
    ¬∃ s, Condition.ofText "[é] = x" = .ok (.formula s) ∧
      (Expr.read s = .ok (.compare (.member (.name "var") "é") [(.eq, .literal (.str "x"))]) ∨
        Expr.read s = .error .nesting) := by
  have hx : IsBareWord ['x'] := ⟨by decide, forall_mem_of_all (by decide), by decide, by decide⟩
  have hend : pieces ['x'] = some ([.word ['x']], true) :=
    pieces_operand (.word ['x'] hx) ends_nil (by rw [pieces.eq_def])
  have hequals := pieces_sign .single (pieces_space (by decide) hend)
  have hbracket : ∀ n : List Char, ']' ∉ n →
      pieces ('[' :: (n ++ ']' :: [' ', '=', ' ', 'x'])) =
        some ([bracketPiece n, .space [' '], .comparison .eq, .space [' '], .word ['x']], true) :=
    fun n hn => pieces_before (readPiece_bracket hn _) (pieces_space (by decide) hequals)
  have hright : tokens [' ', '=', '=', ' ', '"', 'x', '"'] = .ok [.eq, .str "x"] := by
    have hword := tokens_operand (.word ['x'] hx) ends_nil tokens_nil
    rw [← tokens_space] at hword
    rw [tokens_space]
    exact tokens_comparison .eq hword
  constructor
  · rintro ⟨s, hs, hread⟩
    -- the expression text has the operator where the point needs a name
    have htext := ofText_of_pieces (by decide) (by decide) (hbracket "and".toList (by decide)) rfl
    cases htext.symm.trans hs
    have hand := tokens_word (c := 'a') (w := ['n', 'd']) (.inl (by decide))
      (forall_mem_of_all (by decide)) ((ends_space _).stop (by decide)) hright
    have hvar := tokens_word (c := 'v') (w := ['a', 'r']) (.inl (by decide))
      (forall_mem_of_all (by decide)) (by rintro d ⟨⟩; decide) (tokens_point (by decide) hand)
    have hfails : Expr.ofTokens [.name "var", .dot, .and, .eq, .str "x"] =
        .error (.attributeName "And") := by cbv
    have herror := (read_of_tokens hvar).trans hfails
    rcases hread with h | h <;> cases herror.symm.trans h
  · rintro ⟨s, hs, hread⟩
    have hoperand : ']' ∉ ['é'] ∧ ¬(['é'] ≠ [] ∧ ['é'].all isNameChar = true) := by decide
    have htext := ofText_of_pieces (by decide) (by decide) (hbracket ['é'] (by decide)) rfl
    cases htext.symm.trans hs
    have htokens := tokens_operand (.bracketed ['é'] hoperand) (ends_space _) hright
    have hreads : Expr.ofTokens [.str "[é]", .eq, .str "x"] =
        .ok (.compare (.literal (.str "[é]")) [(.eq, .literal (.str "x"))]) := by cbv
    have htree := (read_of_tokens htokens).trans hreads
    rcases hread with h | h <;> cases htree.symm.trans h

end TrialLoop
