import TrialLoop.Proofs.Condition.Meaning
import TrialLoop.Proofs.Number.Numeral

namespace TrialLoop

/-- The sign in front of a number. -/
inductive NumberSign where
  | absent | plus | minus

namespace NumberSign

def text : NumberSign → List Char
  | absent => []
  | plus => ['+']
  | minus => ['-']

def tokens : NumberSign → List Token
  | absent => []
  | plus => [.plus]
  | minus => [.minus]

def isMinus : NumberSign → Bool
  | minus => true
  | _ => false

/-- The expression with the sign in front of it. -/
def apply : NumberSign → Expr → Expr
  | absent, e => e
  | plus, e => .unary .pos e
  | minus, e => .unary .neg e

theorem exists_text (cs : List Char) :
    ∃ s : NumberSign, cs = s.text ++ (splitSign cs).2 ∧ (splitSign cs).1 = s.isMinus := by
  unfold splitSign
  split
  next => exact ⟨minus, rfl, rfl⟩
  next => exact ⟨plus, rfl, rfl⟩
  next => exact ⟨absent, rfl, rfl⟩

theorem tokens_text (s : NumberSign) {cs : List Char} {ts : List Token}
    (h : TrialLoop.tokens cs = .ok ts) : TrialLoop.tokens (s.text ++ cs) = .ok (s.tokens ++ ts) := by
  cases s with
  | absent => exact h
  | plus => exact tokens_before (by decide) (by rfl) h
  | minus => exact tokens_before (by decide) (by rfl) h

theorem derives (s : NumberSign) {us : List Token} {e : Expr} (h : Derives us (.level .unary e)) :
    Derives (s.tokens ++ us) (.level .unary (s.apply e)) := by
  cases s with
  | absent => exact h
  | plus => exact .applied (by simp [Level.prefixes]) h
  | minus => exact .applied (by simp [Level.prefixes]) h

end NumberSign

namespace Numeral

/-- The token of a numeral without a sign. -/
def token (n : Numeral) : Token :=
  match n.int? with
  | some i => .int i
  | none => .float n.float

theorem derives_token (n : Numeral) :
    Derives [n.token] (.level .primary (.literal n.value)) := by
  unfold token value
  cases n.int? with
  | some i => exact .int
  | none => exact .float

end Numeral

theorem numberToken_eq {cs after rest : List Char} {fraction : Option (List Char)}
    {exponent : Option Int} (hf : splitFraction (cs.dropWhile Char.isDigit) = (fraction, after))
    (he : splitExponent after = (exponent, rest)) :
    numberToken cs =
      (Numeral.token ⟨false, cs.takeWhile Char.isDigit, fraction, exponent⟩, rest) := by
  simp only [numberToken, hf, he, Numeral.token]
  cases Numeral.int? ⟨false, cs.takeWhile Char.isDigit, fraction, exponent⟩ with
  | some i => rfl
  | none => rfl

theorem splitExponent_of_part {cs : List Char} {e : Option Int} (h : exponentPart? cs = some e) :
    splitExponent cs = (e, []) := by
  cases cs with
  | nil =>
    cases h
    rfl
  | cons c cs =>
    obtain ⟨hc, hne, hdigits, rfl⟩ := exponentPart?_cons h
    have hrun := takeWhile_run hdigits [] (by simp)
    rw [List.append_nil] at hrun
    simp [splitExponent, hc, hrun, hne]

/-- What a numeral without a bare point is read from is one token. -/
theorem numberToken_of_read {cs : List Char} {n : Numeral} (h : Numeral.read? cs = some n)
    (hf : n.fraction ≠ some []) : numberToken (splitSign cs).2 = (n.magnitude.token, []) := by
  obtain ⟨-, hwhole, hparts⟩ := Numeral.parts_of_read h
  have hn : n.magnitude = ⟨false, (splitSign cs).2.takeWhile Char.isDigit, n.fraction, n.exponent⟩ := by
    rw [Numeral.magnitude, hwhole]
  rw [hn]
  cases hparts with
  | pointed after hrest hfraction _ hexponent =>
    refine numberToken_eq ?_ (splitExponent_of_part hexponent)
    rw [hfraction] at hf
    obtain ⟨d, ds, rfl, hd⟩ := isDigit_head_of_takeWhile fun hnil => hf (congrArg some hnil)
    rw [hrest, hfraction, splitFraction, if_pos hd]
  | whole hrest hfraction _ hexponent =>
    refine numberToken_eq ?_ (splitExponent_of_part hexponent)
    rw [hfraction]
    unfold splitFraction
    split
    next hcons => exact absurd hcons (hrest _)
    next => rfl

theorem startsNumber_of_read {cs : List Char} {n : Numeral} (h : Numeral.read? cs = some n) :
    ∃ c rest, (splitSign cs).2 = c :: rest ∧ startsNumber c rest = true ∧ isBlank c = false := by
  obtain ⟨-, hwhole, hparts⟩ := Numeral.parts_of_read h
  by_cases hw : n.whole = []
  · cases hparts with
    | pointed after hrest _ hdigits _ =>
      -- no digit comes before the point, so one comes after it
      obtain ⟨d, ds, rfl, hd⟩ := isDigit_head_of_takeWhile (hdigits hw)
      have hcs := List.takeWhile_append_dropWhile (p := Char.isDigit) (l := (splitSign cs).2)
      rw [← hwhole, hw, hrest, List.nil_append] at hcs
      exact ⟨'.', d :: ds, hcs.symm, by simp [startsNumber, hd], by decide⟩
    | whole _ _ hdigits _ => exact absurd hw hdigits
  · obtain ⟨d, ds, hcons, hd⟩ := isDigit_head_of_takeWhile (hwhole ▸ hw)
    exact ⟨d, ds, hcons, by simp [startsNumber, hd], not_blank_of_digit hd⟩

theorem tokens_number {cs rest : List Char} {n : Numeral} {t : Token}
    (h : Numeral.read? cs = some n) (ht : numberToken (splitSign cs).2 = (t, rest)) :
    tokens (splitSign cs).2 = (tokens rest).map (t :: ·) := by
  obtain ⟨c, cs', hcs, hc, hblank⟩ := startsNumber_of_read h
  rw [hcs] at ht ⊢
  exact tokens_read hblank (by rw [readToken, if_pos hc, ht])

section

variable {σ : Type} (context : Context σ)

/-- A number with its sign in front is its own value, but for the least integer, a double. -/
theorem eval_signed {s : NumberSign} {n : Numeral} (h : n.negative = s.isMinus) :
    (s.apply (.literal n.magnitude.value)).eval context =
      pure (if n.int? = some Int64.minValue then .float n.float else n.value) := by
  cases s with
  | absent =>
    rw [if_neg (Numeral.int?_ne_minValue h), Numeral.magnitude_eq_self h]
    simp only [NumberSign.apply, Expr.eval]
  | plus =>
    have hnumber : n.value.isNumber = true := by
      unfold Numeral.value
      cases n.int? <;> rfl
    rw [if_neg (Numeral.int?_ne_minValue h), Numeral.magnitude_eq_self h]
    simp only [NumberSign.apply, Expr.eval, pure_bind, Value.prefixed, hnumber, if_true,
      Eval.ofResult]
  | minus =>
    simp only [NumberSign.apply, Expr.eval, pure_bind, Value.prefixed, Numeral.neg_magnitude h,
      Eval.ofResult]

theorem eval_apply_throw (s : NumberSign) {e : Expr} {cause : EvalError}
    (h : e.eval context = throw cause) : (s.apply e).eval context = throw cause := by
  cases s with
  | absent => exact h
  | plus =>
    simp only [NumberSign.apply, Expr.eval, h]
    rfl
  | minus =>
    simp only [NumberSign.apply, Expr.eval, h]
    rfl

theorem eval_member_literal (v : Value) (name : String) :
    (Expr.member (.literal v) name).eval context =
      throw (.type (.noAttribute v.kind name)) := by
  simp only [Expr.eval, pure_bind]

end

theorem tokens_row {ds : List Char} (hne : ds ≠ []) (h : ∀ d ∈ ds, d.isDigit = true) :
    tokens ds = .ok [Numeral.token ⟨false, ds, none, none⟩] := by
  have hread : Numeral.read? (signedDigits false ds) = some ⟨false, ds, none, none⟩ :=
    Numeral.read?_signedDigits hne h
  have htokens := tokens_number hread (numberToken_of_read hread (by simp))
  simp only [signedDigits, Bool.false_eq_true, if_false, splitSign_digits h, tokens_nil] at htokens
  exact htokens

/-- The tokens of an exponent part alone: a name, and a sign with a number if there is a sign. -/
theorem tokens_exponent {cs : List Char} {e : Option Int} (h : exponentPart? cs = some e) :
    tokens cs = .ok [] ∨ ∃ name, tokens cs = .ok [.name name] ∨
      ∃ t op n, (t, Expr.binary op) ∈ Level.sum.operators ∧
        tokens cs = .ok [.name name, t, Numeral.token n] := by
  cases cs with
  | nil => exact .inl tokens_nil
  | cons c cs =>
    obtain ⟨he, hne, hdigits, -⟩ := exponentPart?_cons h
    have halpha : c.isAlpha = true := by rcases he with rfl | rfl <;> decide
    obtain ⟨s, hs, -⟩ := NumberSign.exists_text cs
    clear h
    generalize (splitSign cs).2 = ds at hs hne hdigits
    subst hs
    have hnumber := s.tokens_text (tokens_row hne hdigits)
    have hword : ∀ w rest ts, (∀ d ∈ w, d.isDigit = true) →
        (∀ d ∈ rest.head?, continuesName d = false) → tokens rest = .ok ts →
        tokens (c :: w ++ rest) = .ok (.name (String.ofList (c :: w)) :: ts) := by
      intro w rest ts hw hrest hts
      have hname : c :: w ∉ operatorWords := by rcases he with rfl | rfl <;> simp [operatorWords]
      rw [← wordToken_name hname]
      refine tokens_word (.inl halpha) (fun d hd => ?_) hrest hts
      simp [isNameChar, Char.isAlphanum, hw d hd]
    cases s with
    | absent =>
      have h := hword ds [] [] hdigits (by simp) tokens_nil
      rw [List.append_nil] at h
      exact .inr ⟨_, .inl h⟩
    | plus =>
      have h := hword [] _ _ (by simp) (by rintro d ⟨⟩; decide) hnumber
      exact .inr ⟨_, .inr ⟨.plus, .add, _, by simp [Level.operators], h⟩⟩
    | minus =>
      have h := hword [] _ _ (by simp) (by rintro d ⟨⟩; decide) hnumber
      exact .inr ⟨_, .inr ⟨.minus, .sub, _, by simp [Level.operators], h⟩⟩

theorem ofTokens_point (s : NumberSign) (n : Numeral) :
    Expr.ofTokens (s.tokens ++ [n.token, .dot]) = .error (.attributeName "Eof") := by
  have hsuffixes : ∀ room v, readSuffixes (room + 1) (.literal v) [.dot] =
      .error (.attributeName "Eof") := by
    intro room v
    rw [readSuffixes]
    · rfl
    · rintro _ _ ⟨⟩
  unfold Numeral.token
  cases n.int? <;> cases s <;>
    simp [Expr.ofTokens, readLevel, hsuffixes, maxNesting, bind, Except.bind, NumberSign.tokens]

theorem Derives.whole_of_unary {us : List Token} {e : Expr} (h : Derives us (.level .unary e)) :
    Derives us (.level .or e) :=
  .loosen .or (.loosen .and (.comparison (.sum (.loosen .sum (.loosen .product h)))))

/-- A numeral whose point has a digit after it is read as an expression with its value. -/
theorem evalText_numeral {w : String} {n : Numeral} (h : Numeral.read? w.toList = some n)
    (hf : n.fraction ≠ some []) {σ : Type} (context : Context σ) :
    Expr.evalText context w =
      pure (if n.int? = some Int64.minValue then .float n.float else n.value) := by
  obtain ⟨s, hs, hminus⟩ := NumberSign.exists_text w.toList
  have htokens : tokens w.toList = .ok (s.tokens ++ [n.magnitude.token]) := by
    have h1 := tokens_number h (numberToken_of_read h hf)
    rw [tokens_nil] at h1
    rw [hs]
    exact s.tokens_text h1
  have hnumber : Derives [n.magnitude.token] (.level .unary (.literal n.magnitude.value)) := by
    have hsuffixed := Derives.primary n.magnitude.derives_token .suffixesEnd
    exact .power (.suffixed hsuffixed)
  have hread := (read_of_derives htokens (s.derives hnumber).whole_of_unary).resolve_right
    (by cases s <;> simp [NumberSign.tokens, maxNesting])
  rw [Expr.evalText, hread]
  exact eval_signed context ((Numeral.parts_of_read h).1.trans hminus)

/-- A point without a digit after it is a token of its own. -/
theorem tokens_pointed {cs : List Char} {n : Numeral} (h : Numeral.read? cs = some n)
    (hf : n.fraction = some []) :
    ∃ (whole : Numeral) (after : List Char) (e : Option Int), exponentPart? after = some e ∧
      tokens (splitSign cs).2 = (tokens after).map fun ts => whole.token :: .dot :: ts := by
  obtain ⟨-, -, hparts⟩ := Numeral.parts_of_read h
  cases hparts with
  | pointed after hrest hfraction _ hexponent =>
    have hnone : after.takeWhile Char.isDigit = [] := Option.some.inj (hfraction.symm.trans hf)
    have hhead : ∀ c ∈ after.head?, c.isDigit = false := by
      intro c hc
      obtain ⟨ds, rfl⟩ := List.head?_eq_some_iff.mp hc
      by_contra hd
      simp [hd] at hnone
    have hdrop := (takeWhile_run (w := []) (p := Char.isDigit) (by simp) after hhead).2
    rw [List.nil_append] at hdrop
    rw [hdrop] at hexponent
    have hdot : readToken '.' after = .ok (.dot, after) ∧
        splitFraction ('.' :: after) = (none, '.' :: after) := by
      cases after with
      | nil => exact ⟨rfl, rfl⟩
      | cons c cs =>
        have hc := hhead c rfl
        exact ⟨readToken_point hc cs, by simp [splitFraction, hc]⟩
    have hfraction := hdot.2
    rw [← hrest] at hfraction
    have hexponent' : splitExponent ('.' :: after) = (none, '.' :: after) := by simp [splitExponent]
    rw [← hrest] at hexponent'
    have htokens := tokens_number h (numberToken_eq hfraction hexponent')
    rw [hrest] at htokens
    rw [tokens_read (by decide) hdot.1] at htokens
    let whole : Numeral := ⟨false, (splitSign cs).2.takeWhile Char.isDigit, none, none⟩
    refine ⟨whole, after, n.exponent, hexponent, ?_⟩
    rw [htokens]
    cases tokens after <;> rfl
  | whole _ hfraction _ _ =>
    rw [hfraction] at hf
    cases hf

/-- A numeral whose point has no digit after it cannot be evaluated. -/
theorem evalText_pointed {w : String} {n : Numeral} (h : Numeral.read? w.toList = some n)
    (hf : n.fraction = some []) :
    ∃ cause, ∀ {σ : Type} (context : Context σ), Expr.evalText context w = throw cause := by
  obtain ⟨s, hs, -⟩ := NumberSign.exists_text w.toList
  obtain ⟨whole, after, e, he, hpointed⟩ := tokens_pointed h hf
  have hsigned : ∀ ts, tokens after = .ok ts →
      tokens w.toList = .ok (s.tokens ++ whole.token :: .dot :: ts) := by
    intro ts hts
    rw [hts] at hpointed
    rw [hs]
    exact s.tokens_text hpointed
  have hmember : ∀ name, Derives (s.tokens ++ [whole.token, .dot, .name name])
      (.level .unary (s.apply (.member (.literal whole.value) name))) := by
    intro name
    exact s.derives (.power (.suffixed (whole.derives_token.primary (.member .suffixesEnd))))
  rcases tokens_exponent he with hts | ⟨name, hts | ⟨t, op, n', ht, hts⟩⟩
  · have hread := read_of_tokens (hsigned _ hts)
    rw [String.ofList_toList, ofTokens_point s whole] at hread
    exact ⟨.grammar (.attributeName "Eof"), fun context => by rw [Expr.evalText, hread]⟩
  · have hread := (read_of_derives (hsigned _ hts) (hmember name).whole_of_unary).resolve_right
      (by cases s <;> simp [NumberSign.tokens, maxNesting])
    refine ⟨.type (.noAttribute whole.value.kind name), fun context => ?_⟩
    rw [Expr.evalText, hread]
    exact eval_apply_throw context s (eval_member_literal context _ name)
  · have hright := Derives.primary n'.derives_token .suffixesEnd
    have hsum := Derives.concat .sum ht (.loosen .sum (.loosen .product (hmember name)))
      (.loosen .product (.power (.suffixed hright)))
    have hwhole := Derives.loosen .or (.loosen .and (.comparison (.sum hsum)))
    have htokens := hsigned _ hts
    rw [show ∀ us : List Token, us ++ [whole.token, .dot, .name name, t, n'.token] =
      us ++ [whole.token, .dot, .name name] ++ [t, n'.token] by simp] at htokens
    have hread := (read_of_derives htokens hwhole).resolve_right
      (by cases s <;> simp [NumberSign.tokens, maxNesting])
    refine ⟨.type (.noAttribute whole.value.kind name), fun context => ?_⟩
    rw [Expr.evalText, hread]
    simp only [Expr.eval, eval_apply_throw context s (eval_member_literal context _ name)]
    rfl

/--
A number is evaluated to its value exactly if its point, if it has one, has a digit after it, and it
is not the least integer. If there is no digit it fails, and the least integer becomes a double.
-/
theorem evalText_number_iff {w : String} {v : Value} (hw : trim w.toList = w.toList)
    (hv : Value.readNumber? w = some v) :
    (¬HasBarePoint w ∧ v ≠ .int Int64.minValue ↔
      ∀ {σ : Type} (context : Context σ), Expr.evalText context w = pure v) ∧
    (HasBarePoint w →
      ∃ cause, ∀ {σ : Type} (context : Context σ), Expr.evalText context w = throw cause) ∧
    (v = .int Int64.minValue →
      ∃ x, ∀ {σ : Type} (context : Context σ), Expr.evalText context w = pure (.float x)) := by
  rw [readNumber?_of_trim hw] at hv
  obtain ⟨n, hn, rfl⟩ := Option.map_eq_some_iff.mp hv
  have hpoint : HasBarePoint w ↔ n.fraction = some [] := by
    simp [HasBarePoint, hn]
  have hmin : n.value = .int Int64.minValue ↔ n.int? = some Int64.minValue := by
    unfold Numeral.value
    cases n.int? <;> simp
  have hleast : n.int? = some Int64.minValue → ∃ x, ∀ {σ : Type} (context : Context σ),
      Expr.evalText context w = pure (.float x) := by
    intro hi
    have hf : n.fraction ≠ some [] := by simp [(Numeral.int?_eq_some_iff.mp hi).1]
    exact ⟨n.float, fun context => by rw [evalText_numeral hn hf, if_pos hi]⟩
  rw [hpoint, Ne, hmin]
  refine ⟨⟨fun h σ context => ?_, fun h => ?_⟩, evalText_pointed hn, hleast⟩
  · rw [evalText_numeral hn h.1, if_neg h.2]
  · let context : Context Unit := ⟨fun _ => pure none, fun _ _ => pure .null⟩
    have hresult := congrArg (fun m => (m.run ()).1) (h context)
    refine ⟨fun hf => ?_, fun hi => ?_⟩
    · obtain ⟨cause, hcause⟩ := evalText_pointed hn hf
      rw [hcause context] at hresult
      cases hresult
    · obtain ⟨x, hx⟩ := hleast hi
      rw [hx context, hmin.mpr hi] at hresult
      cases hresult

/-- A number that ends in its point fails, and the least integer is evaluated to a double. -/
theorem evalText_bare_and_least :
    (Value.readNumber? "5." = some (.float 5.0) ∧
      ∃ cause, ∀ {σ : Type} (context : Context σ), Expr.evalText context "5." = throw cause) ∧
    Value.readNumber? "-9223372036854775808" = some (.int Int64.minValue) ∧
      ∃ x, ∀ {σ : Type} (context : Context σ),
        Expr.evalText context "-9223372036854775808" = pure (.float x) := by
  have hpoint : Value.readNumber? "5." = some (.float 5.0) := by rfl
  have hleast : Value.readNumber? "-9223372036854775808" = some (.int Int64.minValue) := by rfl
  refine ⟨⟨hpoint, ?_⟩, hleast, ?_⟩
  · exact (evalText_number_iff (by decide) hpoint).2.1 ⟨_, rfl, rfl⟩
  · exact (evalText_number_iff (by decide) hleast).2.2 rfl

end TrialLoop
