import TrialLoop.Proofs.Condition.Tokens
import TrialLoop.Proofs.Except
import TrialLoop.Proofs.Number.IntText
import TrialLoop.Proofs.Number.Numeral

namespace TrialLoop

/-- What an expression can use as a name: the words, except for those that are operators. -/
structure IsExprName (s : String) : Prop where
  spelled : ∃ c cs, s.toList = c :: cs ∧ (isLetter c = true ∨ c = '_') ∧
    ∀ d ∈ cs, isLetterOrNumber d = true ∨ d = '_'
  not_operator : s ≠ "and" ∧ s ≠ "or" ∧ s ≠ "not"

namespace Token

/-- A text of each token; the operators that have a sign and a word have the word. -/
def text : Token → String
  | int n => intText n.toInt
  | float x => floatText .token x
  | str s => quote s
  | name s => s
  | plus => "+"
  | minus => "-"
  | star => "*"
  | starStar => "**"
  | slash => "/"
  | slashSlash => "//"
  | percent => "%"
  | eq => "=="
  | ne => "!="
  | lt => "<"
  | le => "<="
  | gt => ">"
  | ge => ">="
  | and => "and"
  | or => "or"
  | not => "not"
  | dot => "."
  | comma => ","
  | openParen => "("
  | closeParen => ")"
  | openBracket => "["
  | closeBracket => "]"
  | unknown c => c.toString

/--
The tokens that a text spells exactly. A minus sign is a token of its own, so that an integer has
none.
-/
def IsSpelled : Token → Prop
  | int n => 0 ≤ n.toInt
  | name s => IsExprName s
  | float _ | unknown _ => False
  | _ => True

/-- The texts of some tokens, with a space between each two. -/
def texts (ts : List Token) : String :=
  " ".intercalate (ts.map text)

theorem toList_texts (ts : List Token) :
    (texts ts).toList = spaced (ts.map fun t => t.text.toList) := by
  rw [texts, String.toList_intercalate, List.map_map]
  rfl

end Token

theorem IsExprName.tokens {s : String} (h : IsExprName s) {rest : List Char} {ts : List Token}
    (hr : Ends rest) (ht : tokens rest = .ok ts) :
    tokens (s.toList ++ rest) = .ok (.name s :: ts) := by
  obtain ⟨c, cs, hs, hc, hcs⟩ := h.spelled
  have hfirst : (isLetter c || c == '_') = true := by simpa using hc
  have hothers : ∀ d ∈ cs, continuesName d = true := fun d hd => by
    simpa [continuesName] using hcs d hd
  have hword : wordToken (String.ofList (c :: cs)) = .name s := by
    obtain ⟨hand, hor, hnot⟩ := h.not_operator
    rw [← hs, String.ofList_toList, wordToken, if_neg hand, if_neg hor, if_neg hnot]
  rw [hs, ← hword]
  have hread := readToken_name hfirst hothers (hr.stop (by decide))
  exact tokens_before (name_begins hfirst).1 hread ht

theorem tokens_int {n : Int64} (h : 0 ≤ n.toInt) {rest : List Char} {ts : List Token}
    (hr : Ends rest) (ht : tokens rest = .ok ts) :
    tokens ((intText n.toInt).toList ++ rest) = .ok (.int n :: ts) := by
  obtain ⟨k, hk⟩ := Int.eq_ofNat_of_zero_le h
  have hvalue : digitsValue (digits k) < 2 ^ 63 := by
    have hlt := n.toInt_lt
    rw [digitsValue_digits]
    omega
  have hn : Operand.magnitude (digits k) = n := by
    rw [Operand.magnitude, digitsValue_digits, ← hk, Int64.ofInt_toInt]
  have hall : ∀ d ∈ digits k, d.isDigit = true := fun d hd => isDigit_of_mem_digits hd
  have hdigits := tokens_digits (digits_ne_nil k) hall hvalue hr ht
  rw [hn] at hdigits
  rw [hk, intText_natCast, String.toList_ofList]
  exact hdigits

/-- A token is read back before the end or a space, whatever follows. -/
theorem tokens_text {t : Token} (h : t.IsSpelled) {rest : List Char} {ts : List Token}
    (hr : Ends rest) (ht : tokens rest = .ok ts) :
    tokens (t.text.toList ++ rest) = .ok (t :: ts) := by
  have hword : ∀ d ∈ rest.head?, continuesName d = false := hr.stop (by decide)
  cases t with
  | int n => exact tokens_int h hr ht
  | float | unknown => exact absurd h id
  | str s =>
    have hs := tokens_quote (s := s.toList) ht
    rw [String.ofList_toList] at hs
    rw [Token.text, toList_quote]
    exact hs
  | name s => exact h.tokens hr ht
  | and | or | not =>
    refine tokens_before (by decide) (readToken_name (by decide) ?_ hword) ht
    exact forall_mem_of_all (by decide)
  | _ =>
    -- An operator goes on with no space, so that its text is read as a whole.
    cases rest with
    | nil => exact tokens_before (by decide) (by rfl) ht
    | cons c cs =>
      obtain rfl := hr c rfl
      exact tokens_before (by decide) (by rfl) ht

theorem tokens_spacedTexts {ts : List Token} (h : ∀ t ∈ ts, t.IsSpelled) :
    tokens (spaced (ts.map fun t => t.text.toList)) = .ok ts := by
  induction ts with
  | nil => exact tokens_nil
  | cons t ts ih =>
    obtain ⟨ht, hts⟩ := List.forall_mem_cons.mp h
    cases ts with
    | nil =>
      have hlast := tokens_text ht ends_nil tokens_nil
      rw [List.append_nil] at hlast
      rw [List.map_singleton, spaced_single]
      exact hlast
    | cons u us =>
      have hrest := ih hts
      rw [← tokens_space] at hrest
      rw [List.map_cons, List.map_cons, spaced_cons]
      exact tokens_text ht (ends_space _) hrest

theorem isSpelled_wordToken {c : Char} {w : List Char} (hc : (isLetter c || c == '_') = true)
    (hw : ∀ d ∈ w, continuesName d = true) : (wordToken (String.ofList (c :: w))).IsSpelled := by
  unfold wordToken
  split
  next => trivial
  next hand =>
    split
    next => trivial
    next hor =>
      split
      next => trivial
      next hnot =>
        refine ⟨⟨c, w, String.toList_ofList, by simpa using hc, fun d hd => ?_⟩, hand, hor, hnot⟩
        simpa [continuesName] using hw d hd

theorem isSpelled_numberToken {cs : List Char} (h : ∀ x, (numberToken cs).1 ≠ .float x) :
    (numberToken cs).1.IsSpelled := by
  unfold numberToken at h ⊢
  simp only at h ⊢
  split
  next i hi =>
    obtain ⟨-, -, m, -, hm⟩ := Numeral.int?_eq_some_iff.mp hi
    rw [Token.IsSpelled, hm]
    exact Int.natCast_nonneg m
  next hnone =>
    rw [hnone] at h
    exact absurd rfl (h _)

theorem isSpelled_symbolToken {c : Char} {cs : List Char}
    (h : ∀ d, (symbolToken c cs).1 ≠ .unknown d) : (symbolToken c cs).1.IsSpelled := by
  revert h
  fun_cases symbolToken c cs with
  | case24 => exact fun h => absurd rfl (h _)
  | _ => exact fun _ => trivial

theorem isSpelled_of_readToken {c : Char} {cs rest : List Char} {t : Token}
    (h : readToken c cs = .ok (t, rest)) (hfloat : ∀ x, t ≠ .float x)
    (hunknown : ∀ d, t ≠ .unknown d) : t.IsSpelled := by
  unfold readToken at h
  split at h
  next =>
    obtain rfl : (numberToken (c :: cs)).1 = t := congrArg Prod.fst (Except.ok.inj h)
    exact isSpelled_numberToken hfloat
  next =>
    split at h
    next =>
      split at h
      next =>
        cases h
        trivial
      next => cases h
    next =>
      split at h
      next hc =>
        cases h
        exact isSpelled_wordToken hc (List.all_eq_true.mp List.all_takeWhile)
      next =>
        obtain rfl : (symbolToken c cs).1 = t := congrArg Prod.fst (Except.ok.inj h)
        exact isSpelled_symbolToken hunknown

/-- What is read from any text can be printed, floating-point numbers and stray characters aside. -/
theorem isSpelled_of_tokens {cs : List Char} {ts : List Token} (h : tokens cs = .ok ts) :
    ∀ t ∈ ts, (∀ x, t ≠ .float x) → (∀ d, t ≠ .unknown d) → t.IsSpelled := by
  fun_induction tokens cs generalizing ts with
  | case1 =>
    cases h
    simp
  | case2 => cases h
  | case3 cs c after _ u rest hu ih =>
    obtain ⟨us, hus, rfl⟩ := map_eq_ok h
    intro t ht
    rcases List.mem_cons.mp ht with rfl | ht
    · exact isSpelled_of_readToken hu
    · exact ih hus t ht

/-- The tokens that a text spells are read back from their texts, whichever stand side by side. -/
theorem tokens_texts {ts : List Token} (h : ∀ t ∈ ts, t.IsSpelled) :
    tokens (Token.texts ts).toList = .ok ts := by
  rw [Token.toList_texts]
  exact tokens_spacedTexts h

theorem tokens_texts_neighbours :
    tokens "1 . é_2 ** * \"\\\\\\\"\" not < ==".toList =
      .ok [.int 1, .dot, .name "é_2", .starStar, .star, .str "\\\"", .not, .lt, .eq] := by
  have hname : IsExprName "é_2" :=
    ⟨⟨'é', ['_', '2'], rfl, .inl (by decide), forall_mem_of_all (by decide)⟩, by decide⟩
  have hspelled : ∀ t ∈ [Token.int 1, .dot, .name "é_2", .starStar, .star, .str "\\\"", .not, .lt,
      .eq], t.IsSpelled := by
    simp [Token.IsSpelled, hname]
  exact tokens_texts hspelled

/-- No other tokens of these kinds are read back. -/
theorem tokens_texts_iff {ts : List Token} (hfloat : ∀ t ∈ ts, ∀ x, t ≠ .float x)
    (hunknown : ∀ t ∈ ts, ∀ c, t ≠ .unknown c) :
    tokens (Token.texts ts).toList = .ok ts ↔ ∀ t ∈ ts, t.IsSpelled := by
  constructor
  · exact fun h t ht => isSpelled_of_tokens h t ht (hfloat t ht) (hunknown t ht)
  · intro h
    rw [Token.toList_texts]
    exact tokens_spacedTexts h

end TrialLoop
