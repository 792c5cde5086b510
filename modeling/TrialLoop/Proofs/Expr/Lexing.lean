import TrialLoop.Expr.Lexer
import TrialLoop.Proofs.Text.Blank
import TrialLoop.Proofs.Text.Quoted

namespace TrialLoop

theorem tokens_nil : tokens [] = .ok [] := by
  rw [tokens.eq_def]
  rfl

/-- The token that a character starts, if there is one, is in front of those of the rest. -/
theorem tokens_cons {c : Char} (hc : isBlank c = false) (cs : List Char) :
    tokens (c :: cs) = (do
      let (t, rest) ← readToken c cs
      (tokens rest).map (t :: ·)) := by
  have hd : dropBlanks (c :: cs) = c :: cs := List.dropWhile_cons_of_neg (by simp [hc])
  rw [tokens.eq_def]
  split
  next he =>
    rw [hd] at he
    cases he
  next d ds he =>
    rw [hd] at he
    cases he
    split
    next h => rw [h]; rfl
    next h => rw [h]; rfl

theorem tokens_read {c : Char} {cs rest : List Char} {t : Token} (hc : isBlank c = false)
    (h : readToken c cs = .ok (t, rest)) : tokens (c :: cs) = (tokens rest).map (t :: ·) := by
  rw [tokens_cons hc, h]
  rfl

theorem tokens_before {c : Char} {cs rest : List Char} {t : Token} {ts : List Token}
    (hc : isBlank c = false) (h : readToken c cs = .ok (t, rest)) (hr : tokens rest = .ok ts) :
    tokens (c :: cs) = .ok (t :: ts) := by
  rw [tokens_read hc h, hr]
  rfl

theorem tokens_space (cs : List Char) : tokens (' ' :: cs) = tokens cs := by
  have hd : dropBlanks (' ' :: cs) = dropBlanks cs := List.dropWhile_cons_of_pos (by decide)
  rw [tokens.eq_def, tokens.eq_def cs]
  generalize dropBlanks (' ' :: cs) = x at hd
  generalize dropBlanks cs = y at hd
  subst hd
  rfl

theorem quotedText?_escapeQuotes (s rest : List Char) :
    quotedText? '"' (escapeQuotes s ++ '"' :: rest) = some (s, rest) := by
  induction s with
  | nil => rfl
  | cons c cs ih =>
    by_cases hc : c = '\\' ∨ c = '"'
    · have hu : unescaped c = [c] := by
        rcases hc with rfl | rfl <;> rfl
      rw [escapeQuotes_cons_special hc, List.cons_append, List.cons_append, quotedText?, ih,
        Option.map_some, hu]
      rfl
    · have hne : c ≠ '\\' ∧ c ≠ '"' := not_or.mp hc
      rw [escapeQuotes_cons_plain hc, List.cons_append, quotedText?, if_neg hne.2, ih]
      · rfl
      · intro _ _ he
        exact absurd he hne.1

theorem readToken_quoted {mark : Char} {cs s rest : List Char} (hm : isQuoteMark mark = true)
    (h : quotedText? mark cs = some (s, rest)) :
    readToken mark cs = .ok (.str (String.ofList s), rest) := by
  have hn : startsNumber mark cs = false := by
    simp only [isQuoteMark, Bool.or_eq_true, beq_iff_eq] at hm
    rcases hm with rfl | rfl <;> rfl
  simp [readToken, hn, hm, h]

theorem tokens_quote {s rest : List Char} {ts : List Token} (h : tokens rest = .ok ts) :
    tokens ('"' :: escapeQuotes s ++ ['"'] ++ rest) = .ok (.str (String.ofList s) :: ts) := by
  rw [List.append_assoc, List.singleton_append]
  exact tokens_before (by decide) (readToken_quoted (by decide) (quotedText?_escapeQuotes s rest)) h

theorem continuesName_of_nameChar {c : Char} (h : isNameChar c = true) :
    continuesName c = true := by
  rcases Bool.or_eq_true_iff.mp h with h | h
  · simp [continuesName, isLetterOrNumber, h]
  · simp [continuesName, h]

/-- What begins a name begins neither a number nor a quoted text. -/
theorem name_begins {c : Char} (h : (isLetter c || c == '_') = true) :
    isBlank c = false ∧ c.isDigit = false ∧ isQuoteMark c = false ∧ c ≠ '.' := by
  have hne : ∀ d : Char, (isLetter d || d == '_') = false → c ≠ d := by
    rintro d hd rfl
    rw [h] at hd
    cases hd
  have hquote : isQuoteMark c = false := by
    simp [isQuoteMark, hne '"' (by decide), hne '\'' (by decide)]
  rcases Bool.or_eq_true_iff.mp h with hletter | hline
  · refine ⟨not_blank_of_letter hletter, ?_, hquote, hne '.' (by decide)⟩
    rcases Bool.or_eq_true_iff.mp hletter with hascii | hbeyond
    · exact not_digit_of_alpha hascii
    · have hn : 128 ≤ c.toNat := of_decide_eq_true (Bool.and_eq_true_iff.mp hbeyond).1
      rw [Bool.eq_false_iff, Ne, Char.isDigit_iff_toNat]
      simp only [Char.reduceToNat]
      omega
  · obtain rfl := beq_iff_eq.mp hline
    decide

/-- A word that a name may be is read to its end. -/
theorem readToken_name {c : Char} {w rest : List Char} (hc : (isLetter c || c == '_') = true)
    (hw : ∀ d ∈ w, continuesName d = true) (hr : ∀ d ∈ rest.head?, continuesName d = false) :
    readToken c (w ++ rest) = .ok (wordToken (String.ofList (c :: w)), rest) := by
  obtain ⟨-, hdigit, hquote, hpoint⟩ := name_begins hc
  have hnumber : startsNumber c (w ++ rest) = false := by
    simp [startsNumber, hdigit, hpoint]
  obtain ⟨htake, hdrop⟩ := takeWhile_run hw rest hr
  simp only [readToken, hnumber, hquote, hc, htake, hdrop, Bool.false_eq_true, if_false,
    if_true]

theorem letter_begins {c : Char} (h : c.isAlpha = true ∨ c = '_') :
    (isLetter c || c == '_') = true := by
  rcases h with h | rfl
  · simp [isLetter, h]
  · decide

/-- What begins a word begins neither a number nor a quoted text. -/
theorem word_begins {c : Char} (h : c.isAlpha = true ∨ c = '_') :
    isBlank c = false ∧ c.isDigit = false ∧ isQuoteMark c = false ∧ c ≠ '.' :=
  name_begins (letter_begins h)

/-- A word of name characters is a name or an operator. -/
theorem readToken_word {c : Char} {w rest : List Char} (hc : c.isAlpha = true ∨ c = '_')
    (hw : ∀ d ∈ w, isNameChar d = true) (hr : ∀ d ∈ rest.head?, continuesName d = false) :
    readToken c (w ++ rest) = .ok (wordToken (String.ofList (c :: w)), rest) :=
  readToken_name (letter_begins hc) (fun d hd => continuesName_of_nameChar (hw d hd)) hr

theorem tokens_word {c : Char} {w rest : List Char} {ts : List Token}
    (hc : c.isAlpha = true ∨ c = '_') (hw : ∀ d ∈ w, isNameChar d = true)
    (hr : ∀ d ∈ rest.head?, continuesName d = false) (h : tokens rest = .ok ts) :
    tokens (c :: w ++ rest) = .ok (wordToken (String.ofList (c :: w)) :: ts) :=
  tokens_before (word_begins hc).1 (readToken_word hc hw hr) h

theorem readToken_point {c : Char} (hc : c.isDigit = false) (cs : List Char) :
    readToken '.' (c :: cs) = .ok (.dot, c :: cs) := by
  have hn : startsNumber '.' (c :: cs) = false := by simp [startsNumber, hc]
  rw [readToken, hn]
  rfl

theorem tokens_point {c : Char} {cs : List Char} {ts : List Token} (hc : c.isDigit = false)
    (h : tokens (c :: cs) = .ok ts) : tokens ('.' :: c :: cs) = .ok (.dot :: ts) :=
  tokens_before (by decide) (readToken_point hc cs) h

end TrialLoop
