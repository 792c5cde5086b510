import TrialLoop.Number.Numeral
import TrialLoop.Text.Quoted
import TrialLoop.Value.Error

namespace TrialLoop

/-- What a backslash and the character after it stand for in a quoted text. -/
def unescaped (c : Char) : List Char :=
  if c = 'n' then ['\n']
  else if c = 't' then ['\t']
  else if c = '\\' ∨ isQuoteMark c then [c]
  else ['\\', c]

/-- The text up to the closing mark, and what follows the mark. -/
def quotedText? (mark : Char) : List Char → Option (List Char × List Char)
  | [] => none
  | '\\' :: c :: cs => (quotedText? mark cs).map fun (s, rest) => (unescaped c ++ s, rest)
  | c :: cs =>
    if c = mark then some ([], cs) else (quotedText? mark cs).map fun (s, rest) => (c :: s, rest)

/-- The point and the digits after it, if a digit follows the point. -/
def splitFraction : List Char → Option (List Char) × List Char
  | '.' :: d :: cs =>
    if d.isDigit then (some ((d :: cs).takeWhile Char.isDigit), (d :: cs).dropWhile Char.isDigit)
    else (none, '.' :: d :: cs)
  | cs => (none, cs)

/-- The exponent part, if it has a digit. -/
def splitExponent : List Char → Option Int × List Char
  | [] => (none, [])
  | c :: cs =>
    let (negative, signless) := splitSign cs
    if (c = 'e' ∨ c = 'E') ∧ signless.takeWhile Char.isDigit ≠ [] then
      (some (signed negative (exponentValue (signless.takeWhile Char.isDigit))),
        signless.dropWhile Char.isDigit)
    else (none, c :: cs)

/-- The number that a text starts with, an integer if it is one of 64 bits, and what follows. -/
def numberToken (cs : List Char) : Token × List Char :=
  let whole := cs.takeWhile Char.isDigit
  let (fraction, afterFraction) := splitFraction (cs.dropWhile Char.isDigit)
  let (exponent, rest) := splitExponent afterFraction
  let n : Numeral := ⟨false, whole, fraction, exponent⟩
  match n.int? with
  | some i => (.int i, rest)
  | none => (.float n.float, rest)

/-- The characters of a name after its first. -/
def continuesName (c : Char) : Bool :=
  isLetterOrNumber c || c == '_'

/-- A name, or the operator that it spells. -/
def wordToken (s : String) : Token :=
  if s = "and" then .and
  else if s = "or" then .or
  else if s = "not" then .not
  else .name s

/-- The longest operator or mark that starts with a character. -/
def symbolToken : Char → List Char → Token × List Char
  | '+', cs => (.plus, cs)
  | '-', cs => (.minus, cs)
  | '*', '*' :: cs => (.starStar, cs)
  | '*', cs => (.star, cs)
  | '/', '/' :: cs => (.slashSlash, cs)
  | '/', cs => (.slash, cs)
  | '%', cs => (.percent, cs)
  | '=', '=' :: cs => (.eq, cs)
  | '!', '=' :: cs => (.ne, cs)
  | '!', cs => (.not, cs)
  | '<', '=' :: cs => (.le, cs)
  | '<', '>' :: cs => (.ne, cs)
  | '<', cs => (.lt, cs)
  | '>', '=' :: cs => (.ge, cs)
  | '>', cs => (.gt, cs)
  | '&', '&' :: cs => (.and, cs)
  | '|', '|' :: cs => (.or, cs)
  | '.', cs => (.dot, cs)
  | ',', cs => (.comma, cs)
  | '(', cs => (.openParen, cs)
  | ')', cs => (.closeParen, cs)
  | '[', cs => (.openBracket, cs)
  | ']', cs => (.closeBracket, cs)
  | c, cs => (.unknown c, cs)

/-- A digit or a point and a digit come first. -/
def startsNumber (c : Char) (cs : List Char) : Bool :=
  c.isDigit || (c == '.' && (cs.head?.any Char.isDigit))

/-- The token that starts with a character, and what follows it. -/
def readToken (c : Char) (cs : List Char) : Except GrammarError (Token × List Char) :=
  if startsNumber c cs then .ok (numberToken (c :: cs))
  else if isQuoteMark c then
    match quotedText? c cs with
    | some (s, rest) => .ok (.str (String.ofList s), rest)
    | none => .error .unterminatedText
  else if isLetter c || c == '_' then
    .ok (wordToken (String.ofList (c :: cs.takeWhile continuesName)), cs.dropWhile continuesName)
  else .ok (symbolToken c cs)

theorem dropWhile_length_le (p : Char → Bool) (cs : List Char) :
    (cs.dropWhile p).length ≤ cs.length :=
  (List.dropWhile_sublist p).length_le

theorem quotedText?_length {mark : Char} {cs s rest : List Char}
    (h : quotedText? mark cs = some (s, rest)) : rest.length < cs.length := by
  fun_induction quotedText? mark cs generalizing s with
  | case1 => simp at h
  | case2 c cs ih =>
    obtain ⟨⟨t, r⟩, ht, he⟩ := Option.map_eq_some_iff.mp h
    cases he
    have := ih ht
    simp only [List.length_cons]
    omega
  | case3 => simp_all
  | case4 c cs _ _ ih =>
    obtain ⟨⟨t, r⟩, ht, he⟩ := Option.map_eq_some_iff.mp h
    cases he
    have := ih ht
    simp only [List.length_cons]
    omega

theorem splitSign_length (cs : List Char) : (splitSign cs).2.length ≤ cs.length := by
  unfold splitSign
  split <;> simp

theorem splitFraction_length (cs : List Char) : (splitFraction cs).2.length ≤ cs.length := by
  unfold splitFraction
  split
  next d ds =>
    split
    · have := dropWhile_length_le Char.isDigit (d :: ds)
      simp only [List.length_cons] at *
      omega
    · simp
  next => simp

theorem splitExponent_length (cs : List Char) : (splitExponent cs).2.length ≤ cs.length := by
  cases cs with
  | nil => simp [splitExponent]
  | cons c cs =>
    have hs := splitSign_length cs
    have hd := dropWhile_length_le Char.isDigit (splitSign cs).2
    simp only [splitExponent]
    split
    · simp only [List.length_cons]; omega
    · simp

theorem numberToken_length {c : Char} {cs : List Char} (h : startsNumber c cs = true) :
    (numberToken (c :: cs)).2.length ≤ cs.length := by
  have hf : (splitFraction ((c :: cs).dropWhile Char.isDigit)).2.length ≤ cs.length := by
    by_cases hc : c.isDigit = true
    · have h1 := splitFraction_length ((c :: cs).dropWhile Char.isDigit)
      have h2 := dropWhile_length_le Char.isDigit cs
      simp only [List.dropWhile_cons_of_pos hc] at *
      omega
    · have hp : c = '.' := by
        simpa [startsNumber, hc] using And.left (by simpa [startsNumber, hc] using h)
      subst hp
      cases cs with
      | nil => simp [startsNumber] at h
      | cons d ds =>
        have hd : d.isDigit = true := by simpa [startsNumber, hc] using h
        have h2 := dropWhile_length_le Char.isDigit ds
        simp [splitFraction, hd]
        omega
  have he := splitExponent_length (splitFraction ((c :: cs).dropWhile Char.isDigit)).2
  simp only [numberToken]
  split <;> simp only <;> omega

theorem symbolToken_length (c : Char) (cs : List Char) :
    (symbolToken c cs).2.length ≤ cs.length := by
  unfold symbolToken
  split <;> simp

theorem readToken_length {c : Char} {cs : List Char} {t : Token} {rest : List Char}
    (h : readToken c cs = .ok (t, rest)) : rest.length ≤ cs.length := by
  unfold readToken at h
  split at h
  next hn =>
    have := numberToken_length hn
    rw [Except.ok.inj h] at this
    exact this
  next =>
    split at h
    next =>
      split at h
      next s r hq =>
        cases Except.ok.inj h
        exact Nat.le_of_lt (quotedText?_length hq)
      next => cases h
    next =>
      split at h
      next =>
        cases Except.ok.inj h
        exact dropWhile_length_le _ _
      next =>
        have := symbolToken_length c cs
        rw [Except.ok.inj h] at this
        exact this

/-- The tokens of a text, which blanks may separate. -/
def tokens (cs : List Char) : Except GrammarError (List Token) :=
  match _blanks : dropBlanks cs with
  | [] => .ok []
  | c :: after =>
    match _token : readToken c after with
    | .error e => .error e
    | .ok (t, rest) => (tokens rest).map (t :: ·)
  termination_by cs.length
  decreasing_by
    have h1 := readToken_length _token
    have h2 := dropWhile_length_le isBlank cs
    rw [show cs.dropWhile isBlank = c :: after from _blanks] at h2
    simp only [List.length_cons] at h2
    omega

end TrialLoop
