import TrialLoop.Proofs.Condition.Source
import TrialLoop.Proofs.Expr.Lexing

namespace TrialLoop

theorem quotedText?_text {mark : Char} (hm : mark ≠ '\\') (cs : List (QuotedChar mark))
    (rest : List Char) :
    quotedText? mark (cs.flatMap QuotedChar.text ++ mark :: rest) =
      some (cs.flatMap QuotedChar.value, rest) := by
  induction cs with
  | nil =>
    rw [List.flatMap_nil, List.nil_append, quotedText?, if_pos rfl]
    · rfl
    · intro _ _ he
      exact absurd he hm
  | cons q cs ih =>
    cases q with
    | plain c hc =>
      rw [List.flatMap_cons, QuotedChar.text, List.singleton_append, List.cons_append, quotedText?,
        if_neg hc.2, ih]
      · rfl
      · intro _ _ he
        exact absurd he hc.1
    | escape c =>
      rw [List.flatMap_cons, QuotedChar.text, List.cons_append, List.singleton_append,
        List.cons_append, List.cons_append, quotedText?, ih]
      rfl

/-- A row of digits before the end or a space is an integer if it fits into 64 bits. -/
theorem tokens_digits {ds rest : List Char} {ts : List Token} (hne : ds ≠ [])
    (h : ∀ d ∈ ds, d.isDigit = true) (hv : digitsValue ds < 2 ^ 63) (hr : Ends rest)
    (ht : tokens rest = .ok ts) :
    tokens (ds ++ rest) = .ok (.int (Operand.magnitude ds) :: ts) := by
  obtain ⟨d, ds, rfl⟩ := List.exists_cons_of_ne_nil hne
  obtain ⟨htake, hdrop⟩ := takeWhile_run h rest (hr.stop (by decide))
  have hfraction : splitFraction rest = (none, rest) := by
    cases rest with
    | nil => rfl
    | cons c cs =>
      obtain rfl := hr c rfl
      rfl
  have hexponent : splitExponent rest = (none, rest) := by
    cases rest with
    | nil => rfl
    | cons c cs =>
      obtain rfl := hr c rfl
      simp [splitExponent]
  have hword : signedWord? false (d :: ds) = some (Operand.magnitude (d :: ds)) := by
    rw [signedWord?, wordValue?_eq_some h (by omega), Option.bind_some, signed, if_neg (by decide),
      fit?_eq_some (by omega) (by omega), Operand.magnitude]
  rw [List.cons_append] at htake hdrop ⊢
  refine tokens_before (not_blank_of_digit (h d (by simp))) ?_ ht
  have hn : startsNumber d (ds ++ rest) = true := by simp [startsNumber, h d]
  rw [readToken, if_pos hn, numberToken, htake, hdrop]
  simp only [hfraction, hexponent, Numeral.int?, hword]

namespace Operand

def tokens : Operand → List Token
  | name n _ => [.name "var", .dot, .name (String.ofList n)]
  | integer false ds _ => [.int (magnitude ds)]
  | integer true ds _ => [.minus, .int (magnitude ds)]
  | word w _ => [.str (String.ofList w)]
  | quoted _ _ cs => [.str (String.ofList (cs.flatMap QuotedChar.value))]
  | bracketed s _ => [.str (String.ofList ('[' :: s ++ [']']))]

end Operand

theorem wordToken_name {n : List Char} (h : n ∉ operatorWords) :
    wordToken (String.ofList n) = .name (String.ofList n) := by
  have hne : ∀ s : String, s.toList ∈ operatorWords → String.ofList n ≠ s := by
    rintro s hs rfl
    rw [String.toList_ofList] at hs
    exact h hs
  rw [wordToken, if_neg (hne _ (by decide)), if_neg (hne _ (by decide)), if_neg (hne _ (by decide))]

theorem tokens_operand (o : Operand) {rest : List Char} {ts : List Token} (hr : Ends rest)
    (h : tokens rest = .ok ts) : tokens (o.source ++ rest) = .ok (o.tokens ++ ts) := by
  cases o with
  | name n hn =>
    obtain ⟨⟨c, cs, rfl, hc, hcs⟩, hop⟩ := hn
    have hname := tokens_word hc hcs (hr.stop (by decide)) h
    rw [wordToken_name hop] at hname
    have hstop : ∀ d ∈ ('.' :: c :: (cs ++ rest)).head?, continuesName d = false := by
      rintro d ⟨⟩
      decide
    exact tokens_word (c := 'v') (w := ['a', 'r']) (.inl (by decide))
      (forall_mem_of_all (by decide)) hstop (tokens_point (word_begins hc).2.1 hname)
  | integer negative ds hd =>
    have hds := tokens_digits hd.1 hd.2.1 hd.2.2 hr h
    cases negative with
    | false => exact hds
    | true => exact tokens_before (by decide) (by rfl) hds
  | word w hw =>
    have he : escapeQuotes w = w := by
      refine escapeQuotes_eq_self fun c hc => ⟨(hw.plain c hc).2, ?_⟩
      rintro rfl
      exact absurd (hw.plain _ hc).1 (by decide)
    have hq := tokens_quote (s := w) h
    rw [he] at hq
    exact hq
  | quoted mark hm cs =>
    have hq := readToken_quoted hm (quotedText?_text (mark_plain hm).2 cs rest)
    rw [Operand.source, List.append_assoc, List.singleton_append]
    exact tokens_before (mark_plain hm).1 hq h
  | bracketed s _ => exact tokens_quote h

def Comparison.token : Comparison → Token
  | eq => .eq
  | ne => .ne
  | lt => .lt
  | le => .le
  | gt => .gt
  | ge => .ge

theorem tokens_comparison (op : Comparison) {cs : List Char} {ts : List Token}
    (h : tokens (' ' :: cs) = .ok ts) :
    tokens (op.symbol.toList ++ ' ' :: cs) = .ok (op.token :: ts) := by
  cases op <;> exact tokens_before (by decide) (by rfl) h

def Part.tokens : Part → List Token
  | comparison left sign right => left.tokens ++ sign.comparison.token :: right.tokens
  | not => [.not]
  | and => [.and]
  | or => [.or]
  | openParen => [.openParen]
  | closeParen => [.closeParen]

theorem tokens_part (p : Part) {rest : List Char} {ts : List Token} (hr : Ends rest)
    (h : tokens rest = .ok ts) : tokens (p.source ++ rest) = .ok (p.tokens ++ ts) := by
  have hstop : ∀ d ∈ rest.head?, continuesName d = false := hr.stop (by decide)
  cases p with
  | comparison left sign right =>
    have hright := tokens_operand right hr h
    rw [← tokens_space] at hright
    have hsign := tokens_comparison sign.comparison hright
    rw [← tokens_space] at hsign
    have hleft := tokens_operand left (ends_space _) hsign
    simpa only [Part.source, Part.tokens, List.append_assoc, List.cons_append] using hleft
  | not =>
    exact tokens_word (c := 'n') (w := ['o', 't']) (.inl (by decide))
      (forall_mem_of_all (by decide)) hstop h
  | and =>
    exact tokens_word (c := 'a') (w := ['n', 'd']) (.inl (by decide))
      (forall_mem_of_all (by decide)) hstop h
  | or =>
    exact tokens_word (c := 'o') (w := ['r']) (.inl (by decide)) (forall_mem_of_all (by decide))
      hstop h
  | openParen => exact tokens_before (by decide) (by rfl) h
  | closeParen => exact tokens_before (by decide) (by rfl) h

theorem tokens_spaced (p : Part) (ps : List Part) :
    tokens (spaced ((p :: ps).map Part.source)) = .ok ((p :: ps).flatMap Part.tokens) := by
  induction ps generalizing p with
  | nil =>
    have h := tokens_part p ends_nil tokens_nil
    rw [List.append_nil] at h
    rw [List.map_singleton, spaced_single, h]
    rfl
  | cons q qs ih =>
    have hq := ih q
    rw [← tokens_space] at hq
    rw [List.map_cons, List.map_cons, spaced_cons]
    exact tokens_part p (ends_space _) hq

theorem tokens_source {l : Level} (c : Written l) :
    tokens c.source = .ok (c.parts.flatMap Part.tokens) := by
  obtain ⟨p, ps, hp⟩ := parts_ne_nil c
  rw [Written.source, hp]
  exact tokens_spaced p ps

end TrialLoop
