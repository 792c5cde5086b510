import TrialLoop.Proofs.Condition.Written
import TrialLoop.Proofs.Text.Quoted
import TrialLoop.Proofs.Text.Unescape

namespace TrialLoop

/-- The text ends or a space comes first. -/
def Ends (cs : List Char) : Prop :=
  ∀ c ∈ cs.head?, c = ' '

theorem ends_nil : Ends [] := by
  intro c hc
  cases hc

theorem ends_space (cs : List Char) : Ends (' ' :: cs) := by
  intro c hc
  cases hc
  rfl

theorem Ends.stop {cs : List Char} (h : Ends cs) {p : Char → Bool} (hp : p ' ' = false) :
    ∀ c ∈ cs.head?, p c = false := by
  intro c hc
  rw [h c hc, hp]

theorem readComparison_eq_none {c : Char} (h : endsWord c = false) (cs : List Char) :
    readComparison (c :: cs) = none := by
  unfold readComparison
  split <;> first | rfl | (next he => cases he; exact absurd h (by decide))

theorem readPiece_word {c : Char} {w rest : List Char} (h : ∀ d ∈ c :: w, endsWord d = false)
    (hr : Ends rest) : readPiece c (w ++ rest) = some ⟨[.word (c :: w)], rest, true⟩ := by
  have hc := h c (by simp)
  have hne : ∀ d, endsWord d = true → c ≠ d := by
    rintro d hd rfl
    rw [hc] at hd
    cases hd
  have hb : isBlank c = false ∧ isQuoteMark c = false := by
    simp only [endsWord, Bool.or_eq_false_iff] at hc
    exact hc.1
  have hall : ∀ d ∈ w, (!endsWord d) = true := fun d hd => by simp [h d (by simp [hd])]
  obtain ⟨htake, -⟩ := takeWhile_run hall rest (hr.stop (by decide))
  simp only [readPiece, hb.1, hb.2, hne '[' (by decide), hne ']' (by decide), hne '(' (by decide),
    hne ')' (by decide), hne '!' (by decide), readComparison_eq_none hc, htake, if_false,
    Bool.false_eq_true, List.drop_left]

theorem quotedRun_text {mark : Char} (hm : mark ≠ '\\') (cs : List (QuotedChar mark))
    (rest : List Char) :
    quotedRun mark (cs.flatMap QuotedChar.text ++ mark :: rest) =
      ⟨cs.flatMap QuotedChar.text ++ [mark], rest, true⟩ := by
  induction cs with
  | nil =>
    rw [List.flatMap_nil, List.nil_append, quotedRun, if_pos rfl]
    · rfl
    · exact hm
  | cons q cs ih =>
    cases q with
    | plain c hc =>
      rw [List.flatMap_cons, QuotedChar.text, List.singleton_append, List.cons_append, quotedRun,
        if_neg hc.2, ih]
      · rfl
      · exact hc.1
    | escape c =>
      rw [List.flatMap_cons, QuotedChar.text, List.cons_append, List.singleton_append,
        List.cons_append, List.cons_append, quotedRun, ih]
      rfl

theorem quotedRun_escapeQuotes (s rest : List Char) :
    quotedRun '"' (escapeQuotes s ++ '"' :: rest) = ⟨escapeQuotes s ++ ['"'], rest, true⟩ := by
  induction s with
  | nil => rfl
  | cons c cs ih =>
    by_cases hc : c = '\\' ∨ c = '"'
    · rw [escapeQuotes_cons_special hc, List.cons_append, List.cons_append, quotedRun, ih]
      rfl
    · have hne : c ≠ '\\' ∧ c ≠ '"' := not_or.mp hc
      rw [escapeQuotes_cons_plain hc, List.cons_append, quotedRun, if_neg hne.2, ih]
      · rfl
      · exact hne.1

theorem bracket_split {s : List Char} (h : ']' ∉ s) (rest : List Char) :
    (s ++ ']' :: rest).takeWhile (· != ']') = s ∧
      (s ++ ']' :: rest).dropWhile (· != ']') = ']' :: rest := by
  have hall : ∀ c ∈ s, (c != ']') = true := by
    rintro c hc
    have hne : c ≠ ']' := by
      rintro rfl
      exact h hc
    simpa using hne
  rw [List.takeWhile_append_of_pos hall, List.dropWhile_append_of_pos hall]
  simp

theorem readPiece_bracket {s : List Char} (h : ']' ∉ s) (rest : List Char) :
    readPiece '[' (s ++ ']' :: rest) = some ⟨[bracketPiece s], rest, true⟩ := by
  obtain ⟨htake, hdrop⟩ := bracket_split h rest
  simp only [readPiece, htake, hdrop]
  rfl

theorem pieces_cons {c : Char} {cs : List Char} {r : ReadPiece} (h : readPiece c cs = some r) :
    pieces (c :: cs) =
      (pieces r.rest).map fun (ps, closed) => (r.pieces ++ ps, r.closed && closed) := by
  rw [pieces.eq_def]
  simp only
  split
  next hn => rw [h] at hn; cases hn
  next r' hr =>
    rw [h] at hr
    cases hr
    rfl

/-- A piece that is read before a text with all quotes closed is put before its pieces. -/
theorem pieces_before {c : Char} {cs rest : List Char} {q ps : List Piece}
    (h : readPiece c cs = some ⟨q, rest, true⟩) (hr : pieces rest = some (ps, true)) :
    pieces (c :: cs) = some (q ++ ps, true) := by
  rw [pieces_cons h, hr]
  rfl

theorem pieces_space {c : Char} {cs : List Char} {ps : List Piece} (hc : isBlank c = false)
    (h : pieces (c :: cs) = some (ps, true)) :
    pieces (' ' :: c :: cs) = some (.space [' '] :: ps, true) := by
  refine pieces_before (q := [.space [' ']]) ?_ h
  simp [readPiece, show isBlank ' ' = true by decide, hc]

namespace Operand

def piece : Operand → Piece
  | name n _ => .name n
  | integer negative ds _ => .word (signedDigits negative ds)
  | word w _ => .word w
  | quoted mark _ cs => .quoted (mark :: cs.flatMap QuotedChar.text ++ [mark])
  | bracketed s _ => .literal ('[' :: s ++ [']'])

/-- The expression text of the operand. -/
def source : Operand → List Char
  | name n _ => "var.".toList ++ n
  | integer negative ds _ => signedDigits negative ds
  | word w _ => '"' :: w ++ ['"']
  | quoted mark _ cs => mark :: cs.flatMap QuotedChar.text ++ [mark]
  | bracketed s _ => '"' :: escapeQuotes ('[' :: s ++ [']']) ++ ['"']

end Operand

theorem isNameChar_of_variableName {n : List Char} (h : IsVariableName n) :
    n ≠ [] ∧ n.all isNameChar = true := by
  obtain ⟨⟨c, cs, rfl, hc, hcs⟩, -⟩ := h
  have hfirst : isNameChar c = true := by
    rcases hc with hc | rfl
    · simp [isNameChar, Char.isAlphanum, hc]
    · decide
  exact ⟨List.cons_ne_nil _ _, by simpa [hfirst] using hcs⟩

theorem not_endsWord_of_digit {d : Char} (h : d.isDigit = true) : endsWord d = false := by
  have hmarks : ∀ c ∈ '"' :: '\'' :: "[]()=!<>".toList, c.isDigit = false :=
    forall_mem_of_all (by decide)
  have hne : ∀ c ∈ '"' :: '\'' :: "[]()=!<>".toList, d ≠ c := by
    rintro c hc rfl
    rw [hmarks d hc] at h
    cases h
  have hq : isQuoteMark d = false := by
    simp [isQuoteMark, hne '"' (by simp), hne '\'' (by simp)]
  have hmem : "[]()=!<>".toList.contains d = false := by
    rw [Bool.eq_false_iff, Ne, List.contains_iff_mem]
    intro hd
    exact hne d (List.mem_cons_of_mem _ (List.mem_cons_of_mem _ hd)) rfl
  rw [endsWord, not_blank_of_digit h, hq, hmem]
  rfl

theorem signedDigits_word (negative : Bool) {ds : List Char} (hne : ds ≠ [])
    (h : ∀ d ∈ ds, d.isDigit = true) :
    ∃ c w, signedDigits negative ds = c :: w ∧ ∀ d ∈ c :: w, endsWord d = false := by
  cases negative with
  | false =>
    obtain ⟨d, ds, rfl⟩ := List.exists_cons_of_ne_nil hne
    exact ⟨d, ds, rfl, fun e he => not_endsWord_of_digit (h e he)⟩
  | true =>
    refine ⟨'-', ds, rfl, fun e he => ?_⟩
    rcases List.mem_cons.mp he with rfl | he
    · decide
    · exact not_endsWord_of_digit (h e he)

theorem mark_plain {mark : Char} (h : isQuoteMark mark = true) :
    isBlank mark = false ∧ mark ≠ '\\' :=
  ⟨quoteMark_visible h, quoteMark_ne_slash h⟩

theorem pieces_operand (o : Operand) {rest : List Char} {ps : List Piece} (hr : Ends rest)
    (h : pieces rest = some (ps, true)) :
    pieces (o.text ++ rest) = some (o.piece :: ps, true) := by
  cases o with
  | name n hn =>
    obtain ⟨hne, hall⟩ := isNameChar_of_variableName hn
    have hb : ']' ∉ n := fun hm => absurd (List.all_eq_true.mp hall _ hm) (by decide)
    have hp := readPiece_bracket hb rest
    rw [bracketPiece, if_pos ⟨hne, hall⟩] at hp
    rw [Operand.text, List.append_assoc, List.singleton_append]
    exact pieces_before hp h
  | integer negative ds hd =>
    obtain ⟨c, w, hcw, hw⟩ := signedDigits_word negative hd.1 hd.2.1
    rw [Operand.text, Operand.piece, hcw]
    exact pieces_before (readPiece_word hw hr) h
  | word w hw =>
    obtain ⟨c, w, rfl⟩ := List.exists_cons_of_ne_nil hw.ne_nil
    exact pieces_before (readPiece_word (fun d hd => (hw.plain d hd).1) hr) h
  | quoted mark hm cs =>
    obtain ⟨hblank, hslash⟩ := mark_plain hm
    have hp : readPiece mark (cs.flatMap QuotedChar.text ++ mark :: rest) =
        some ⟨[.quoted (mark :: cs.flatMap QuotedChar.text ++ [mark])], rest, true⟩ := by
      simp [readPiece, hblank, hm, quotedRun_text hslash]
    rw [Operand.text, List.append_assoc, List.singleton_append]
    exact pieces_before hp h
  | bracketed s hs =>
    have hp := readPiece_bracket hs.1 rest
    rw [bracketPiece, if_neg hs.2] at hp
    rw [Operand.text, List.append_assoc, List.singleton_append]
    exact pieces_before hp h

theorem word_head {c : Char} (h : endsWord c = false) : isBlank c = false ∧ c ≠ '=' := by
  refine ⟨?_, ?_⟩
  · simp only [endsWord, Bool.or_eq_false_iff] at h
    exact h.1.1
  · rintro rfl
    exact absurd h (by decide)

theorem operand_head (o : Operand) : ∃ c cs, o.text = c :: cs ∧ isBlank c = false ∧ c ≠ '=' := by
  cases o with
  | name n _ => exact ⟨'[', _, rfl, by decide⟩
  | integer negative ds hd =>
    obtain ⟨c, w, hcw, hw⟩ := signedDigits_word negative hd.1 hd.2.1
    exact ⟨c, w, hcw, word_head (hw c (by simp))⟩
  | word w hw =>
    obtain ⟨c, w, rfl⟩ := List.exists_cons_of_ne_nil hw.ne_nil
    exact ⟨c, w, rfl, word_head (hw.plain c (by simp)).1⟩
  | quoted mark hm cs =>
    refine ⟨mark, _, rfl, (mark_plain hm).1, ?_⟩
    rintro rfl
    exact absurd hm (by decide)
  | bracketed s _ => exact ⟨'[', _, rfl, by decide⟩

theorem pieces_space_before {w rest : List Char} {ps : List Piece}
    (hw : ∃ c cs, w = c :: cs ∧ isBlank c = false)
    (h : pieces (w ++ rest) = some (ps, true)) :
    pieces (' ' :: (w ++ rest)) = some (.space [' '] :: ps, true) := by
  obtain ⟨c, cs, rfl, hc⟩ := hw
  exact pieces_space hc h

theorem pieces_sign (s : Sign) {cs : List Char} {ps : List Piece}
    (h : pieces (' ' :: cs) = some (ps, true)) :
    pieces (s.text ++ ' ' :: cs) = some (.comparison s.comparison :: ps, true) := by
  cases s <;> exact pieces_before (q := [.comparison _]) (by rfl) h

theorem sign_head (s : Sign) : ∃ c cs, s.text = c :: cs ∧ isBlank c = false := by
  cases s <;> exact ⟨_, _, rfl, by decide⟩

namespace Part

def pieces : Part → List Piece
  | comparison left sign right =>
    [left.piece, .space [' '], .comparison sign.comparison, .space [' '], right.piece]
  | not => [.word "not".toList]
  | and => [.word "and".toList]
  | or => [.word "or".toList]
  | openParen => [.openParen]
  | closeParen => [.closeParen]

/-- The expression text of the part. -/
def source : Part → List Char
  | comparison left sign right =>
    left.source ++ ' ' :: sign.comparison.symbol.toList ++ ' ' :: right.source
  | p => p.text

end Part

theorem part_head (p : Part) : ∃ c cs, p.text = c :: cs ∧ isBlank c = false ∧ c ≠ '=' := by
  cases p with
  | comparison left sign right =>
    obtain ⟨c, cs, hl, hc⟩ := operand_head left
    exact ⟨c, _, by rw [Part.text, hl]; rfl, hc⟩
  | not => exact ⟨'n', _, rfl, by decide⟩
  | and => exact ⟨'a', _, rfl, by decide⟩
  | or => exact ⟨'o', _, rfl, by decide⟩
  | openParen => exact ⟨'(', _, rfl, by decide⟩
  | closeParen => exact ⟨')', _, rfl, by decide⟩

theorem pieces_part (p : Part) {rest : List Char} {ps : List Piece} (hr : Ends rest)
    (h : pieces rest = some (ps, true)) :
    pieces (p.text ++ rest) = some (p.pieces ++ ps, true) := by
  cases p with
  | comparison left sign right =>
    obtain ⟨c, cs, hc, hblank, -⟩ := operand_head right
    have hright := pieces_operand right hr h
    have hsign := pieces_sign sign (pieces_space_before ⟨c, cs, hc, hblank⟩ hright)
    have hleft := pieces_operand left (ends_space _) (pieces_space_before (sign_head sign) hsign)
    simpa only [Part.text, Part.pieces, List.append_assoc, List.cons_append, List.nil_append]
      using hleft
  | not => exact pieces_before (readPiece_word (forall_mem_of_all (by decide)) hr) h
  | and => exact pieces_before (readPiece_word (forall_mem_of_all (by decide)) hr) h
  | or => exact pieces_before (readPiece_word (forall_mem_of_all (by decide)) hr) h
  | openParen => exact pieces_before (q := [.openParen]) (by rfl) h
  | closeParen => exact pieces_before (q := [.closeParen]) (by rfl) h

theorem spaced_single (w : List Char) : spaced [w] = w :=
  List.intercalate_singleton

theorem spaced_cons (w v : List Char) (ws : List (List Char)) :
    spaced (w :: v :: ws) = w ++ ' ' :: spaced (v :: ws) :=
  (List.intercalate_cons_cons).trans (List.append_assoc _ _ _)

theorem spaced_head (p : Part) (ps : List Part) :
    ∃ c cs, spaced ((p :: ps).map Part.text) = c :: cs ∧ isBlank c = false ∧ c ≠ '=' := by
  obtain ⟨c, cs, hp, hc⟩ := part_head p
  rw [List.map_cons, hp]
  cases ps.map Part.text with
  | nil => exact ⟨c, cs, spaced_single _, hc⟩
  | cons v ws => exact ⟨c, _, spaced_cons _ _ _, hc⟩

/-- The pieces of parts with a space between each two. -/
def spacedPieces (ps : List Part) : List Piece :=
  [Piece.space [' ']].intercalate (ps.map Part.pieces)

theorem spacedPieces_single (p : Part) : spacedPieces [p] = p.pieces :=
  List.intercalate_singleton

theorem spacedPieces_cons (p q : Part) (ps : List Part) :
    spacedPieces (p :: q :: ps) = p.pieces ++ .space [' '] :: spacedPieces (q :: ps) :=
  (List.intercalate_cons_cons).trans (List.append_assoc _ _ _)

theorem pieces_spaced (p : Part) (ps : List Part) :
    pieces (spaced ((p :: ps).map Part.text)) = some (spacedPieces (p :: ps), true) := by
  induction ps generalizing p with
  | nil =>
    have hnil : pieces [] = some ([], true) := by rw [pieces.eq_def]
    have h := pieces_part p ends_nil hnil
    rw [List.append_nil, List.append_nil] at h
    rw [List.map_singleton, spaced_single, spacedPieces_single]
    exact h
  | cons q qs ih =>
    obtain ⟨c, cs, hs, hc, -⟩ := spaced_head q qs
    have hq := ih q
    rw [hs] at hq
    rw [List.map_cons, List.map_cons, spaced_cons, ← List.map_cons, hs, spacedPieces_cons]
    exact pieces_part p (ends_space _) (pieces_space hc hq)

end TrialLoop
