import TrialLoop.Command.Words
import TrialLoop.Proofs.Text.Unescape

namespace TrialLoop

/-- The characters go on with a word, whatever follows them. -/
def GoesOn (word cs : List Char) : Prop :=
  ∀ rest, wordsFrom none word (cs ++ rest) = wordsFrom none (cs.reverse ++ word) rest

theorem GoesOn.append {word a b : List Char} (ha : GoesOn word a)
    (hb : GoesOn (a.reverse ++ word) b) : GoesOn word (a ++ b) := by
  intro rest
  rw [List.append_assoc, ha, hb, List.reverse_append, List.append_assoc]

theorem wordsFrom_step {word : List Char} {c : Char} (hc : isBlank c = false) (cs : List Char) :
    wordsFrom none word (c :: cs) =
      wordsFrom (if opensQuote word c then some c else none) (c :: word) cs := by
  simp only [wordsFrom, hc, Bool.false_eq_true, if_false]

theorem wordsFrom_inside_plain {mark c : Char} (hc : c ≠ '\\' ∧ c ≠ mark)
    (word cs : List Char) :
    wordsFrom (some mark) word (c :: cs) = wordsFrom (some mark) (c :: word) cs := by
  rw [wordsFrom, if_neg hc.2]
  intro _ _ he
  exact absurd he hc.1

theorem goesOn_plain {cs : List Char} (word : List Char)
    (h : ∀ c ∈ cs, isBlank c = false ∧ isQuoteMark c = false) : GoesOn word cs := by
  intro rest
  induction cs generalizing word with
  | nil => rfl
  | cons c cs ih =>
    obtain ⟨hb, hq⟩ := h c (by simp)
    have hstep : wordsFrom none word (c :: (cs ++ rest)) =
        wordsFrom none (c :: word) (cs ++ rest) := by
      simp [wordsFrom, hb, opensQuote, hq]
    rw [List.cons_append, hstep, ih _ fun d hd => h d (by simp [hd])]
    simp

theorem wordsFrom_quote_end (word rest : List Char) :
    wordsFrom (some '"') word ('"' :: rest) = wordsFrom none ('"' :: word) rest := by
  simp [wordsFrom]

theorem wordsFrom_escapeQuotes (s word rest : List Char) :
    wordsFrom (some '"') word (escapeQuotes s ++ rest) =
      wordsFrom (some '"') ((escapeQuotes s).reverse ++ word) rest := by
  induction s generalizing word with
  | nil => rfl
  | cons c s ih =>
    by_cases hc : c = '\\' ∨ c = '"'
    · rw [escapeQuotes_cons_special hc]
      have hstep : wordsFrom (some '"') word ('\\' :: c :: (escapeQuotes s ++ rest)) =
          wordsFrom (some '"') (c :: '\\' :: word) (escapeQuotes s ++ rest) := by
        simp [wordsFrom]
      rw [List.cons_append, List.cons_append, hstep, ih]
      simp
    · rw [escapeQuotes_cons_plain hc]
      rw [List.cons_append, wordsFrom_inside_plain (not_or.mp hc), ih]
      simp

/-- A text in quotes goes on with a word that is empty or ends in an equals sign. -/
theorem goesOn_quote {word : List Char} (h : opensQuote word '"' = true) (s : String) :
    GoesOn word (quote s).toList := by
  intro rest
  have hopen : wordsFrom none word ('"' :: (escapeQuotes s.toList ++ '"' :: rest)) =
      wordsFrom (some '"') ('"' :: word) (escapeQuotes s.toList ++ '"' :: rest) := by
    have hb : isBlank '"' = false := by decide
    simp [wordsFrom, hb, h]
  rw [toList_quote]
  simp only [List.cons_append, List.append_assoc, List.nil_append]
  rw [hopen, wordsFrom_escapeQuotes, wordsFrom_quote_end]
  simp

theorem opensQuote_mark {word : List Char} {c mark : Char}
    (h : (if opensQuote word c then some c else none) = some mark) : isQuoteMark mark = true := by
  split at h
  next ho => exact Option.some.inj h ▸ (Bool.and_eq_true_iff.mp ho).1
  next => cases h

/-- A line whose first word, last character first, is in part read: the word ends at a blank. -/
theorem wordsFrom_inside {mode : Option Char} {word cs : List Char} {ws : List (List Char)}
    (hmode : ∀ {mark}, mode = some mark → isQuoteMark mark = true) (hword : word ≠ [])
    (h : wordsFrom mode word cs = some ws) :
    ∃ a rest others, cs = a ++ rest ∧ ws = (a.reverse ++ word).reverse :: others ∧
      (∀ more, wordsFrom mode word (a ++ more) = wordsFrom none (a.reverse ++ word) more) ∧
      (∀ c, rest.head? = some c → isBlank c = true) ∧ wordsFrom none [] rest = some others := by
  fun_induction wordsFrom mode word cs generalizing ws with
  | case1 word =>
    obtain rfl : ws = [word.reverse] := by simpa [endWord, hword] using h.symm
    exact ⟨[], [], [], rfl, rfl, fun _ => rfl, by simp, rfl⟩
  | case2 => cases h
  | case3 mark word c cs ih =>
    obtain ⟨a, rest, others, rfl, rfl, hgo, hrest, hothers⟩ := ih hmode (by simp) h
    refine ⟨'\\' :: c :: a, rest, others, rfl, by simp, ?_, hrest, hothers⟩
    intro more
    rw [List.cons_append, List.cons_append, wordsFrom, hgo]
    simp
  | case4 mark word c cs hescape ih =>
    have hmark := hmode rfl
    have hmode' : ∀ {m}, (if c = mark then none else some mark) = some m → isQuoteMark m = true := by
      intro m hm
      split at hm
      · cases hm
      · exact Option.some.inj hm ▸ hmark
    obtain ⟨a, rest, others, rfl, rfl, hgo, hrest, hothers⟩ := ih hmode' (by simp) h
    -- A backslash at the end would leave the quote open.
    have hc : c ≠ '\\' := by
      rintro rfl
      have hne := (quoteMark_ne_slash hmark).symm
      cases hcs : a ++ rest with
      | nil => simp [hcs, hne, wordsFrom] at h
      | cons d ds => exact hescape d ds rfl hcs
    refine ⟨c :: a, rest, others, rfl, by simp, ?_, hrest, hothers⟩
    intro more
    have hstep : wordsFrom (some mark) word (c :: (a ++ more)) =
        wordsFrom (if c = mark then none else some mark) (c :: word) (a ++ more) := by
      rw [wordsFrom]
      intro _ _ he
      exact absurd he hc
    rw [List.cons_append, hstep, hgo]
    simp
  | case5 word c cs hblank ih =>
    obtain ⟨others, hothers, rfl⟩ := Option.map_eq_some_iff.mp h
    refine ⟨[], c :: cs, others, rfl, by simp [endWord, hword], fun _ => rfl, ?_, ?_⟩
    · intro d hd
      exact Option.some.inj hd ▸ hblank
    · simp [wordsFrom, hblank, hothers, endWord]
  | case6 word c cs hblank ih =>
    obtain ⟨a, rest, others, rfl, rfl, hgo, hrest, hothers⟩ := ih opensQuote_mark (by simp) h
    refine ⟨c :: a, rest, others, rfl, by simp, ?_, hrest, hothers⟩
    intro more
    rw [List.cons_append, wordsFrom_step (by simpa using hblank), hgo]
    simp

theorem wordsFrom_blanks {b : List Char} (h : ∀ c ∈ b, isBlank c = true) (cs : List Char) :
    wordsFrom none [] (b ++ cs) = wordsFrom none [] cs := by
  induction b with
  | nil => rfl
  | cons c b ih =>
    have hid : endWord [] = id := rfl
    simp [wordsFrom, h c (by simp), hid, ih fun d hd => h d (by simp [hd])]

theorem wordsFrom_goesOn {w rest : List Char} (hne : w ≠ []) (hgo : GoesOn [] w)
    (hrest : ∀ c, rest.head? = some c → isBlank c = true) :
    wordsFrom none [] (w ++ rest) = (wordsFrom none [] rest).map (w :: ·) := by
  have hid : endWord [] = id := rfl
  have hend : endWord w.reverse = (w :: ·) := by
    funext ws
    simp [endWord, hne]
  rw [hgo, List.append_nil]
  cases rest with
  | nil => simp [wordsFrom, hend, hid]
  | cons c rest => simp [wordsFrom, hrest c rfl, hend, hid]

/-- Words with a blank before each are the words of their line. -/
theorem wordsFrom_words {ws : List (List Char)} (h : ∀ w ∈ ws, w ≠ [] ∧ GoesOn [] w) :
    wordsFrom none [] (ws.flatMap (' ' :: ·)) = some ws := by
  have hb : ∀ c ∈ [' '], isBlank c = true := forall_mem_of_all (by decide)
  induction ws with
  | nil => rfl
  | cons w ws ih =>
    obtain ⟨hne, hgo⟩ := h w (by simp)
    have hline : (w :: ws).flatMap (' ' :: ·) = [' '] ++ (w ++ ws.flatMap (' ' :: ·)) := rfl
    have hrest : ∀ c, (ws.flatMap (' ' :: ·)).head? = some c → isBlank c = true := by
      intro c hc
      cases ws with
      | nil => cases hc
      | cons => exact Option.some.inj hc ▸ hb ' ' (by simp)
    rw [hline, wordsFrom_blanks hb, wordsFrom_goesOn hne hgo hrest,
      ih fun v hv => h v (by simp [hv])]
    rfl

theorem wordsFrom_line {first : List Char} {others : List (List Char)}
    (h : ∀ w ∈ first :: others, w ≠ [] ∧ GoesOn [] w) :
    wordsFrom none [] (first ++ others.flatMap (' ' :: ·)) = some (first :: others) :=
  (wordsFrom_blanks (b := [' ']) (forall_mem_of_all (by decide)) _).symm.trans
    (wordsFrom_words h)

/-- The first word of a line, with the blanks before it and the line after it. -/
structure IsFirstWord (cs before w rest : List Char) : Prop where
  text : cs = before ++ w ++ rest
  before : ∀ c ∈ before, isBlank c = true
  ne : w ≠ []
  head : ∀ c, w.head? = some c → isBlank c = false
  goesOn : GoesOn [] w
  rest : ∀ c, rest.head? = some c → isBlank c = true

/-- A line is read word by word. -/
theorem wordsFrom_first {cs w : List Char} {ws : List (List Char)}
    (h : wordsFrom none [] cs = some (w :: ws)) :
    ∃ before rest, IsFirstWord cs before w rest ∧ wordsFrom none [] rest = some ws := by
  induction cs with
  | nil => simp [wordsFrom, endWord] at h
  | cons c cs ih =>
    cases hc : isBlank c with
    | true =>
      have hcs : wordsFrom none [] cs = some (w :: ws) := by
        rwa [← wordsFrom_blanks (b := [c]) (by simpa using hc)]
      obtain ⟨before, rest, hw, hws⟩ := ih hcs
      refine ⟨c :: before, rest, { hw with text := ?_, before := ?_ }, hws⟩
      · rw [hw.text]
        rfl
      · exact List.forall_mem_cons.mpr ⟨hc, hw.before⟩
    | false =>
      have hstep : ∀ more, wordsFrom none [] (c :: more) =
          wordsFrom (if opensQuote [] c then some c else none) [c] more := wordsFrom_step hc
      obtain ⟨a, rest, others, rfl, hw, hgo, hrest, hothers⟩ :=
        wordsFrom_inside opensQuote_mark (by simp) ((hstep cs).symm.trans h)
      obtain ⟨rfl, rfl⟩ : w = c :: a ∧ ws = others := by simpa using hw
      refine ⟨[], rest, ⟨rfl, by simp, by simp, ?_, ?_, hrest⟩, hothers⟩
      · intro d hd
        exact Option.some.inj hd ▸ hc
      · intro more
        rw [List.cons_append, hstep, hgo]
        simp

theorem words_eq_ok {line : String} {ws : List String} :
    words line = .ok ws ↔ wordsFrom none [] line.toList = some (ws.map String.toList) := by
  unfold words
  cases wordsFrom none [] line.toList with
  | none => simp
  | some cs =>
    have hback : (cs.map String.ofList).map String.toList = cs := by
      simp [Function.comp_def]
    constructor
    · intro h
      rw [← Except.ok.inj h, hback]
    · intro h
      simp [Option.some.inj h, Function.comp_def]

theorem goesOn_quotedBlanks {mark : Char} (hmark : isQuoteMark mark = true) {blanks : List Char}
    (h : ∀ c ∈ blanks, isBlank c = true) : GoesOn [] (mark :: blanks ++ [mark]) := by
  have hinside : ∀ word rest, wordsFrom (some mark) word (blanks ++ mark :: rest) =
      wordsFrom none (mark :: (blanks.reverse ++ word)) rest := by
    induction blanks with
    | nil =>
      intro word rest
      simp [wordsFrom, quoteMark_ne_slash hmark]
    | cons c blanks ih =>
      intro word rest
      rw [List.cons_append, wordsFrom_inside_plain (quoteMark_ne hmark (h c (by simp))),
        ih fun d hd => h d (by simp [hd])]
      simp
  intro rest
  have hopen : opensQuote [] mark = true := by simp [opensQuote, hmark]
  have hvisible := quoteMark_visible hmark
  have hstart : wordsFrom none [] (mark :: (blanks ++ mark :: rest)) =
      wordsFrom (some mark) [mark] (blanks ++ mark :: rest) := by
    simp only [wordsFrom, hvisible, hopen, Bool.false_eq_true, if_false, if_true]
  rw [show mark :: blanks ++ [mark] ++ rest = mark :: (blanks ++ mark :: rest) by simp, hstart,
    hinside]
  simp

end TrialLoop
