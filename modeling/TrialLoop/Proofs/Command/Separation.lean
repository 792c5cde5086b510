import TrialLoop.Proofs.Command.Words
import TrialLoop.Proofs.Condition.Written

namespace TrialLoop

/-- A quote mark opens a quoted text at the start of a word and right after an equals sign. -/
def OpensAfter (last : Option Char) : Prop :=
  last = none ∨ last = some '='

/-- The text after a quote mark has the mark in it again, with no backslash that takes it along. -/
def Closes (mark : Char) (cs : List Char) : Prop :=
  ∃ (inside : List (QuotedChar mark)) (after : List Char),
    cs = inside.flatMap QuotedChar.text ++ mark :: after

/-- What goes on with a word after its last character: other characters and whole quoted texts. -/
inductive WordPart : Option Char → List Char → Prop
  | nil (last : Option Char) : WordPart last []
  | plain {last : Option Char} {c : Char} {cs : List Char} (blank : isBlank c = false)
      (mark : ¬(isQuoteMark c = true ∧ OpensAfter last)) (part : WordPart (some c) cs) :
      WordPart last (c :: cs)
  | quoted {last : Option Char} {mark : Char} {cs : List Char} (opens : OpensAfter last)
      (hmark : isQuoteMark mark = true) (inside : List (QuotedChar mark))
      (part : WordPart (some mark) cs) :
      WordPart last (mark :: (inside.flatMap QuotedChar.text ++ mark :: cs))

/-- A whole word as a line holds it, with its quotes and escapes. -/
def IsLineWord (w : List Char) : Prop :=
  w ≠ [] ∧ WordPart none w

/-- The words stand in the text one after the other, with nothing but blanks around them. -/
inductive Separated : List Char → List (List Char) → Prop
  | blanks {gap : List Char} (hgap : ∀ c ∈ gap, isBlank c = true) : Separated gap []
  | word {gap w rest : List Char} {ws : List (List Char)} (hgap : ∀ c ∈ gap, isBlank c = true)
      (hrest : ∀ c, rest.head? = some c → isBlank c = true) (others : Separated rest ws) :
      Separated (gap ++ (w ++ rest)) (w :: ws)

/--
From the start of a word on, a quote mark there or right after an equals sign opens a quoted text
that is never closed.
-/
def StaysOpen (cs : List Char) : Prop :=
  ∃ word mark after, cs = word ++ mark :: after ∧ WordPart none word ∧ isQuoteMark mark = true ∧
    OpensAfter word.getLast? ∧ ¬Closes mark after

/-- The first word of the text stays open, or a later one after whole words. -/
inductive LeavesQuoteOpen : List Char → Prop
  | first {gap cs : List Char} (hgap : ∀ c ∈ gap, isBlank c = true) (hopen : StaysOpen cs) :
      LeavesQuoteOpen (gap ++ cs)
  | later {gap w rest : List Char} (hgap : ∀ c ∈ gap, isBlank c = true) (hw : IsLineWord w)
      (hrest : ∀ c, rest.head? = some c → isBlank c = true) (hopen : LeavesQuoteOpen rest) :
      LeavesQuoteOpen (gap ++ (w ++ rest))

theorem opensQuote_iff {word : List Char} {c : Char} :
    opensQuote word c = true ↔ isQuoteMark c = true ∧ OpensAfter word.head? := by
  cases word <;> simp [opensQuote, OpensAfter]

section Quoted

variable {mark : Char}

theorem closes_mark (after : List Char) : Closes mark (mark :: after) :=
  ⟨[], after, rfl⟩

theorem Closes.plain {c : Char} (hc : c ≠ '\\' ∧ c ≠ mark) {cs : List Char} (h : Closes mark cs) :
    Closes mark (c :: cs) := by
  obtain ⟨inside, after, rfl⟩ := h
  exact ⟨.plain c hc :: inside, after, rfl⟩

theorem Closes.escape (c : Char) {cs : List Char} (h : Closes mark cs) :
    Closes mark ('\\' :: c :: cs) := by
  obtain ⟨inside, after, rfl⟩ := h
  exact ⟨.escape c :: inside, after, rfl⟩

/-- A closed quoted text is a part of the word in which it is opened. -/
theorem wordsFrom_quotedChars (hmark : mark ≠ '\\') (inside : List (QuotedChar mark))
    (word rest : List Char) :
    wordsFrom (some mark) word (inside.flatMap QuotedChar.text ++ mark :: rest) =
      wordsFrom none (mark :: ((inside.flatMap QuotedChar.text).reverse ++ word)) rest := by
  induction inside generalizing word with
  | nil =>
    rw [List.flatMap_nil, List.nil_append, wordsFrom, if_pos rfl]
    · rfl
    · intro _ _ he
      exact absurd he hmark
  | cons q inside ih =>
    cases q with
    | plain c hc =>
      rw [List.flatMap_cons, QuotedChar.text, List.singleton_append, List.cons_append,
        wordsFrom_inside_plain hc, ih]
      simp
    | escape c =>
      rw [List.flatMap_cons, QuotedChar.text, List.cons_append, List.singleton_append,
        List.cons_append, List.cons_append, wordsFrom, ih]
      simp

/-- A quoted text that is never closed leaves the line without words. -/
theorem wordsFrom_of_not_closes {cs : List Char} (h : ¬Closes mark cs) (word : List Char) :
    wordsFrom (some mark) word cs = none := by
  fun_induction quotedRun mark cs generalizing word with
  | case1 => rfl
  | case2 =>
    have hmark : '\\' ≠ mark := by
      rintro rfl
      exact h (closes_mark [])
    simp [wordsFrom, hmark]
  | case3 c cs ih =>
    rw [wordsFrom]
    exact ih (fun hc => h (hc.escape c)) _
  | case4 after => exact absurd (closes_mark after) h
  | case5 c cs hslash hmark ih =>
    have hc : c ≠ '\\' ∧ c ≠ mark := ⟨hslash, hmark⟩
    rw [wordsFrom_inside_plain hc]
    exact ih (fun h' => h (h'.plain hc)) _

end Quoted

/-- What goes on with a word is read as a part of it, whatever follows. -/
theorem WordPart.goesOn {last : Option Char} {cs : List Char} (h : WordPart last cs)
    {word : List Char} (hword : word.head? = last) : GoesOn word cs := by
  induction h generalizing word with
  | nil => exact fun _ => rfl
  | @plain last c cs hblank hmark _ ih =>
    intro rest
    have hclosed : ¬opensQuote word c = true := by
      rw [opensQuote_iff, hword]
      exact hmark
    rw [List.cons_append, wordsFrom_step hblank, if_neg hclosed, ih rfl]
    simp
  | @quoted last mark cs hopens hmark inside _ ih =>
    intro rest
    have hopen : opensQuote word mark = true := by
      rw [opensQuote_iff, hword]
      exact ⟨hmark, hopens⟩
    rw [List.cons_append, List.append_assoc, List.cons_append,
      wordsFrom_step (quoteMark_visible hmark), if_pos hopen,
      wordsFrom_quotedChars (quoteMark_ne_slash hmark), ih rfl]
    simp

/-- Words between blanks are the words of their text. -/
theorem wordsFrom_separated {cs : List Char} {ws : List (List Char)} (h : Separated cs ws)
    (hws : ∀ w ∈ ws, IsLineWord w) : wordsFrom none [] cs = some ws := by
  induction h with
  | blanks hgap =>
    have hcs := wordsFrom_blanks hgap []
    rwa [List.append_nil] at hcs
  | word hgap hrest _ ih =>
    obtain ⟨⟨hne, hpart⟩, hothers⟩ := List.forall_mem_cons.mp hws
    rw [wordsFrom_blanks hgap, wordsFrom_goesOn hne (hpart.goesOn rfl) hrest, ih hothers]
    rfl

theorem wordsFrom_staysOpen {cs : List Char} (h : StaysOpen cs) : wordsFrom none [] cs = none := by
  obtain ⟨word, mark, after, rfl, hpart, hmark, hopens, hclosed⟩ := h
  have hopen : opensQuote word.reverse mark = true := by
    rw [opensQuote_iff, List.head?_reverse]
    exact ⟨hmark, hopens⟩
  rw [hpart.goesOn rfl, List.append_nil, wordsFrom_step (quoteMark_visible hmark), if_pos hopen,
    wordsFrom_of_not_closes hclosed]

theorem wordsFrom_leavesQuoteOpen {cs : List Char} (h : LeavesQuoteOpen cs) :
    wordsFrom none [] cs = none := by
  induction h with
  | first hgap hopen => rw [wordsFrom_blanks hgap, wordsFrom_staysOpen hopen]
  | later hgap hw hrest _ ih =>
    rw [wordsFrom_blanks hgap, wordsFrom_goesOn hw.1 (hw.2.goesOn rfl) hrest, ih]
    rfl

/-- A word goes on up to a blank or the end, if no quoted text in it stays open. -/
theorem exists_wordPart (last : Option Char) (cs : List Char) :
    ∃ part rest, cs = part ++ rest ∧ WordPart last part ∧
      ((∀ c, rest.head? = some c → isBlank c = true) ∨
        ∃ mark after, rest = mark :: after ∧ isQuoteMark mark = true ∧
          OpensAfter (part.getLast?.or last) ∧ ¬Closes mark after) := by
  induction hn : cs.length using Nat.strong_induction_on generalizing last cs with
  | _ n ih =>
    cases cs with
    | nil => exact ⟨[], [], rfl, .nil last, .inl (by simp)⟩
    | cons c cs =>
      have hshorter : cs.length < n := by simp [← hn]
      by_cases hblank : isBlank c = true
      · refine ⟨[], c :: cs, rfl, .nil last, .inl fun d hd => ?_⟩
        exact Option.some.inj hd ▸ hblank
      by_cases hmark : isQuoteMark c = true ∧ OpensAfter last
      · by_cases hcloses : Closes c cs
        · obtain ⟨inside, after, rfl⟩ := hcloses
          have hafter : after.length < n := by
            simp only [List.length_append, List.length_cons] at hshorter
            omega
          obtain ⟨part, rest, rfl, hpart, hend⟩ := ih _ hafter (some c) after rfl
          refine ⟨_, rest, ?_, .quoted hmark.2 hmark.1 inside hpart, ?_⟩
          · simp
          · simpa [List.getLast?_append, List.getLast?_cons, Option.or_assoc] using hend
        · exact ⟨[], c :: cs, rfl, .nil last, .inr ⟨c, cs, rfl, hmark.1, hmark.2, hcloses⟩⟩
      · obtain ⟨part, rest, rfl, hpart, hend⟩ := ih _ hshorter (some c) cs rfl
        refine ⟨c :: part, rest, rfl, .plain (by simpa using hblank) hmark hpart, ?_⟩
        simpa [List.getLast?_cons] using hend

/-- Each text is whole words between blanks, or leaves a quoted text open. -/
theorem separated_or_open (cs : List Char) :
    (∃ ws, Separated cs ws ∧ ∀ w ∈ ws, IsLineWord w) ∨ LeavesQuoteOpen cs := by
  induction hn : cs.length using Nat.strong_induction_on generalizing cs with
  | _ n ih =>
    obtain ⟨gap, text, rfl, hgap, hhead⟩ := exists_run isBlank cs
    obtain ⟨w, rest, rfl, hpart, hend | ⟨mark, after, rfl, hmark, hopens, hclosed⟩⟩ :=
      exists_wordPart none text
    · cases w with
      | nil =>
        -- no word starts here, so that the text ends
        cases rest with
        | nil => exact .inl ⟨[], by simpa using Separated.blanks hgap, by simp⟩
        | cons c rest => exact absurd (hend c rfl) (by simp [hhead c rfl])
      | cons c w =>
        have hword : IsLineWord (c :: w) := ⟨List.cons_ne_nil c w, hpart⟩
        have hrest : rest.length < n := by
          simp only [List.length_append, List.length_cons] at hn
          omega
        rcases ih _ hrest rest rfl with ⟨ws, hws, hwords⟩ | hopen
        · exact .inl ⟨_, .word hgap hend hws, List.forall_mem_cons.mpr ⟨hword, hwords⟩⟩
        · exact .inr (.later hgap hword hend hopen)
    · rw [Option.or_none] at hopens
      exact .inr (.first hgap ⟨w, mark, after, rfl, hpart, hmark, hopens, hclosed⟩)

theorem wordsFrom_eq_some_iff {cs : List Char} {ws : List (List Char)} :
    wordsFrom none [] cs = some ws ↔ Separated cs ws ∧ ∀ w ∈ ws, IsLineWord w := by
  refine ⟨fun h => ?_, fun h => wordsFrom_separated h.1 h.2⟩
  rcases separated_or_open cs with ⟨ws', hws, hwords⟩ | hopen
  · obtain rfl : ws' = ws := Option.some.inj ((wordsFrom_separated hws hwords).symm.trans h)
    exact ⟨hws, hwords⟩
  · rw [wordsFrom_leavesQuoteOpen hopen] at h
    cases h

theorem wordsFrom_eq_none_iff {cs : List Char} :
    wordsFrom none [] cs = none ↔ LeavesQuoteOpen cs := by
  refine ⟨fun h => ?_, fun h => wordsFrom_leavesQuoteOpen h⟩
  rcases separated_or_open cs with ⟨ws, hws, hwords⟩ | hopen
  · rw [wordsFrom_separated hws hwords] at h
    cases h
  · exact hopen

theorem words_eq_error {line : String} {e : CommandError} :
    words line = .error e ↔ e = .unterminatedQuote line ∧ wordsFrom none [] line.toList = none := by
  unfold words
  cases wordsFrom none [] line.toList with
  | none => simp [eq_comm]
  | some ws => simp

theorem Separated.after_blanks {gap cs : List Char} {ws : List (List Char)}
    (hgap : ∀ c ∈ gap, isBlank c = true) (h : Separated cs ws) : Separated (gap ++ cs) ws := by
  have happend {gap' : List Char} (hgap' : ∀ c ∈ gap', isBlank c = true) :
      ∀ c ∈ gap ++ gap', isBlank c = true :=
    List.forall_mem_append.mpr ⟨hgap, hgap'⟩
  cases h with
  | blanks hgap' => exact .blanks (happend hgap')
  | word hgap' hrest others =>
    rw [← List.append_assoc]
    exact .word (happend hgap') hrest others

theorem separated_cons {w rest : List Char} {ws : List (List Char)}
    (hrest : ∀ c, rest.head? = some c → isBlank c = true) (h : Separated rest ws) :
    Separated (w ++ rest) (w :: ws) :=
  @Separated.word [] w rest ws (by simp) hrest h

theorem separated_nil : Separated [] [] :=
  .blanks (by simp)

theorem separated_single (w : List Char) : Separated w [w] := by
  simpa using @separated_cons w [] [] (by simp) separated_nil

/-- Words with one space between each two are separated. -/
theorem separated_intercalate (ws : List String) :
    Separated (" ".intercalate ws).toList (ws.map String.toList) := by
  induction ws with
  | nil => simpa using separated_nil
  | cons w ws ih =>
    cases ws with
    | nil => simpa using separated_single w.toList
    | cons w' ws =>
      have hspace : ∀ c ∈ [' '], isBlank c = true := forall_mem_of_all (by decide)
      have hrest : Separated (' ' :: (" ".intercalate (w' :: ws)).toList)
          ((w' :: ws).map String.toList) := ih.after_blanks hspace
      have hhead : ∀ c, (' ' :: (" ".intercalate (w' :: ws)).toList).head? = some c →
          isBlank c = true :=
        fun c hc => hspace c (by simpa using hc.symm)
      simpa using @separated_cons w.toList _ _ hhead hrest

/--
The words of a line are not empty and stand in it one after the other with blanks around them, each
alone is a line of this one word, and with single spaces between them they are read again. A line
has no words exactly if a quoted text in it stays open.
-/
theorem words_lose_nothing :
    (∀ line ws, words line = .ok ws →
      (∀ w ∈ ws, w ≠ "" ∧ words w = .ok [w]) ∧
        Separated line.toList (ws.map String.toList) ∧ words (" ".intercalate ws) = .ok ws) ∧
      ∀ line e, words line = .error e ↔
        e = .unterminatedQuote line ∧ LeavesQuoteOpen line.toList := by
  refine ⟨fun line ws h => ?_, fun line e => ?_⟩
  · obtain ⟨hws, hwords⟩ := wordsFrom_eq_some_iff.mp (words_eq_ok.mp h)
    refine ⟨fun w hw => ?_, hws, ?_⟩
    · have hword := hwords _ (List.mem_map_of_mem hw)
      have hline : wordsFrom none [] w.toList = some [w.toList] :=
        wordsFrom_eq_some_iff.mpr ⟨separated_single _, by simpa using hword⟩
      exact ⟨by simpa using hword.1, words_eq_ok.mpr hline⟩
    · exact words_eq_ok.mpr (wordsFrom_eq_some_iff.mpr ⟨separated_intercalate ws, hwords⟩)
  · rw [words_eq_error, wordsFrom_eq_none_iff]

/-- Quotes at the start, in the middle and after an equals sign, with escapes and blanks in them. -/
theorem words_lose_nothing_mixed :
    let line := "\tsay  it's \"a \\\" b\"c\u3000to='x y'=\"\" \\ "
    let ws := ["say", "it's", "\"a \\\" b\"c", "to='x y'=\"\"", "\\"]
    words line = .ok ws ∧ (∀ w ∈ ws, w ≠ "" ∧ words w = .ok [w]) ∧
      Separated line.toList (ws.map String.toList) ∧ words (" ".intercalate ws) = .ok ws := by
  intro line ws
  have hwords : words line = .ok ws := by decide
  exact ⟨hwords, words_lose_nothing.1 line ws hwords⟩

end TrialLoop
