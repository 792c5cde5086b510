import TrialLoop.Proofs.Command.Argument
import TrialLoop.Proofs.Text.Lines
import TrialLoop.Script.Directive

namespace TrialLoop

/-- A line of words with a blank before each one but the first. -/
def wordLine (first : String) (others : List String) : String :=
  first ++ String.join (others.map (" " ++ ·))

theorem toList_wordLine (first : String) (others : List String) :
    (wordLine first others).toList =
      first.toList ++ (others.map String.toList).flatMap (' ' :: ·) := by
  simp [wordLine, String.toList_join, List.flatMap_map]

section WordLine

variable {first : String} {others : List String}

/-- The words of a line are found in it. -/
theorem words_wordLine (h : ∀ w ∈ first :: others, IsWord w) :
    words (wordLine first others) = .ok (first :: others) := by
  rw [words_eq_ok, toList_wordLine]
  refine wordsFrom_line ?_
  rw [← List.map_cons, List.forall_mem_map]
  exact fun w hw => ⟨(h w hw).ne_nil, (h w hw).goesOn rfl⟩

theorem getLast?_wordLine (h : ∀ w ∈ first :: others, IsWord w) :
    ∃ w ∈ first :: others, (wordLine first others).toList.getLast? = w.toList.getLast? := by
  rcases List.eq_nil_or_concat others with rfl | ⟨init, w, rfl⟩
  · exact ⟨first, by simp, by simp [toList_wordLine]⟩
  · refine ⟨w, by simp, ?_⟩
    have hw : w.toList ≠ [] := (h w (by simp)).ne_nil
    simp [toList_wordLine, List.getLast?_append, List.getLast?_cons,
      List.getLast?_eq_some_getLast hw]

theorem last_wordLine (h : ∀ w ∈ first :: others, IsWord w) :
    ∀ c, (wordLine first others).toList.getLast? = some c → isBlank c = false := by
  obtain ⟨w, hw, hlast⟩ := getLast?_wordLine h
  rw [hlast]
  exact (h w hw).last

theorem trim_wordLine (h : ∀ w ∈ first :: others, IsWord w) :
    trim (wordLine first others).toList = (wordLine first others).toList := by
  refine trim_eq_self (fun c hc => ?_) (last_wordLine h)
  have hfirst := h first List.mem_cons_self
  rw [toList_wordLine, List.head?_append, List.head?_eq_some_head hfirst.ne_nil] at hc
  exact hfirst.head c ((List.head?_eq_some_head hfirst.ne_nil).trans hc)

theorem isLine_wordLine (h : ∀ w ∈ first :: others, IsWord w)
    (hfeed : ∀ w ∈ first :: others, '\n' ∉ w.toList) : IsLine (wordLine first others).toList := by
  refine ⟨?_, fun hreturn => absurd (last_wordLine h _ hreturn) (by decide)⟩
  simpa [toList_wordLine] using hfeed

end WordLine

/-- A line of a word and two texts in quotes, such as set a variable or define an item. -/
def quotedLine (word a b : String) : String :=
  word ++ " " ++ quote a ++ " " ++ quote b

theorem quotedLine_eq (word a b : String) :
    quotedLine word a b = wordLine word [quote a, quote b] := by
  simp [quotedLine, wordLine, String.ext_iff]

theorem toList_quotedLine (word a b : String) :
    (quotedLine word a b).toList =
      word.toList ++ ' ' :: ((quote a).toList ++ ' ' :: (quote b).toList) := by
  simp [quotedLine]

section QuotedLine

variable {word a b : String}

theorem isWord_of_mem_quotedLine (h : IsBare word) : ∀ w ∈ [word, quote a, quote b], IsWord w := by
  simp only [List.forall_mem_cons]
  exact ⟨.inl h, isWord_quote a, isWord_quote b, by simp⟩

theorem words_quotedLine (h : IsBare word) (a b : String) :
    words (quotedLine word a b) = .ok [word, quote a, quote b] := by
  rw [quotedLine_eq, words_wordLine (isWord_of_mem_quotedLine h)]

theorem trim_quotedLine (h : IsBare word) (a b : String) :
    trim (quotedLine word a b).toList = (quotedLine word a b).toList := by
  rw [quotedLine_eq, trim_wordLine (isWord_of_mem_quotedLine h)]

theorem isLine_quotedLine (h : IsBare word) (hword : '\n' ∉ word.toList) (ha : '\n' ∉ a.toList)
    (hb : '\n' ∉ b.toList) : IsLine (quotedLine word a b).toList := by
  rw [quotedLine_eq]
  refine isLine_wordLine (isWord_of_mem_quotedLine h) ?_
  simp [hword, feed_mem_quote, ha, hb]

end QuotedLine

/-- The line that sets a variable to a text takes the variable's name as an argument. -/
theorem ofLine_setWord {word : String} (h : IsWord word) {x : Value}
    (hx : ∀ command : Command,
      Command.addWord word command = { command with positional := x :: command.positional })
    (value : String) :
    Directive.ofLine (wordLine "set" [word, quote value]) = .ok (.set x.text (.str value)) := by
  have hall : ∀ w ∈ ["set", word, quote value], IsWord w := by
    simp only [List.forall_mem_cons]
    exact ⟨.inl (by decide), h, isWord_quote value, by simp⟩
  have hwords := words_wordLine hall
  have hread : Command.read (wordLine "set" [word, quote value]) =
      .ok ⟨"set", [x, .str value], []⟩ := by
    unfold Command.read
    rw [hwords]
    show Except.ok ([word, quote value].foldr Command.addWord { name := unquote "set" }) = _
    rw [List.foldr_cons, List.foldr_cons, List.foldr_nil, Command.addWord_quote, hx]
    rfl
  unfold Directive.ofLine
  rw [hwords]
  simp only [bind, Except.bind, hread]

/-- A name in quotes is taken as it is, whatever it looks like. -/
theorem ofLine_quotedLine (name value : String) :
    Directive.ofLine (quotedLine "set" name value) = .ok (.set name (.str value)) := by
  rw [quotedLine_eq]
  exact ofLine_setWord (isWord_quote name) (Command.addWord_quote name) value

end TrialLoop
