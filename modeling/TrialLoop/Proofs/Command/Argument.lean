import TrialLoop.Command.Basic
import TrialLoop.Proofs.Command.Words
import TrialLoop.Proofs.Number.FloatText

namespace TrialLoop

/-- The values that a command line holds without loss: integers and texts. -/
inductive Value.IsArgument : Value → Prop
  | int (n : Int64) : IsArgument (.int n)
  | str (s : String) : IsArgument (.str s)

/-- A character that stands for itself wherever it is in a line. -/
def IsBareChar (c : Char) : Prop :=
  isBlank c = false ∧ isQuoteMark c = false ∧ c ≠ '=' ∧ c ≠ '\\'

instance : DecidablePred IsBareChar := fun _ => instDecidableAnd

/-- A text without blanks, quote marks, equals signs and backslashes, read as it stands. -/
def IsBare (s : String) : Prop :=
  s ≠ "" ∧ ∀ c ∈ s.toList, IsBareChar c

instance (s : String) : Decidable (IsBare s) :=
  decidable_of_iff (s ≠ "" ∧ (s.toList.all fun c => decide (IsBareChar c)) = true)
    (by simp [IsBare])

theorem IsBare.feed_not_mem {s : String} (h : IsBare s) : '\n' ∉ s.toList := fun hmem =>
  absurd (h.2 '\n' hmem).1 (by decide)

/-- A word of a line as it is written: bare, or a text in quotes. -/
def IsWord (w : String) : Prop :=
  IsBare w ∨ ∃ s, w = quote s

theorem isWord_quote (s : String) : IsWord (quote s) :=
  .inr ⟨s, rfl⟩

namespace IsWord

theorem ne_nil {w : String} (h : IsWord w) : w.toList ≠ [] := by
  rcases h with hb | ⟨s, rfl⟩
  · simpa using hb.1
  · simp [quote]

theorem goesOn {w : String} (h : IsWord w) {word : List Char} (hw : opensQuote word '"' = true) :
    GoesOn word w.toList := by
  rcases h with hb | ⟨s, rfl⟩
  · exact goesOn_plain word fun c hc => ⟨(hb.2 c hc).1, (hb.2 c hc).2.1⟩
  · exact goesOn_quote hw s

theorem head {w : String} (h : IsWord w) : ∀ c, w.toList.head? = some c → isBlank c = false := by
  intro c hc
  rcases h with hb | ⟨s, rfl⟩
  · exact (hb.2 c (List.mem_of_head? hc)).1
  · rw [toList_quote] at hc
    cases hc
    rfl

theorem last {w : String} (h : IsWord w) :
    ∀ c, w.toList.getLast? = some c → isBlank c = false := by
  intro c hc
  rcases h with hb | ⟨s, rfl⟩
  · exact (hb.2 c (List.mem_of_getLast? hc)).1
  · rw [toList_quote, List.getLast?_concat] at hc
    cases hc
    rfl

end IsWord

theorem bare_of_alphanum {c : Char} (h : c.isAlphanum = true) : IsBareChar c := by
  refine ⟨not_blank_of_alphanum h, ?_, ?_, ?_⟩
  · simp only [isQuoteMark, Bool.or_eq_false_iff, beq_eq_false_iff_ne]
    constructor
    · rintro rfl
      exact absurd h (by decide)
    · rintro rfl
      exact absurd h (by decide)
  · rintro rfl
    exact absurd h (by decide)
  · rintro rfl
    exact absurd h (by decide)

theorem bare_of_nameChar {c : Char} (h : isNameChar c = true) : IsBareChar c := by
  rcases Bool.or_eq_true_iff.mp h with h | h
  · exact bare_of_alphanum h
  · rw [eq_of_beq h]
    decide

theorem isBare_of_isBareText {s : String} (h : Command.isBareText s = true) : IsBare s := by
  simp only [Command.isBareText, Bool.and_eq_true, bne_iff_ne, List.all_eq_true,
    Bool.or_eq_true] at h
  refine ⟨h.1, ?_⟩
  intro c hc
  rcases h.2 c hc with ha | hm
  · exact bare_of_alphanum ha
  · have hall : ∀ d ∈ "_-.,:/+%@".toList, IsBareChar d := forall_mem_of_all (by decide)
    exact hall c (List.contains_iff_mem.mp hm)

theorem isBare_intText (n : Int) : IsBare (intText n) := by
  have hd : ∀ c ∈ digits n.natAbs, IsBareChar c := by
    intro c hc
    have := isDigit_of_mem_digits hc
    exact bare_of_alphanum (by simp [Char.isAlphanum, this])
  rw [intText_eq]
  constructor
  · intro he
    have hl := congrArg String.toList he
    by_cases h : n < 0
    · simp [signedDigits, h] at hl
    · simp [signedDigits, h, digits_ne_nil] at hl
  · intro c hc
    rw [String.toList_ofList] at hc
    by_cases h : n < 0
    · rcases List.mem_cons.mp (by simpa [signedDigits, h] using hc) with rfl | hc
      · decide
      · exact hd c hc
    · exact hd c (by simpa [signedDigits, h] using hc)

theorem isBare_floatText (style : FloatStyle) (x : Float) : IsBare (floatText style x) := by
  refine ⟨floatText_ne_empty style x, ?_⟩
  intro c hc
  rcases isFloatChar_floatText hc with h | rfl | rfl
  · exact bare_of_alphanum h
  · decide
  · decide

theorem argumentText_written (v : Value) : IsWord (Command.argumentText v) := by
  cases v with
  | int n => exact .inl (isBare_intText _)
  | float x => exact .inl (isBare_floatText _ _)
  | str s =>
    by_cases hs : Command.isBareText s && (Value.readNumber? s).isNone
    · have ht : Command.argumentText (.str s) = s := if_pos hs
      exact .inl (ht.symm ▸ isBare_of_isBareText (Bool.and_eq_true_iff.mp hs).1)
    · exact .inr ⟨s, if_neg hs⟩
  | null => exact .inr ⟨_, rfl⟩
  | bool b => exact .inr ⟨_, rfl⟩
  | list items => exact .inr ⟨_, rfl⟩

/-- An argument is written as it stands if it is then read as itself, and else in quotes. -/
theorem argumentText_cases {v : Value} (h : v.IsArgument) :
    (IsBare (Command.argumentText v) ∧ Value.ofText (Command.argumentText v) = v) ∨
      ∃ s, v = .str s ∧ Command.argumentText v = quote s := by
  cases h with
  | int n =>
    refine Or.inl ⟨isBare_intText _, ?_⟩
    simp [Command.argumentText, Value.ofText, readNumber?_intText]
  | str s =>
    by_cases hs : Command.isBareText s && (Value.readNumber? s).isNone
    · have ht : Command.argumentText (.str s) = s := if_pos hs
      obtain ⟨hb, hn⟩ := Bool.and_eq_true_iff.mp hs
      refine Or.inl ⟨ht.symm ▸ isBare_of_isBareText hb, ?_⟩
      rw [ht, Value.ofText, Option.isNone_iff_eq_none.mp hn]
      rfl
    · exact Or.inr ⟨s, rfl, if_neg hs⟩

/-- A text that starts with no quote mark has no enclosing one. -/
theorem enclosingMark?_eq_none {cs : List Char}
    (h : ∀ c, cs.head? = some c → isQuoteMark c = false) : enclosingMark? cs = none := by
  cases cs with
  | nil => rfl
  | cons c cs =>
    have hc := h c rfl
    simp [enclosingMark?, hc]

theorem IsBare.enclosingMark? {s : String} (h : IsBare s) : enclosingMark? s.toList = none :=
  enclosingMark?_eq_none fun c hc => (h.2 c (List.mem_of_head? hc)).2.1

theorem IsBare.unquote {s : String} (h : IsBare s) : unquote s = s :=
  unquote_eq_self_iff.mpr h.enclosingMark?

theorem IsBare.argumentValue {s : String} (h : IsBare s) : argumentValue s = .ofText s := by
  rw [TrialLoop.argumentValue, h.enclosingMark?]

theorem enclosingMark?_quote (s : String) : enclosingMark? (quote s).toList = some '"' := by
  rw [toList_quote]
  exact enclosingMark?_quoted _

/-- A text in quotes stands for itself, whatever it looks like. -/
theorem argumentValue_quote (s : String) : argumentValue (quote s) = .str s := by
  rw [argumentValue, enclosingMark?_quote]
  exact congrArg Value.str (unquote_quote s)

theorem splitKeyword?_quote (s : String) : splitKeyword? (quote s).toList = none := by
  have hmark : isNameChar '"' = false := by decide
  rw [toList_quote]
  simp [splitKeyword?, hmark]

theorem IsBare.splitKeyword? {s : String} (h : IsBare s) : splitKeyword? s.toList = none := by
  unfold TrialLoop.splitKeyword?
  split
  next hd =>
    have hm : '=' ∈ s.toList.dropWhile isNameChar := by rw [hd]; simp
    exact absurd rfl (h.2 _ ((List.dropWhile_sublist _).subset hm)).2.2.1
  next => rfl

/-- A bare word is an argument by position. -/
theorem Command.addWord_bare {s : String} (h : IsBare s) (command : Command) :
    addWord s command = { command with positional := .ofText s :: command.positional } := by
  simp only [addWord, h.splitKeyword?, h.argumentValue]

theorem Command.addWord_quote (s : String) (command : Command) :
    addWord (quote s) command = { command with positional := .str s :: command.positional } := by
  simp only [addWord, splitKeyword?_quote, argumentValue_quote]

theorem argumentValue_argumentText {v : Value} (h : v.IsArgument) :
    argumentValue (Command.argumentText v) = v := by
  rcases argumentText_cases h with ⟨hb, hv⟩ | ⟨s, rfl, hs⟩
  · exact hb.argumentValue.trans hv
  · rw [hs, argumentValue_quote]

theorem goesOn_argumentText {word : List Char} (hw : opensQuote word '"' = true) (v : Value) :
    GoesOn word (Command.argumentText v).toList :=
  (argumentText_written v).goesOn hw

theorem argumentText_ne_nil (v : Value) : (Command.argumentText v).toList ≠ [] :=
  (argumentText_written v).ne_nil

/-- No argument is taken for one with a keyword. -/
theorem splitKeyword?_argumentText (v : Value) :
    splitKeyword? (Command.argumentText v).toList = none := by
  rcases argumentText_written v with hb | ⟨s, hs⟩
  · exact hb.splitKeyword?
  · rw [hs, splitKeyword?_quote]

/-- What an argument is read as once it was written. -/
def Value.reread (v : Value) : Value :=
  argumentValue (Command.argumentText v)

theorem Value.IsArgument.reread_eq {v : Value} (h : v.IsArgument) : v.reread = v :=
  argumentValue_argumentText h

end TrialLoop
