import TrialLoop.Proofs.Condition.Equality

namespace TrialLoop

/-- A word that is neither a number nor an operator, and that may hold backslashes. -/
structure IsTextWord (w : String) : Prop where
  ne_empty : w ≠ ""
  inside : ∀ c ∈ w.toList, endsWord c = false
  not_number : Value.readNumber? w = none
  not_operator : w.toList ∉ operatorWords

/--
What a word stands for between double quotes: nothing, if its last backslash takes the closing mark
along.
-/
def wordText? : List Char → Option (List Char)
  | [] => some []
  | ['\\'] => none
  | '\\' :: c :: cs => (wordText? cs).map (unescaped c ++ ·)
  | c :: cs => (wordText? cs).map (c :: ·)

/-- A backslash in the word stands at its end or before a character that it escapes. -/
def HasEscape (w : List Char) : Prop :=
  w.getLast? = some '\\' ∨ ∃ c ∈ ['n', 't', '\\'], ['\\', c] <:+: w

theorem not_mark_of_inside {c : Char} (h : endsWord c = false) : isQuoteMark c = false := by
  simp only [endsWord, Bool.or_eq_false_iff] at h
  exact h.1.2

/-- A word is empty, or starts with a backslash at its end or before a character, or with another. -/
theorem word_induction {P : List Char → Prop} (nil : P []) (slash : P ['\\'])
    (escape : ∀ c cs, P cs → P ('\\' :: c :: cs)) (plain : ∀ c cs, c ≠ '\\' → P cs → P (c :: cs))
    (w : List Char) : P w := by
  fun_induction wordText? w with
  | case1 => exact nil
  | case2 => exact slash
  | case3 c cs ih => exact escape c cs ih
  | case4 c cs hend hnext ih =>
    refine plain c cs ?_ ih
    rintro rfl
    cases cs with
    | nil => exact hend rfl rfl
    | cons d ds => exact hnext d ds rfl rfl

theorem wordText?_cons {c : Char} (h : c ≠ '\\') (cs : List Char) :
    wordText? (c :: cs) = (wordText? cs).map (c :: ·) := by
  rw [wordText?]
  · intro he
    exact absurd he h
  · intro _ _ he
    exact absurd he h

theorem quotedText?_wordText {w : List Char} (h : ∀ c ∈ w, isQuoteMark c = false) :
    quotedText? '"' (w ++ ['"']) = (wordText? w).map fun s => (s, []) := by
  induction w using word_induction with
  | nil => rfl
  | slash => rfl
  | escape c cs ih =>
    rw [List.cons_append, List.cons_append, quotedText?, ih fun d hd => h d (by simp [hd]),
      wordText?, Option.map_map, Option.map_map]
    rfl
  | plain c cs hc ih =>
    have hmark : c ≠ '"' := by
      rintro rfl
      exact absurd (h '"' (by simp)) (by decide)
    rw [List.cons_append, quotedText?, if_neg hmark, ih fun d hd => h d (by simp [hd]),
      wordText?_cons hc, Option.map_map, Option.map_map]
    · rfl
    · intro _ _ he
      exact absurd he hc

theorem wordText?_length {w s : List Char} (h : wordText? w = some s) : s.length ≤ w.length := by
  induction w using word_induction generalizing s with
  | nil =>
    cases h
    simp
  | slash => cases h
  | escape c cs ih =>
    obtain ⟨t, ht, rfl⟩ := Option.map_eq_some_iff.mp h
    have hc : (unescaped c).length ≤ 2 := by
      unfold unescaped
      split_ifs <;> simp
    have := ih ht
    simp only [List.length_append, List.length_cons]
    omega
  | plain c cs hc ih =>
    rw [wordText?_cons hc] at h
    obtain ⟨t, ht, rfl⟩ := Option.map_eq_some_iff.mp h
    exact Nat.succ_le_succ (ih ht)

theorem hasEscape_cons {c : Char} (h : c ≠ '\\') (cs : List Char) :
    HasEscape (c :: cs) ↔ HasEscape cs := by
  have hlast : (c :: cs).getLast? = some '\\' ↔ cs.getLast? = some '\\' := by
    cases cs with
    | nil => simp [h]
    | cons d ds => rw [List.getLast?_cons_cons]
  simp [HasEscape, hlast, List.infix_cons_iff, List.cons_prefix_cons, h.symm]

theorem hasEscape_of_escaped {c : Char} (h : c ∈ ['n', 't', '\\']) (cs : List Char) :
    HasEscape ('\\' :: c :: cs) :=
  .inr ⟨c, h, [], cs, rfl⟩

theorem hasEscape_of_kept {c : Char} (h : c ∉ ['n', 't', '\\']) (cs : List Char) :
    HasEscape ('\\' :: c :: cs) ↔ HasEscape cs := by
  have hne : c ≠ '\\' := fun he => h (by simp [he])
  have hinside : ∀ d ∈ ['n', 't', '\\'],
      (['\\', d] <:+: '\\' :: c :: cs ↔ ['\\', d] <:+: c :: cs) := by
    intro d hd
    have hdc : d ≠ c := fun he => h (he ▸ hd)
    rw [List.infix_cons_iff, List.cons_prefix_cons, List.cons_prefix_cons]
    simp [hdc]
  rw [← hasEscape_cons hne cs, HasEscape, HasEscape, List.getLast?_cons_cons]
  exact or_congr Iff.rfl (exists_congr fun d => and_congr_right (hinside d))

/-- A word stands for itself exactly if none of its backslashes is read as an escape. -/
theorem wordText?_eq_self_iff {w : List Char} (h : ∀ c ∈ w, isQuoteMark c = false) :
    wordText? w = some w ↔ ¬HasEscape w := by
  induction w using word_induction with
  | nil => simp [wordText?, HasEscape]
  | slash => simp [wordText?, HasEscape]
  | escape c cs ih =>
    have hmark := h c (by simp)
    by_cases hc : c ∈ ['n', 't', '\\']
    · have hlength : (unescaped c).length = 1 := by
        simp only [List.mem_cons, List.not_mem_nil, or_false] at hc
        rcases hc with rfl | rfl | rfl <;> rfl
      refine iff_of_false (fun he => ?_) (not_not_intro (hasEscape_of_escaped hc cs))
      obtain ⟨t, ht, hs⟩ := Option.map_eq_some_iff.mp he
      have hle := wordText?_length ht
      have heq := congrArg List.length hs
      simp only [List.length_append, List.length_cons, hlength] at heq
      omega
    · have hkeep : unescaped c = ['\\', c] := by
        simp only [List.mem_cons, List.not_mem_nil, or_false, not_or] at hc
        simp [unescaped, hc, hmark]
      rw [hasEscape_of_kept hc, ← ih fun d hd => h d (by simp [hd]), wordText?, hkeep]
      simp
  | plain c cs hc ih =>
    rw [wordText?_cons hc, hasEscape_cons hc, ← ih fun d hd => h d (by simp [hd])]
    simp

/-- The text in double quotes as it stands, without escapes. -/
def plainQuotes (w : String) : String :=
  "\"" ++ w ++ "\""

theorem isOperand_word {w : String} (hw : IsTextWord w) : IsOperand w (.word w.toList) where
  pieces := by
    obtain ⟨c, cs, hc⟩ := List.exists_cons_of_ne_nil (l := w.toList) (by simpa using hw.ne_empty)
    have hinside := hw.inside
    rw [hc] at hinside ⊢
    have hword := readPiece_word hinside ends_nil
    rw [List.append_nil] at hword
    exact pieces_before hword (by rw [pieces.eq_def])
  kind := .inr ⟨_, rfl⟩
  head := by
    obtain ⟨c, cs, hc⟩ := List.exists_cons_of_ne_nil (l := w.toList) (by simpa using hw.ne_empty)
    exact ⟨c, cs, hc, (word_head (hw.inside c (by simp [hc]))).1⟩
  last := fun c hc => (word_head (hw.inside c (List.mem_of_getLast? hc))).1

theorem ofText_equals_word {name w : String} (hn : IsNameText name) (hw : IsTextWord w) :
    Condition.ofText (equalsText name w) =
      .ok (.formula (equalsSource name (plainQuotes w))) := by
  have hreserved : Piece.isReserved w.toList = false := by
    rw [Piece.isReserved, String.ofList_toList, hw.not_number, Option.isSome_none, Bool.or_false,
      Bool.eq_false_iff, Ne, List.contains_iff_mem]
    exact hw.not_operator
  have hsource : String.ofList ((Piece.word w.toList).source true) = plainQuotes w := by
    apply String.toList_inj.mp
    simp [Piece.source, hreserved, plainQuotes]
  rw [ofText_equals hn (isOperand_word hw), hsource]

theorem tokens_plainQuotes {w : String} (h : ∀ c ∈ w.toList, isQuoteMark c = false) :
    tokens (plainQuotes w).toList =
      match wordText? w.toList with
      | some s => .ok [.str (String.ofList s)]
      | none => .error .unterminatedText := by
  have htext : (plainQuotes w).toList = '"' :: (w.toList ++ ['"']) := by
    simp [plainQuotes]
  have hquoted := quotedText?_wordText h
  rw [htext]
  cases hs : wordText? w.toList with
  | some s =>
    rw [hs] at hquoted
    exact tokens_before (by decide) (readToken_quoted (by decide) hquoted) tokens_nil
  | none =>
    rw [hs] at hquoted
    have herror : readToken '"' (w.toList ++ ['"']) = .error .unterminatedText := by
      have hnumber : startsNumber '"' (w.toList ++ ['"']) = false := rfl
      have hmark : isQuoteMark '"' = true := by decide
      simp [readToken, hnumber, hmark, hquoted]
    rw [tokens_cons (by decide), herror]
    rfl

theorem test_equals_word {name w : String} (hv : IsVariableName name.toList) (hw : IsTextWord w)
    {σ : Type} (context : Context σ) :
    (Condition.formula (equalsSource name (plainQuotes w))).test context =
      match wordText? w.toList with
      | some s =>
        (fun v => v.equal (.str (String.ofList s))) <$> Expr.named context name ("var." ++ name)
      | none => throw (.grammar .unterminatedText) := by
  have htokens := tokens_plainQuotes fun c hc => not_mark_of_inside (hw.inside c hc)
  cases hs : wordText? w.toList with
  | some s =>
    rw [hs] at htokens
    exact test_equalsExpr (read_equals hv htokens) context
  | none =>
    rw [hs] at htokens
    have herror : Expr.read (equalsSource name (plainQuotes w)) = .error .unterminatedText := by
      rw [Expr.read, tokens_equals hv, htokens]
      rfl
    exact (test_eq_throw herror context).1

theorem equal_text {s w : String} (h : Value.readNumber? s = none ∨ Value.readNumber? w = none) :
    (Value.str s).equal (.str w) = (s == w) := by
  have horder : (Value.str s).order? (.str w) = some (compare s w) := by
    rw [Value.order?, Value.textOrder?]
    rcases h with h | h
    · simp [h]
    · cases Value.readNumber? s <;> simp [h]
  rw [Value.equal, horder, Bool.eq_iff_iff]
  simp

/--
A word in a condition means itself exactly if none of its backslashes is read as an escape. It is
then equal to the same text alone.
-/
theorem ofText_equals_word_iff {name w : String} (hv : IsVariableName name.toList)
    (hw : IsTextWord w) :
    ∃ c, Condition.ofText (equalsText name w) = .ok c ∧
      (¬HasEscape w.toList ↔ ∀ {σ : Type} (context : Context σ),
        c.test context =
          (fun v => v.equal (.str w)) <$> Expr.named context name ("var." ++ name)) ∧
      ∀ s, (Value.str s).equal (.str w) = (s == w) := by
  have hmarks : ∀ c ∈ w.toList, isQuoteMark c = false := fun c hc =>
    not_mark_of_inside (hw.inside c hc)
  have hname : IsNameText name := by
    obtain ⟨hne, hall⟩ := isNameChar_of_variableName hv
    exact ⟨by simpa using hne, List.all_eq_true.mp hall⟩
  refine ⟨_, ofText_equals_word hname hw, ⟨fun h σ context => ?_, fun h => ?_⟩,
    fun s => equal_text (.inr hw.not_number)⟩
  · rw [test_equals_word hv hw, (wordText?_eq_self_iff hmarks).mpr h]
    simp only [String.ofList_toList]
  · rw [← wordText?_eq_self_iff hmarks]
    -- Where the variable has the word as its value, the condition holds.
    let context : Context Unit := ⟨fun _ => pure (some (.str w)), fun _ _ => pure .null⟩
    have hrun := congrArg (fun m => (m.run ()).1)
      ((test_equals_word hv hw context).symm.trans (h context))
    cases hs : wordText? w.toList with
    | none =>
      rw [hs] at hrun
      cases hrun
    | some s =>
      rw [hs] at hrun
      have hequal : (Value.str w).equal (.str (String.ofList s)) = (Value.str w).equal (.str w) :=
        Except.ok.inj hrun
      rw [equal_text (.inl hw.not_number), equal_text (.inl hw.not_number), beq_self_eq_true,
        beq_iff_eq] at hequal
      rw [hequal, String.toList_ofList]

/-- A word with a backslash before an n is compared with a text that has a line feed there. -/
theorem test_equals_escapedFeed :
    ∃ c, Condition.ofText "[x] = a\\nb" = .ok c ∧ ∀ {σ : Type} (context : Context σ),
      c.test context = (fun v => v.equal (.str "a\nb")) <$> Expr.named context "x" "var.x" := by
  have hv : IsVariableName "x".toList :=
    ⟨⟨'x', [], rfl, .inl (by decide), by simp⟩, by decide⟩
  have hn : IsNameText "x" := ⟨by decide, forall_mem_of_all (by decide)⟩
  have hw : IsTextWord "a\\nb" := ⟨by decide, forall_mem_of_all (by decide), by decide, by decide⟩
  have hs : wordText? "a\\nb".toList = some "a\nb".toList := by decide
  refine ⟨_, ofText_equals_word hn hw, fun context => ?_⟩
  rw [test_equals_word hv hw, hs]
  simp only [String.ofList_toList]
  rfl

end TrialLoop
