import TrialLoop.Interpolation.Reference
import TrialLoop.Proofs.Expr.Balance
import TrialLoop.Proofs.Expr.Soundness

namespace TrialLoop

/-- The scan for the end of an inline expression takes the character only as one more place. -/
def IsPlain (c : Char) : Prop :=
  c ≠ '\\' ∧ c ≠ '[' ∧ c ≠ ']' ∧ isQuoteMark c = false

instance (c : Char) : Decidable (IsPlain c) := inferInstanceAs (Decidable (_ ∧ _))

theorem isPlain_of_class {p : Char → Bool} {c : Char} (h : p c = true)
    (hp : (['\\', '[', ']', '"', '\''].any p) = false) : IsPlain c := by
  have hne : ∀ d ∈ ['\\', '[', ']', '"', '\''], c ≠ d := by
    rintro d hd rfl
    exact List.any_eq_false.mp hp c hd h
  simp only [List.forall_mem_cons] at hne
  exact ⟨hne.1, hne.2.1, hne.2.2.1, by simp [isQuoteMark, hne.2.2.2.1, hne.2.2.2.2.1]⟩

/-- The scan goes over the characters, and has as many open brackets as given before and after. -/
def Scanned (cs : List Char) (depth after : Nat) : Prop :=
  ∀ place tail, closingBracket? place depth none (cs ++ tail) =
    closingBracket? (place + cs.length) after none tail

theorem scanned_nil (depth : Nat) : Scanned [] depth depth := fun _ _ => rfl

theorem Scanned.append {cs ds : List Char} {depth middle after : Nat}
    (h : Scanned cs depth middle) (h' : Scanned ds middle after) :
    Scanned (cs ++ ds) depth after := by
  intro place tail
  rw [List.append_assoc, h, h', List.length_append, Nat.add_assoc]

theorem closingBracket?_cons {c : Char} (h : c ≠ '\\') (place depth : Nat) (mark : Option Char)
    (cs : List Char) :
    closingBracket? place depth mark (c :: cs) =
      match mark with
      | some mark => closingBracket? (place + 1) depth (if c = mark then none else some mark) cs
      | none =>
        if isQuoteMark c then closingBracket? (place + 1) depth (some c) cs
        else if c = '[' then closingBracket? (place + 1) (depth + 1) none cs
        else if c = ']' then
          match depth with
          | 0 => some place
          | depth + 1 => closingBracket? (place + 1) depth none cs
        else closingBracket? (place + 1) depth none cs := by
  rw [closingBracket?.eq_def]
  split
  next he => cases he
  next he =>
    cases he
    exact absurd rfl h
  next he =>
    cases he
    rfl
  next he =>
    cases he
    rfl

theorem closingBracket?_plain {c : Char} (h : IsPlain c) (place depth : Nat) (cs : List Char) :
    closingBracket? place depth none (c :: cs) = closingBracket? (place + 1) depth none cs := by
  obtain ⟨hb, ho, hc, hq⟩ := h
  rw [closingBracket?_cons hb]
  simp only [hq, ho, hc, Bool.false_eq_true, if_false]

theorem scanned_plain {cs : List Char} (h : ∀ c ∈ cs, IsPlain c) (depth : Nat) :
    Scanned cs depth depth := by
  induction cs with
  | nil => exact scanned_nil depth
  | cons c cs ih =>
    intro place tail
    rw [List.cons_append, closingBracket?_plain (h c List.mem_cons_self),
      ih (fun d hd => h d (List.mem_cons_of_mem c hd)), List.length_cons]
    congr 1
    omega

/-- After a quote mark the scan goes on behind the mark that ends the quoted text. -/
theorem closingBracket?_quoted {mark : Char} {cs s rest : List Char}
    (hm : isQuoteMark mark = true) (h : quotedText? mark cs = some (s, rest)) :
    ∃ us, cs = us ++ rest ∧ ∀ place depth tail,
      closingBracket? place depth (some mark) (us ++ tail) =
        closingBracket? (place + us.length) depth none tail := by
  fun_induction quotedText? mark cs generalizing s with
  | case1 => cases h
  | case2 c cs ih =>
    obtain ⟨⟨t, r⟩, ht, he⟩ := Option.map_eq_some_iff.mp h
    cases he
    obtain ⟨us, rfl, hus⟩ := ih ht
    refine ⟨'\\' :: c :: us, rfl, fun place depth tail => ?_⟩
    rw [List.cons_append, List.cons_append, closingBracket?, hus]
    simp only [List.length_cons]
    congr 1
    omega
  | case3 cs hne =>
    cases h
    refine ⟨[mark], rfl, fun place depth tail => ?_⟩
    have hb : mark ≠ '\\' := by
      rintro rfl
      revert hm
      decide
    rw [List.singleton_append, closingBracket?_cons hb]
    simp only [if_true, List.length_singleton]
  | case4 c cs hne hc ih =>
    obtain ⟨⟨t, r⟩, ht, he⟩ := Option.map_eq_some_iff.mp h
    cases he
    obtain ⟨us, rfl, hus⟩ := ih ht
    refine ⟨c :: us, rfl, fun place depth tail => ?_⟩
    have hb : c ≠ '\\' := by
      rintro rfl
      rcases hrest : us ++ rest with _ | ⟨d, ds⟩
      · rw [hrest] at ht
        cases ht
      · exact hne d ds rfl hrest
    rw [List.cons_append, closingBracket?_cons hb]
    simp only [if_neg hc, hus, List.length_cons]
    congr 1
    omega

theorem scanned_quoted {mark : Char} {cs s rest : List Char} (hm : isQuoteMark mark = true)
    (h : quotedText? mark cs = some (s, rest)) (depth : Nat) :
    ∃ us, mark :: cs = us ++ rest ∧ Scanned us depth depth := by
  obtain ⟨us, rfl, hus⟩ := closingBracket?_quoted hm h
  refine ⟨mark :: us, rfl, fun place tail => ?_⟩
  have hb : mark ≠ '\\' := by
    rintro rfl
    revert hm
    decide
  rw [List.cons_append, closingBracket?_cons hb]
  simp only [hm, if_true, hus, List.length_cons]
  congr 1
  omega

theorem scanned_open (depth : Nat) : Scanned ['['] depth (depth + 1) := fun _ _ => rfl

theorem scanned_close (depth : Nat) : Scanned [']'] (depth + 1) depth := fun _ _ => rfl

/-- A text starts with some plain characters, after which the rest comes. -/
def PlainBefore (cs rest : List Char) : Prop :=
  ∃ us, cs = us ++ rest ∧ ∀ c ∈ us, IsPlain c

theorem PlainBefore.refl (cs : List Char) : PlainBefore cs cs :=
  ⟨[], rfl, fun _ h => by cases h⟩

theorem PlainBefore.cons {c : Char} {cs rest : List Char} (hc : IsPlain c)
    (h : PlainBefore cs rest) : PlainBefore (c :: cs) rest := by
  obtain ⟨us, rfl, hus⟩ := h
  exact ⟨c :: us, rfl, List.forall_mem_cons.mpr ⟨hc, hus⟩⟩

theorem PlainBefore.trans {cs middle rest : List Char} (h : PlainBefore cs middle)
    (h' : PlainBefore middle rest) : PlainBefore cs rest := by
  obtain ⟨us, rfl, hus⟩ := h
  obtain ⟨vs, rfl, hvs⟩ := h'
  exact ⟨us ++ vs, (List.append_assoc us vs rest).symm, List.forall_mem_append.mpr ⟨hus, hvs⟩⟩

theorem PlainBefore.scanned {cs rest : List Char} (h : PlainBefore cs rest) (depth : Nat) :
    ∃ us, cs = us ++ rest ∧ Scanned us depth depth := by
  obtain ⟨us, rfl, hus⟩ := h
  exact ⟨us, rfl, scanned_plain hus depth⟩

theorem plainBefore_dropWhile {p : Char → Bool}
    (hp : (['\\', '[', ']', '"', '\''].any p) = false) (cs : List Char) :
    PlainBefore cs (cs.dropWhile p) := by
  refine ⟨cs.takeWhile p, List.takeWhile_append_dropWhile.symm, fun c hc => ?_⟩
  exact isPlain_of_class (List.all_eq_true.mp List.all_takeWhile c hc) hp

theorem plainBefore_digits (cs : List Char) : PlainBefore cs (cs.dropWhile Char.isDigit) :=
  plainBefore_dropWhile (by decide) cs

theorem splitSign_plain (cs : List Char) : PlainBefore cs (splitSign cs).2 := by
  unfold splitSign
  split
  next => exact (PlainBefore.refl _).cons (by decide)
  next => exact (PlainBefore.refl _).cons (by decide)
  next => exact .refl _

theorem splitFraction_plain (cs : List Char) : PlainBefore cs (splitFraction cs).2 := by
  unfold splitFraction
  split
  next =>
    split
    next => exact (plainBefore_digits _).cons (by decide)
    next => exact .refl _
  next => exact .refl _

theorem splitExponent_plain (cs : List Char) : PlainBefore cs (splitExponent cs).2 := by
  cases cs with
  | nil => exact .refl _
  | cons c cs =>
    simp only [splitExponent]
    split
    next h =>
      have hc : IsPlain c := by
        obtain ⟨rfl | rfl, -⟩ := h <;> decide
      exact ((splitSign_plain cs).trans (plainBefore_digits _)).cons hc
    next => exact .refl _

theorem numberToken_plain (cs : List Char) : PlainBefore cs (numberToken cs).2 := by
  have h := (plainBefore_digits cs).trans
    ((splitFraction_plain _).trans (splitExponent_plain _))
  rw [numberToken]
  dsimp only
  split <;> exact h

theorem numberToken_openAfter? (cs : List Char) (depth : Nat) :
    (numberToken cs).1.openAfter? depth = some depth := by
  rw [numberToken]
  dsimp only
  split <;> rfl

theorem wordToken_openAfter? (s : String) (depth : Nat) :
    (wordToken s).openAfter? depth = some depth := by
  unfold wordToken
  split
  · rfl
  split
  · rfl
  split <;> rfl

/-- The scan goes over an operator or mark as the brackets of its token say. -/
theorem symbolToken_scanned {c : Char} {cs rest : List Char} {t : Token} {depth after : Nat}
    (h : symbolToken c cs = (t, rest)) (ht : t.openAfter? depth = some after) :
    ∃ us, c :: cs = us ++ rest ∧ Scanned us depth after := by
  by_cases ho : c = '['
  · subst ho
    cases h
    cases ht
    exact ⟨['['], rfl, scanned_open depth⟩
  by_cases hc : c = ']'
  · subst hc
    cases h
    cases depth with
    | zero => cases ht
    | succ depth =>
      cases ht
      exact ⟨[']'], rfl, scanned_close _⟩
  have hplain : PlainBefore (c :: cs) rest ∧ after = depth := by
    unfold symbolToken at h
    split at h <;> cases h
    all_goals first
      | exact absurd rfl ho
      | exact absurd rfl hc
      | cases ht
    all_goals first
      | exact ⟨(PlainBefore.refl _).cons (by decide), rfl⟩
      | exact ⟨((PlainBefore.refl _).cons (by decide)).cons (by decide), rfl⟩
  rw [hplain.2]
  exact hplain.1.scanned depth

/-- The scan goes over the text of a token as its brackets say. -/
theorem readToken_scanned {c : Char} {cs rest : List Char} {t : Token} {depth after : Nat}
    (h : readToken c cs = .ok (t, rest)) (ht : t.openAfter? depth = some after) :
    ∃ us, c :: cs = us ++ rest ∧ Scanned us depth after := by
  unfold readToken at h
  split at h
  next =>
    have hn := Except.ok.inj h
    have ho := numberToken_openAfter? (c :: cs) depth
    rw [hn] at ho
    cases ho.symm.trans ht
    have hplain := numberToken_plain (c :: cs)
    rw [hn] at hplain
    exact hplain.scanned _
  split at h
  next hm =>
    split at h
    next s rest' hs =>
      cases h
      cases ht
      exact scanned_quoted hm hs _
    next => cases h
  split at h
  next hl =>
    cases h
    cases (wordToken_openAfter? _ depth).symm.trans ht
    have hfirst : IsPlain c := isPlain_of_class (p := fun d => isLetter d || d == '_') hl (by decide)
    exact ((plainBefore_dropWhile (by decide) cs).cons hfirst).scanned _
  next => exact symbolToken_scanned (Except.ok.inj h) ht

/-- The scan goes over a text as the brackets of its tokens say. -/
theorem tokens_scanned {cs : List Char} {ts : List Token} {depth after : Nat}
    (h : tokens cs = .ok ts) (ht : openAfter? depth ts = some after) : Scanned cs depth after := by
  fun_induction tokens cs generalizing ts depth with
  | case1 cs hblanks =>
    cases h
    cases ht
    have hplain : PlainBefore cs (dropBlanks cs) := plainBefore_dropWhile (by decide) cs
    obtain ⟨us, hus, hscan⟩ := hplain.scanned _
    rw [hblanks, List.append_nil] at hus
    rwa [hus]
  | case2 => cases h
  | case3 cs c following hblanks t rest htoken ih =>
    cases hr : tokens rest with
    | error cause =>
      rw [hr] at h
      cases h
    | ok more =>
      rw [hr] at h
      cases h
      rw [openAfter?_cons, Option.bind_eq_bind, Option.bind_eq_some_iff] at ht
      obtain ⟨middle, hmiddle, ht⟩ := ht
      have hplain : PlainBefore cs (dropBlanks cs) := plainBefore_dropWhile (by decide) cs
      obtain ⟨us, hus, hblank⟩ := hplain.scanned depth
      obtain ⟨vs, hvs, hfirst⟩ := readToken_scanned htoken hmiddle
      rw [hus, hblanks, hvs]
      exact hblank.append (hfirst.append (ih hr ht))

/-- The bracket after an expression is the one that closes it. -/
theorem closingBracket?_of_read {source : List Char} {e : Expr}
    (h : Expr.read (String.ofList source) = .ok e) (rest : List Char) :
    closingBracket? 0 0 none (source ++ ']' :: rest) = some source.length := by
  rw [Expr.read] at h
  obtain ⟨ts, ht, he⟩ := bind_eq_ok h
  rw [String.toList_ofList] at ht
  have hscan := tokens_scanned ht ((ofTokens_sound he).openAfter?_eq 0)
  rw [hscan, Nat.zero_add]
  rfl

/-- No backslash stands directly before a bracket. -/
def NoEscapedBracket (cs : List Char) : Prop :=
  ¬['\\', '['] <:+: cs ∧ ¬['\\', ']'] <:+: cs

instance (cs : List Char) : Decidable (NoEscapedBracket cs) := inferInstanceAs (Decidable (_ ∧ _))

theorem unescapeBrackets_eq_self {cs : List Char} (h : NoEscapedBracket cs) :
    unescapeBrackets cs = cs := by
  fun_induction unescapeBrackets cs with
  | case1 c cs hc ih =>
    rcases hc with rfl | rfl
    · exact absurd ⟨[], cs, rfl⟩ h.1
    · exact absurd ⟨[], cs, rfl⟩ h.2
  | case2 c cs hc ih =>
    rw [ih]
    exact ⟨fun hi => h.1 (hi.trans (List.suffix_cons _ _).isInfix),
      fun hi => h.2 (hi.trans (List.suffix_cons _ _).isInfix)⟩
  | case3 c cs _ ih =>
    rw [ih]
    exact ⟨fun hi => h.1 (hi.trans (List.suffix_cons _ _).isInfix),
      fun hi => h.2 (hi.trans (List.suffix_cons _ _).isInfix)⟩
  | case4 => rfl

end TrialLoop
