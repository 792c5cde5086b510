import TrialLoop.Text.Quoted

namespace TrialLoop

theorem unescapeMark_cons {mark c : Char} (h : c ≠ '\\') (cs : List Char) :
    unescapeMark mark (c :: cs) = c :: unescapeMark mark cs := by
  rw [unescapeMark]
  intro _ _ he
  exact absurd he h

theorem mem_unescapeMark {mark c : Char} {w : List Char} (h : c ∈ unescapeMark mark w) :
    c ∈ w := by
  fun_induction unescapeMark mark w with
  | case1 d w _ ih =>
    exact (List.mem_cons.mp h).elim (· ▸ by simp) fun h => by simp [ih h]
  | case2 d w _ ih => exact (List.mem_cons.mp h).elim (· ▸ by simp) fun h => by simp [ih h]
  | case3 d w _ ih => exact (List.mem_cons.mp h).elim (· ▸ by simp) fun h => by simp [ih h]
  | case4 => cases h

theorem length_unescapeMark_le (mark : Char) (w : List Char) :
    (unescapeMark mark w).length ≤ w.length := by
  fun_induction unescapeMark mark w with
  | case1 d w _ ih =>
    simp only [List.length_cons]
    omega
  | case2 d w _ ih => exact Nat.succ_le_succ ih
  | case3 d w _ ih => exact Nat.succ_le_succ ih
  | case4 => exact Nat.le_refl 0

theorem unescapeMark_eq_nil {mark : Char} {w : List Char} (h : unescapeMark mark w = []) :
    w = [] := by
  revert h
  fun_cases unescapeMark mark w with
  | case1 => nofun
  | case2 => nofun
  | case3 => nofun
  | case4 => exact fun _ => rfl

/-- A character that no backslash takes along parts a text in two. -/
theorem unescapeMark_append {mark c : Char} (hb : c ≠ '\\') (hm : c ≠ mark) (w cs : List Char) :
    unescapeMark mark (w ++ c :: cs) = unescapeMark mark w ++ c :: unescapeMark mark cs := by
  fun_induction unescapeMark mark w with
  | case1 d w hd ih => simp [unescapeMark, hd, ih]
  | case2 d w hd ih =>
    rw [List.cons_append, List.cons_append, unescapeMark, if_neg hd, ← List.cons_append, ih]
    rfl
  | case3 d w hd ih =>
    by_cases hs : d = '\\'
    · obtain rfl : w = [] := by
        cases w with
        | nil => rfl
        | cons e w => exact (hd e w hs rfl).elim
      subst hs
      have hkept : ¬(c = '\\' ∨ c = mark) := not_or.mpr ⟨hb, hm⟩
      simp only [List.nil_append, List.cons_append, unescapeMark, if_neg hkept]
      rw [unescapeMark_cons hb]
    · rw [List.cons_append, unescapeMark_cons hs, ih]
      rfl
  | case4 => exact unescapeMark_cons hb cs

theorem escapeQuotes_cons_special {c : Char} (h : c = '\\' ∨ c = '"') (cs : List Char) :
    escapeQuotes (c :: cs) = '\\' :: c :: escapeQuotes cs :=
  if_pos h

theorem escapeQuotes_cons_plain {c : Char} (h : ¬(c = '\\' ∨ c = '"')) (cs : List Char) :
    escapeQuotes (c :: cs) = c :: escapeQuotes cs :=
  if_neg h

theorem escapeQuotes_eq_self {w : List Char} (h : ∀ c ∈ w, c ≠ '\\' ∧ c ≠ '"') :
    escapeQuotes w = w := by
  induction w with
  | nil => rfl
  | cons c cs ih =>
    have hc := h c (by simp)
    rw [escapeQuotes_cons_plain (not_or.mpr hc), ih fun d hd => h d (by simp [hd])]

/-- The backslashes are all that escapes add. -/
theorem mem_escapeQuotes {c : Char} (h : c ≠ '\\') {cs : List Char} :
    c ∈ escapeQuotes cs ↔ c ∈ cs := by
  induction cs with
  | nil => exact Iff.rfl
  | cons d cs ih =>
    by_cases hd : d = '\\' ∨ d = '"'
    · rw [escapeQuotes_cons_special hd]
      simp [h, ih]
    · rw [escapeQuotes_cons_plain hd, List.mem_cons, List.mem_cons, ih]

theorem feed_mem_quote {s : String} : '\n' ∈ (quote s).toList ↔ '\n' ∈ s.toList := by
  have hfeed : '\n' ≠ '\\' := by decide
  simp [quote, mem_escapeQuotes hfeed]

theorem unescapeMark_escapeQuotes (cs : List Char) :
    unescapeMark '"' (escapeQuotes cs) = cs := by
  induction cs with
  | nil => rfl
  | cons c cs ih =>
    by_cases hc : c = '\\' ∨ c = '"'
    · rw [escapeQuotes_cons_special hc, unescapeMark, if_pos hc, ih]
    · have hb : c ≠ '\\' := fun h => hc (Or.inl h)
      rw [escapeQuotes_cons_plain hc, unescapeMark_cons hb, ih]

theorem enclosingMark?_quoted (cs : List Char) :
    enclosingMark? ('"' :: cs ++ ['"']) = some '"' := by
  simp [enclosingMark?, isQuoteMark]

theorem toList_quote (s : String) :
    (quote s).toList = '"' :: escapeQuotes s.toList ++ ['"'] := by
  rw [quote, String.toList_ofList]

theorem exists_enclosed {s : String} {mark : Char} (h : enclosingMark? s.toList = some mark) :
    isQuoteMark mark = true ∧ ∃ inner, s.toList = mark :: inner ++ [mark] ∧
      (unquote s).toList = unescapeMark mark inner := by
  obtain ⟨hmark, inner, hs⟩ :
      isQuoteMark mark = true ∧ ∃ inner, s.toList = mark :: inner ++ [mark] := by
    cases hs : s.toList with
    | nil => simp [hs, enclosingMark?] at h
    | cons c cs =>
      simp only [hs, enclosingMark?, Option.ite_none_right_eq_some, Option.some.injEq] at h
      obtain ⟨⟨hmark, hlast⟩, rfl⟩ := h
      obtain ⟨inner, rfl⟩ := List.getLast?_eq_some_iff.mp hlast
      exact ⟨hmark, inner, rfl⟩
  refine ⟨hmark, inner, hs, ?_⟩
  rw [unquote, h]
  simp [hs]

/-- The text in quote marks is shorter than the text with them. -/
theorem unquote_eq_self_iff {s : String} : unquote s = s ↔ enclosingMark? s.toList = none := by
  constructor
  · intro he
    cases hmark : enclosingMark? s.toList with
    | none => rfl
    | some mark =>
      obtain ⟨-, inner, hs, hinner⟩ := exists_enclosed hmark
      have hlength := length_unescapeMark_le mark inner
      rw [← hinner, he, hs, List.length_append, List.length_cons] at hlength
      omega
  · intro hmark
    rw [unquote, hmark]

/-- What is put in quotes is taken out of them as it was. -/
theorem unquote_quote (s : String) : unquote (quote s) = s := by
  have hm : enclosingMark? (quote s).toList = some '"' := by
    rw [toList_quote]
    exact enclosingMark?_quoted _
  rw [unquote, hm]
  simp [quote, unescapeMark_escapeQuotes]

end TrialLoop
