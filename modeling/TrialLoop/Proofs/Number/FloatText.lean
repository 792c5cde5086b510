import TrialLoop.Proofs.Number.IntText

namespace TrialLoop

/-- The characters that the text of a double may have: letters, digits, points and signs. -/
def IsFloatChar (c : Char) : Prop :=
  c.isAlphanum = true ∨ c = '.' ∨ c = '-'

theorem isFloatChar_of_digit {c : Char} (h : c.isDigit = true) : IsFloatChar c :=
  .inl (by simp [Char.isAlphanum, h])

theorem isFloatChar_intText {n : Int} {c : Char} (h : c ∈ (intText n).toList) : IsFloatChar c := by
  rw [intText_eq, String.toList_ofList] at h
  by_cases hn : n < 0
  · rcases List.mem_cons.mp (by simpa [signedDigits, hn] using h) with rfl | h
    · exact .inr (.inr rfl)
    · exact isFloatChar_of_digit (isDigit_of_mem_digits h)
  · exact isFloatChar_of_digit (isDigit_of_mem_digits (by simpa [signedDigits, hn] using h))

theorem isFloatChar_pointed {ds : List Char} (hds : ∀ d ∈ ds, IsFloatChar d) {n : Nat} {c : Char}
    (h : c ∈ ds.take n ++ '.' :: ds.drop n) : IsFloatChar c := by
  rcases List.mem_append.mp h with h | h
  · exact hds c (List.mem_of_mem_take h)
  rcases List.mem_cons.mp h with rfl | h
  · exact .inr (.inl rfl)
  · exact hds c (List.mem_of_mem_drop h)

/-- Without an exponent part a number has its digits, zeros and a point. -/
theorem Decimal.mem_positional {ds : List Char} {exponent pointBelow : Int} {c : Char}
    (h : c ∈ positional ds exponent pointBelow) : c ∈ ds ∨ c = '0' ∨ c = '.' := by
  simp only [positional] at h
  split at h
  · rcases List.mem_append.mp h with h | h
    · exact (List.mem_append.mp h).imp_right fun h => .inl (List.eq_of_mem_replicate h)
    · split at h
      · simp only [List.mem_cons, List.not_mem_nil, or_false] at h
        exact .inr h.symm
      · cases h
  split at h
  · rcases List.mem_append.mp h with h | h
    · exact .inl (List.mem_of_mem_take h)
    rcases List.mem_cons.mp h with h | h
    · exact .inr (.inr h)
    · exact .inl (List.mem_of_mem_drop h)
  · rcases List.mem_cons.mp h with h | h
    · exact .inr (.inl h)
    rcases List.mem_cons.mp h with h | h
    · exact .inr (.inr h)
    · exact (List.mem_append.mp h).elim (fun h => .inr (.inl (List.eq_of_mem_replicate h))) .inl

theorem Decimal.isFloatChar_positional {ds : List Char} (hds : ∀ d ∈ ds, IsFloatChar d)
    {exponent pointBelow : Int} {c : Char} (h : c ∈ positional ds exponent pointBelow) :
    IsFloatChar c := by
  rcases mem_positional h with h | rfl | rfl
  · exact hds c h
  · exact isFloatChar_of_digit (by decide)
  · exact .inr (.inl rfl)

theorem Decimal.isFloatChar_withExponent {ds : List Char} (hds : ∀ d ∈ ds, IsFloatChar d)
    {exponent : Int} {c : Char} (h : c ∈ withExponent ds exponent) : IsFloatChar c := by
  rcases List.mem_append.mp h with h | h
  · split at h
    · exact hds c h
    · exact isFloatChar_pointed hds h
  · rcases List.mem_cons.mp h with rfl | h
    · exact .inl (by decide)
    · exact isFloatChar_intText h

theorem Decimal.isFloatChar_text {ds : List Char} (hds : ∀ d ∈ ds, IsFloatChar d)
    {style : FloatStyle} {exponent : Int} {c : Char} (h : c ∈ text style ds exponent) :
    IsFloatChar c := by
  simp only [text] at h
  split at h
  · exact isFloatChar_positional hds h
  · exact isFloatChar_withExponent hds h

theorem Decimal.text_ne_nil {ds : List Char} (hne : ds ≠ []) (style : FloatStyle)
    (exponent : Int) : text style ds exponent ≠ [] := by
  simp only [text]
  split
  · simp only [positional]
    split
    · simp [hne]
    split
    · simp
    · simp
  · simp [withExponent]

/-- A whole number with many digits has neither a point nor an exponent part. -/
theorem Decimal.text_whole {style : FloatStyle} {ds : List Char} {exponent : Int}
    (hexponent : 0 ≤ exponent) (hlowest : style.lowest ≤ ds.length - 1 + exponent)
    (hpoint : style.pointBelow ≤ ds.length - 1 + exponent)
    (hhighest : ds.length - 1 + exponent < style.highest) :
    text style ds exponent = ds ++ List.replicate exponent.toNat '0' := by
  have hnone : ¬(ds.length + exponent - 1 < style.pointBelow) := by omega
  simp only [text, positional, if_pos (And.intro hlowest hhighest), if_pos hexponent, if_neg hnone,
    List.append_nil]

/-- The text of a double after its sign. -/
def magnitudeText (style : FloatStyle) (x : Float) : List Char :=
  if x.isInf then ['i', 'n', 'f']
  else if x == 0.0 then Decimal.text style ['0'] 0
  else Decimal.text style (digits (shortestDecimal x).coefficient) (shortestDecimal x).exponent

theorem floatText_eq (style : FloatStyle) (x : Float) :
    floatText style x = if x.isNaN then "NaN"
      else String.ofList (signedDigits (hasMinus x) (magnitudeText style x)) := by
  rfl

theorem magnitudeText_ne_nil (style : FloatStyle) (x : Float) : magnitudeText style x ≠ [] := by
  unfold magnitudeText
  split
  · simp
  split
  · exact Decimal.text_ne_nil (List.cons_ne_nil _ _) style 0
  · exact Decimal.text_ne_nil (digits_ne_nil _) style _

theorem isFloatChar_magnitudeText {style : FloatStyle} {x : Float} {c : Char}
    (h : c ∈ magnitudeText style x) : IsFloatChar c := by
  unfold magnitudeText at h
  split at h
  · simp only [List.mem_cons, List.not_mem_nil, or_false] at h
    rcases h with rfl | rfl | rfl <;> exact .inl (by decide)
  split at h
  · refine Decimal.isFloatChar_text ?_ h
    intro d hd
    exact List.mem_singleton.mp hd ▸ isFloatChar_of_digit (by decide)
  · exact Decimal.isFloatChar_text
      (fun d hd => isFloatChar_of_digit (isDigit_of_mem_digits hd)) h

theorem floatText_ne_empty (style : FloatStyle) (x : Float) : floatText style x ≠ "" := by
  rw [floatText_eq]
  split
  · decide
  intro he
  have hl := congrArg String.toList he
  have hne := magnitudeText_ne_nil style x
  cases hm : hasMinus x with
  | true => simp [signedDigits, hm] at hl
  | false => simp [signedDigits, hm, hne] at hl

theorem isFloatChar_floatText {style : FloatStyle} {x : Float} {c : Char}
    (h : c ∈ (floatText style x).toList) : IsFloatChar c := by
  rw [floatText_eq] at h
  split at h
  · have hall : ∀ d ∈ "NaN".toList, d.isAlphanum = true := forall_mem_of_all (by decide)
    exact .inl (hall c h)
  rw [String.toList_ofList] at h
  cases hm : hasMinus x with
  | true =>
    rcases List.mem_cons.mp (by simpa [signedDigits, hm] using h) with rfl | h
    · exact .inr (.inr rfl)
    · exact isFloatChar_magnitudeText h
  | false => exact isFloatChar_magnitudeText (by simpa [signedDigits, hm] using h)

end TrialLoop
