import TrialLoop.Proofs.Number.Digits
import TrialLoop.Proofs.Text.Blank

namespace TrialLoop

theorem splitSign_of_head {cs : List Char} (h : ∀ c ∈ cs.head?, c ≠ '-' ∧ c ≠ '+') :
    splitSign cs = (false, cs) := by
  unfold splitSign
  split
  next => exact absurd rfl (h '-' rfl).1
  next => exact absurd rfl (h '+' rfl).2
  next => rfl

theorem splitSign_digits {ds : List Char} (h : ∀ d ∈ ds, d.isDigit = true) :
    splitSign ds = (false, ds) := by
  refine splitSign_of_head fun d hd => ?_
  have hdigit := h d (List.mem_of_head? hd)
  constructor <;> (rintro rfl; exact absurd hdigit (by decide))

/-- The characters of an integer with a sign and some digits. -/
def signedDigits (negative : Bool) (ds : List Char) : List Char :=
  if negative then '-' :: ds else ds

theorem splitSign_signedDigits {negative : Bool} {ds : List Char}
    (h : ∀ d ∈ ds, d.isDigit = true) : splitSign (signedDigits negative ds) = (negative, ds) := by
  cases negative with
  | false => exact splitSign_digits h
  | true => rfl

theorem Numeral.read?_signedDigits {negative : Bool} {ds : List Char} (hne : ds ≠ [])
    (h : ∀ d ∈ ds, d.isDigit = true) :
    Numeral.read? (signedDigits negative ds) = some ⟨negative, ds, none, none⟩ := by
  obtain ⟨ht, hd⟩ := takeWhile_run h [] (by simp)
  rw [List.append_nil] at ht hd
  simp only [Numeral.read?, splitSign_signedDigits h, ht, hd, if_neg hne, exponentPart?,
    Option.map_some]

theorem fit?_eq_some {n : Int} (hlo : -2 ^ 63 ≤ n) (hhi : n < 2 ^ 63) :
    fit? n = some (Int64.ofInt n) := by
  have hmin : Int64.minValue.toInt = -2 ^ 63 := rfl
  have hmax : Int64.maxValue.toInt = 2 ^ 63 - 1 := rfl
  rw [fit?, if_pos (by omega)]

theorem fit?_toInt (n : Int64) : fit? n.toInt = some n := by
  rw [fit?_eq_some n.le_toInt n.toInt_lt, Int64.ofInt_toInt]

theorem intText_eq (n : Int) :
    intText n = String.ofList (signedDigits (decide (n < 0)) (digits n.natAbs)) := by
  by_cases h : n < 0
  · simp [intText, signedDigits, h]
  · simp [intText, signedDigits, h]

theorem intText_natCast (n : Nat) : intText n = String.ofList (digits n) :=
  congrArg String.ofList (if_neg (Int.not_lt.mpr (Int.natCast_nonneg n)))

theorem readNumber?_signedDigits {negative : Bool} {ds : List Char} {n : Int64} (hne : ds ≠ [])
    (h : ∀ d ∈ ds, d.isDigit = true) (hn : n.toInt = signed negative (digitsValue ds)) :
    Value.readNumber? (String.ofList (signedDigits negative ds)) = some (.int n) := by
  have hblank : ∀ c ∈ signedDigits negative ds, isBlank c = false := by
    intro c hc
    cases negative with
    | false => exact not_blank_of_digit (h c hc)
    | true =>
      rcases List.mem_cons.mp hc with rfl | hc
      · decide
      · exact not_blank_of_digit (h c hc)
  have hv : digitsValue ds < 10 ^ 20 := by
    have hlo := n.le_toInt
    have hhi := n.toInt_lt
    cases negative with
    | false =>
      simp only [signed, Bool.false_eq_true, if_false] at hn
      omega
    | true =>
      simp only [signed, if_true] at hn
      omega
  simp only [Value.readNumber?, String.toList_ofList, trim_eq_self_of_all hblank,
    Numeral.read?_signedDigits hne h, Option.map_some, Numeral.int?, signedWord?,
    wordValue?_eq_some h hv, Option.bind_some, ← hn, fit?_toInt]

/-- The text of an integer is read as this integer. -/
theorem readNumber?_intText (n : Int64) : Value.readNumber? (intText n.toInt) = some (.int n) := by
  rw [intText_eq]
  refine readNumber?_signedDigits (digits_ne_nil _) (fun d hd => isDigit_of_mem_digits hd) ?_
  rw [digitsValue_digits]
  by_cases h : n.toInt < 0
  · simp only [signed, h, decide_true, if_true]
    omega
  · simp only [signed, h, decide_false, Bool.false_eq_true, if_false]
    omega

theorem natural?_eq_some_iff {cs : List Char} {n : Nat} :
    natural? cs = some n ↔ ∃ ds, (cs = ds ∨ cs = '+' :: ds) ∧ ds ≠ [] ∧
      (∀ d ∈ ds, d.isDigit = true) ∧ digitsValue ds = n ∧ n < 2 ^ 64 := by
  have hrow : ∀ ds : List Char, (if ds ≠ [] ∧ ds.all Char.isDigit = true then
      (wordValue? ds).filter (· < 1 <<< 64) else none) = some n ↔
        ds ≠ [] ∧ (∀ d ∈ ds, d.isDigit = true) ∧ digitsValue ds = n ∧ n < 2 ^ 64 := by
    intro ds
    rw [Option.ite_none_right_eq_some, Option.filter_eq_some_iff, List.all_eq_true, and_assoc]
    refine and_congr_right fun _ => and_congr_right fun hds => ?_
    constructor
    · rintro ⟨hvalue, hfits⟩
      exact ⟨(wordValue?_value hvalue).symm, by simpa using hfits⟩
    · rintro ⟨rfl, hfits⟩
      exact ⟨wordValue?_eq_some hds (by omega), by simpa using hfits⟩
  unfold natural?
  simp only [hrow]
  split
  next ds =>
    constructor
    · exact fun h => ⟨ds, .inr rfl, h⟩
    · rintro ⟨es, rfl | he, h⟩
      · exact absurd (h.2.1 '+' (by simp)) (by decide)
      · cases he
        exact h
  next hplus =>
    constructor
    · exact fun h => ⟨_, .inl rfl, h⟩
    · rintro ⟨es, rfl | he, h⟩
      · exact h
      · exact absurd he (hplus es)

/-- The text of a number of 64 bits is read as this number. -/
theorem natural?_intText {n : Nat} (h : n < 2 ^ 64) : natural? (intText n).toList = some n := by
  rw [intText_natCast, String.toList_ofList]
  exact natural?_eq_some_iff.mpr ⟨digits n, .inl rfl, digits_ne_nil n,
    fun d hd => isDigit_of_mem_digits hd, digitsValue_digits n, h⟩

end TrialLoop
