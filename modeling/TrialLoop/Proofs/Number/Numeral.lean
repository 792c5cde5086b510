import TrialLoop.Proofs.Number.IntText
import TrialLoop.Value.Arith

namespace TrialLoop

theorem exponentPart?_cons {c : Char} {cs : List Char} {e : Option Int}
    (h : exponentPart? (c :: cs) = some e) :
    (c = 'e' ∨ c = 'E') ∧ (splitSign cs).2 ≠ [] ∧ (∀ d ∈ (splitSign cs).2, d.isDigit = true) ∧
      e = some (signed (splitSign cs).1 (exponentValue (splitSign cs).2)) := by
  simp only [exponentPart?] at h
  split at h
  next hc => exact ⟨hc.1, hc.2.1, List.all_eq_true.mp hc.2.2, (Option.some.inj h).symm⟩
  next => cases h

theorem isDigit_head_of_takeWhile {cs : List Char} (h : cs.takeWhile Char.isDigit ≠ []) :
    ∃ d ds, cs = d :: ds ∧ d.isDigit = true := by
  cases cs with
  | nil => exact absurd rfl h
  | cons d ds =>
    refine ⟨d, ds, rfl, Decidable.byContradiction fun hd => ?_⟩
    exact h (List.takeWhile_cons_of_neg hd)

theorem fit?_eq_some_iff {n : Int} {i : Int64} : fit? n = some i ↔ i.toInt = n := by
  constructor
  · intro h
    have hmin : Int64.minValue.toInt = -2 ^ 63 := rfl
    have hmax : Int64.maxValue.toInt = 2 ^ 63 - 1 := rfl
    unfold fit? at h
    split at h
    next hb =>
      rw [← Option.some.inj h]
      exact Int64.toInt_ofInt_of_le (by omega) (by omega)
    next => cases h
  · rintro rfl
    exact fit?_toInt i

namespace Numeral

/-- The value of a numeral: an integer if it is one of 64 bits, else a double. -/
def value (n : Numeral) : Value :=
  match n.int? with
  | some i => .int i
  | none => .float n.float

/-- The numeral without its sign. -/
def magnitude (n : Numeral) : Numeral :=
  { n with negative := false }

theorem magnitude_eq_self {n : Numeral} (hn : n.negative = false) : n.magnitude = n := by
  rw [magnitude, ← hn]

/--
What a numeral is read from, without its sign: digits and a point with digits on one side at least,
or digits alone, and then an exponent part.
-/
inductive Parts (n : Numeral) (cs : List Char) : Prop
  | pointed (after : List Char) (rest : cs.dropWhile Char.isDigit = '.' :: after)
      (fraction : n.fraction = some (after.takeWhile Char.isDigit))
      (digits : n.whole = [] → after.takeWhile Char.isDigit ≠ [])
      (exponent : exponentPart? (after.dropWhile Char.isDigit) = some n.exponent)
  | whole (rest : ∀ after, cs.dropWhile Char.isDigit ≠ '.' :: after) (fraction : n.fraction = none)
      (digits : n.whole ≠ [])
      (exponent : exponentPart? (cs.dropWhile Char.isDigit) = some n.exponent)

theorem parts_of_read {cs : List Char} {n : Numeral} (h : read? cs = some n) :
    n.negative = (splitSign cs).1 ∧ n.whole = (splitSign cs).2.takeWhile Char.isDigit ∧
      n.Parts (splitSign cs).2 := by
  rw [read?] at h
  dsimp only at h
  split at h
  next after hpoint =>
    split at h
    next => cases h
    next hdigits =>
      obtain ⟨e, he, rfl⟩ := Option.map_eq_some_iff.mp h
      exact ⟨rfl, rfl, .pointed after hpoint rfl (fun hw hf => hdigits ⟨hw, hf⟩) he⟩
  next hpoint =>
    split at h
    next => cases h
    next hdigits =>
      obtain ⟨e, he, rfl⟩ := Option.map_eq_some_iff.mp h
      exact ⟨rfl, rfl, .whole hpoint rfl hdigits he⟩

theorem int?_eq_some_iff {n : Numeral} {i : Int64} :
    n.int? = some i ↔ n.fraction = none ∧ n.exponent = none ∧
      ∃ m, wordValue? n.whole = some m ∧ i.toInt = signed n.negative m := by
  unfold int? signedWord?
  split
  next hf he => simp [hf, he, Option.bind_eq_some_iff, fit?_eq_some_iff]
  next hne =>
    constructor
    · intro h
      cases h
    · rintro ⟨hf, he, -⟩
      exact absurd he (hne hf)

/-- A minus sign before the number gives the number with its sign, the least integer aside. -/
theorem neg_magnitude {n : Numeral} (hn : n.negative = true) :
    n.magnitude.value.neg =
      .ok (if n.int? = some Int64.minValue then .float n.float else n.value) := by
  have hfloat : n.float = -n.magnitude.float := by simp [float, magnitude, hn]
  have hmin : Int64.minValue.toInt = -2 ^ 63 := rfl
  cases hm : n.magnitude.int? with
  | some i =>
    obtain ⟨hf, he, m, hw, hi⟩ := int?_eq_some_iff.mp hm
    have him : i.toInt = m := hi
    have hi63 := i.toInt_lt
    have hfit := fit?_eq_some (n := -(m : Int)) (by omega) (by omega)
    have hj := fit?_eq_some_iff.mp hfit
    have hint : n.int? = some (Int64.ofInt (-(m : Int))) :=
      int?_eq_some_iff.mpr ⟨hf, he, m, hw, by rw [hj, hn]; rfl⟩
    have hne : Int64.ofInt (-(m : Int)) ≠ Int64.minValue := by
      intro hmin'
      rw [hmin'] at hj
      omega
    have hvalue : n.magnitude.value = .int i := by simp only [value, hm]
    rw [hvalue, hint, if_neg (by simpa using hne), Value.neg, Value.exactOr, him, hfit, value, hint]
  | none =>
    have hvalue : n.magnitude.value = .float n.magnitude.float := by simp only [value, hm]
    rw [hvalue, Value.neg, ← hfloat]
    cases hint : n.int? with
    | none => simp only [value, hint, reduceCtorEq, if_false]
    | some j =>
      -- only the least integer is one of 64 bits whose magnitude is not
      obtain ⟨hf, he, m, hw, hj⟩ := int?_eq_some_iff.mp hint
      have hjm : j.toInt = -(m : Int) := by rw [hj, hn]; rfl
      have hlow := j.le_toInt
      have hlarge : ¬(m : Int) < 2 ^ 63 := by
        intro hlt
        have hfit := fit?_eq_some_iff.mp (fit?_eq_some (n := m) (by omega) hlt)
        have hsome : n.magnitude.int? = some (Int64.ofInt m) :=
          int?_eq_some_iff.mpr ⟨hf, he, m, hw, hfit⟩
        exact absurd (hm.symm.trans hsome) (by simp)
      have hj' : j = Int64.minValue := Int64.toInt_inj.mp (by omega)
      rw [hj', if_pos rfl]

theorem int?_ne_minValue {n : Numeral} (hn : n.negative = false) :
    n.int? ≠ some Int64.minValue := by
  intro h
  have hmin : Int64.minValue.toInt = -2 ^ 63 := rfl
  obtain ⟨-, -, m, -, hm⟩ := int?_eq_some_iff.mp h
  rw [hn, hmin] at hm
  simp only [signed, Bool.false_eq_true, if_false] at hm
  omega

end Numeral

theorem readNumber?_of_trim {w : String} (h : trim w.toList = w.toList) :
    Value.readNumber? w = (Numeral.read? w.toList).map Numeral.value := by
  rw [Value.readNumber?, h]
  rfl

/-- The text is a numeral with a point that no digit follows. -/
def HasBarePoint (w : String) : Prop :=
  ∃ n, Numeral.read? w.toList = some n ∧ n.fraction = some []

end TrialLoop
