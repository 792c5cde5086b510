import TrialLoop.Proofs.Number.FloatText

namespace TrialLoop

namespace RoundingInterval

variable {r : RoundingInterval}

theorem le_high_of_holds {n : Nat} (h : r.holds n = true) : n ≤ r.high := by
  unfold holds at h
  split at h
  next => exact of_decide_eq_true (Bool.and_eq_true_iff.mp h).2
  next => exact Nat.le_of_lt (of_decide_eq_true (Bool.and_eq_true_iff.mp h).2)

theorem nearest?_le_high {c : Nat} (h : r.nearest? = some c) : c * r.denominator ≤ r.high := by
  unfold nearest? at h
  dsimp only at h
  split at h
  next hup =>
    cases h
    exact le_high_of_holds (Bool.and_eq_true_iff.mp hup).1
  next =>
    split at h
    next hdown =>
      cases h
      exact le_high_of_holds hdown
    next => cases h

/-- The search ends on one of its grids, with a number that is not above the interval. -/
theorem search_bounds (hvalue : r.value ≤ r.high) (grids : Nat) (top : Int) :
    let d := r.search grids top
    top - grids ≤ d.exponent ∧ d.exponent ≤ top ∧
      d.coefficient * (r.denominator * 10 ^ d.exponent.toNat) ≤
        r.high * 10 ^ (-d.exponent).toNat := by
  induction grids generalizing top with
  | zero =>
    refine ⟨by simp [search], by simp [search], ?_⟩
    exact Nat.le_trans (Nat.div_mul_le_self _ _) (Nat.mul_le_mul_right _ hvalue)
  | succ grids ih =>
    rw [search]
    split
    next c hc =>
      have hlow : top - ((grids + 1 : Nat) : Int) ≤ top := by omega
      exact ⟨hlow, Int.le_refl top, nearest?_le_high hc⟩
    next =>
      obtain ⟨hlow, hhigh, hbound⟩ := ih (top - 1)
      exact ⟨by omega, by omega, hbound⟩

end RoundingInterval

/-- The first digit of a number below a power of ten stands at a lower power. -/
theorem first_digit_lt {n denominator high k : Nat} {e : Int} (hn : n ≠ 0)
    (hbound : n * (denominator * 10 ^ e.toNat) ≤ high * 10 ^ (-e).toNat)
    (hhigh : high < denominator * 10 ^ k) : ((digits n).length : Int) - 1 + e < k := by
  have hpower : denominator * 10 ^ ((digits n).length - 1 + e.toNat) <
      denominator * 10 ^ (k + (-e).toNat) := by
    calc
      _ = 10 ^ ((digits n).length - 1) * (denominator * 10 ^ e.toNat) := by
        rw [Nat.pow_add, Nat.mul_left_comm]
      _ ≤ n * (denominator * 10 ^ e.toNat) := Nat.mul_le_mul_right _ (pow_length_digits_le hn)
      _ ≤ high * 10 ^ (-e).toNat := hbound
      _ < denominator * 10 ^ k * 10 ^ (-e).toNat :=
        Nat.mul_lt_mul_of_pos_right hhigh (Nat.pow_pos (by decide))
      _ = denominator * 10 ^ (k + (-e).toNat) := by rw [Nat.pow_add, Nat.mul_assoc]
  have hexponent := (Nat.pow_lt_pow_iff_right (by decide)).mp (Nat.lt_of_mul_lt_mul_left hpower)
  omega

theorem fractionField_lt (x : Float) : fractionField x < 2 ^ 52 := by
  have hmask : (0xFFFFFFFFFFFFF : UInt64).toNat = 2 ^ 52 - 1 := rfl
  have hle := @Nat.and_le_right x.toBits.toNat (2 ^ 52 - 1)
  rw [fractionField, UInt64.toNat_and, hmask]
  omega

theorem exponentField_le (x : Float) : exponentField x ≤ 2047 := by
  rw [exponentField, UInt64.toNat_and]
  exact Nat.and_le_right

theorem Dyadic.ofFloat_bounds (x : Float) : (ofFloat x).mantissa < 2 ^ 53 ∧
    -1074 ≤ (ofFloat x).exponent ∧ (ofFloat x).exponent ≤ 972 := by
  have hfraction := fractionField_lt x
  have hexponent := exponentField_le x
  unfold ofFloat
  split
  next =>
    dsimp only
    omega
  next =>
    dsimp only
    omega

theorem RoundingInterval.ofFloat_bounds (x : Float) :
    (ofFloat x).value ≤ (ofFloat x).high ∧
      (ofFloat x).high < (ofFloat x).denominator * 10 ^ FloatStyle.shown.highest.toNat := by
  obtain ⟨hmantissa, -, hexponent⟩ := Dyadic.ofFloat_bounds x
  have hplaces : (Dyadic.ofFloat x).exponent.toNat ≤ 972 := by omega
  have hunit := Nat.pow_le_pow_right Nat.two_pos hplaces
  rw [← Nat.one_shiftLeft] at hunit
  have hdenominator : 1 ≤ (ofFloat x).denominator := by
    have hfour : 1 ≤ 4 * 2 ^ (-(Dyadic.ofFloat x).exponent).toNat :=
      Nat.mul_pos (by decide) (Nat.two_pow_pos _)
    rwa [← Nat.shiftLeft_eq] at hfour
  refine ⟨Nat.le_add_right _ _, ?_⟩
  calc
    (ofFloat x).high = (4 * (Dyadic.ofFloat x).mantissa + 2) *
        1 <<< (Dyadic.ofFloat x).exponent.toNat := (Nat.add_mul _ _ _).symm
    _ ≤ 2 ^ 55 * 2 ^ 972 := Nat.mul_le_mul (by omega) hunit
    _ < 1 * 10 ^ FloatStyle.shown.highest.toNat := by decide +kernel
    _ ≤ (ofFloat x).denominator * 10 ^ FloatStyle.shown.highest.toNat :=
      Nat.mul_le_mul_right _ hdenominator

/-- The first digit of a double is at a place at which it is shown without an exponent part. -/
theorem first_digit_bounds (x : Float) :
    let place := ((digits (shortestDecimal x).coefficient).length : Int) - 1 +
      (shortestDecimal x).exponent
    FloatStyle.shown.lowest ≤ place ∧ place < FloatStyle.shown.highest := by
  obtain ⟨hmantissa, hlow, hhigh⟩ := Dyadic.ofFloat_bounds x
  obtain ⟨hvalue, hbelow⟩ := RoundingInterval.ofFloat_bounds x
  have hlog : (Dyadic.ofFloat x).mantissa.log2 ≤ 52 := by
    by_cases hm : (Dyadic.ofFloat x).mantissa = 0
    · rw [hm]
      decide
    · exact Nat.le_of_lt_succ ((Nat.log2_lt hm).mpr hmantissa)
  let top := (((Dyadic.ofFloat x).mantissa.log2 : Int) + 1 + (Dyadic.ofFloat x).exponent) * 30103 /
    100000 + 1
  have hlowest : FloatStyle.shown.lowest = -400 := rfl
  have hhighest : FloatStyle.shown.highest = 400 := rfl
  have htop : -376 ≤ top ∧ top < 400 := by
    simp only [top]
    omega
  obtain ⟨hleast, hmost, hbound⟩ := RoundingInterval.search_bounds hvalue 24 top
  have hleast' : top - 24 ≤ (shortestDecimal x).exponent := hleast
  have hmost' : (shortestDecimal x).exponent ≤ top := hmost
  have hpos : 0 < (digits (shortestDecimal x).coefficient).length :=
    List.length_pos_iff.mpr (digits_ne_nil _)
  dsimp only
  refine ⟨by omega, ?_⟩
  by_cases hzero : (shortestDecimal x).coefficient = 0
  · have hone : (digits (shortestDecimal x).coefficient).length = 1 := by
      rw [hzero]
      rfl
    omega
  · have hplace := first_digit_lt hzero hbound hbelow
    exact hplace

/-- A finite double is shown with digits and a point only. -/
theorem mem_magnitudeText_shown {x : Float} (hinf : x.isInf = false) {c : Char}
    (h : c ∈ magnitudeText .shown x) : c.isDigit = true ∨ c = '.' := by
  have hpositional {ds : List Char} (hds : ∀ d ∈ ds, d.isDigit = true) {e : Int}
      (hplace : FloatStyle.shown.lowest ≤ (ds.length : Int) - 1 + e ∧
        (ds.length : Int) - 1 + e < FloatStyle.shown.highest)
      (hc : c ∈ Decimal.text .shown ds e) : c.isDigit = true ∨ c = '.' := by
    rw [Decimal.text, if_pos hplace] at hc
    rcases Decimal.mem_positional hc with hc | rfl | rfl
    · exact .inl (hds c hc)
    · exact .inl (by decide)
    · exact .inr rfl
  rw [magnitudeText, if_neg (Bool.eq_false_iff.mp hinf)] at h
  split at h
  · exact hpositional (List.forall_mem_singleton.mpr (by decide)) (by decide) h
  · exact hpositional (fun d hd => isDigit_of_mem_digits hd) (first_digit_bounds x) h

/-- What is shown with any other character is no number, and starts with a letter or a sign. -/
theorem head_floatText_shown {x : Float} {c : Char} (hc : c.isDigit = false ∧ c ≠ '.' ∧ c ≠ '-')
    (h : c ∈ (floatText .shown x).toList) :
    ∀ d ∈ (floatText .shown x).toList.head?, d.isDigit = false := by
  obtain ⟨hdigit, hpoint, hsign⟩ := hc
  rw [floatText_eq] at h ⊢
  split at h
  next hnan =>
    rw [if_pos hnan]
    rintro d ⟨⟩
    rfl
  next hnan =>
    rw [if_neg hnan, String.toList_ofList]
    rw [String.toList_ofList] at h
    by_cases hinf : x.isInf = true
    · rw [magnitudeText, if_pos hinf]
      cases hasMinus x <;> (rintro d ⟨⟩; rfl)
    · have hmagnitude : c ∉ magnitudeText .shown x := fun hmem =>
        (mem_magnitudeText_shown (Bool.eq_false_iff.mpr hinf) hmem).elim (by simp [hdigit]) hpoint
      unfold signedDigits at h
      split at h
      next => exact ((List.mem_cons.mp h).elim hsign hmagnitude).elim
      next => exact absurd h hmagnitude

end TrialLoop
