import TrialLoop.Proofs.Number.FloatOrder

namespace TrialLoop

open Float.Model (UnpackedFloat Format totalExponent)
open Float.Model.UnpackedFloat

/-- A mantissa with its two rounding digits as one number. -/
def place (m : ExtendedMantissa) : Nat :=
  4 * m.mantissa + 2 * m.roundBit.toNat + m.stickyBit.toNat

variable {m n : ExtendedMantissa}

theorem place_shiftRightOne_mono (h : place m ≤ place n) :
    place m.shiftRightOne ≤ place n.shiftRightOne := by
  obtain ⟨m, r, s⟩ := m
  obtain ⟨n, t, u⟩ := n
  have hbit (k : Nat) : (k % 2 != 0).toNat = k % 2 := by
    rcases Nat.mod_two_eq_zero_or_one k with hk | hk <;> rw [hk] <;> rfl
  simp only [place, ExtendedMantissa.shiftRightOne, hbit] at h ⊢
  cases r <;> cases s <;> cases t <;> cases u <;>
    simp only [Bool.or_true, Bool.or_false, Bool.toNat_true, Bool.toNat_false] at h ⊢ <;> omega

theorem shiftRight_succ (k : Nat) : m >>> (k + 1) = (m >>> k).shiftRightOne :=
  rfl

theorem place_shiftRight_mono (h : place m ≤ place n) (k : Nat) :
    place (m >>> k) ≤ place (n >>> k) := by
  induction k with
  | zero => exact h
  | succ k ih =>
    rw [shiftRight_succ, shiftRight_succ]
    exact place_shiftRightOne_mono ih

theorem mantissa_shiftRight (k : Nat) : (m >>> k).mantissa = m.mantissa / 2 ^ k := by
  induction k with
  | zero => exact (Nat.div_one _).symm
  | succ k ih =>
    rw [shiftRight_succ, Nat.pow_succ, ← Nat.div_div_eq_div_mul, ← ih]
    rfl

theorem roundedMantissa_mono (h : place m ≤ place n) : m.roundedMantissa ≤ n.roundedMantissa := by
  obtain ⟨m, r, s⟩ := m
  obtain ⟨n, t, u⟩ := n
  cases r <;> cases s <;> cases t <;> cases u <;>
    simp only [place, ExtendedMantissa.roundedMantissa, ExtendedMantissa.accuracy,
      Accuracy.roundToNearestEven, Bool.toNat_true, Bool.toNat_false] at h ⊢ <;> omega

theorem roundedMantissa_bounds :
    m.mantissa ≤ m.roundedMantissa ∧ m.roundedMantissa ≤ m.mantissa + 1 := by
  obtain ⟨m, r, s⟩ := m
  cases r <;> cases s <;>
    simp only [ExtendedMantissa.roundedMantissa, ExtendedMantissa.accuracy,
      Accuracy.roundToNearestEven] <;> omega

/-- A word with its 53 leading digits as the mantissa. -/
def scaled (w : Nat) : ExtendedMantissa :=
  (⟨w <<< (52 - w.log2), false, false⟩ : ExtendedMantissa) >>> (w.log2 - 52)

theorem mantissa_scaled {w : Nat} (hw : w ≠ 0) :
    2 ^ 52 ≤ (scaled w).mantissa ∧ (scaled w).mantissa < 2 ^ 53 := by
  have hlow := Nat.log2_self_le hw
  have hhigh := Nat.lt_log2_self (n := w)
  rw [scaled, mantissa_shiftRight, Nat.shiftLeft_eq]
  rcases Nat.le_total w.log2 52 with hsmall | hlarge
  · rw [Nat.sub_eq_zero_of_le hsmall, Nat.pow_zero, Nat.div_one]
    constructor
    · calc 2 ^ 52 = 2 ^ w.log2 * 2 ^ (52 - w.log2) := by rw [← Nat.pow_add]; congr 1; omega
        _ ≤ w * 2 ^ (52 - w.log2) := Nat.mul_le_mul_right _ hlow
    · calc w * 2 ^ (52 - w.log2) < 2 ^ (w.log2 + 1) * 2 ^ (52 - w.log2) :=
            Nat.mul_lt_mul_of_pos_right hhigh (Nat.two_pow_pos _)
        _ = 2 ^ 53 := by rw [← Nat.pow_add]; congr 1; omega
  · rw [Nat.sub_eq_zero_of_le hlarge, Nat.pow_zero, Nat.mul_one]
    constructor
    · rw [Nat.le_div_iff_mul_le (Nat.two_pow_pos _), ← Nat.pow_add]
      exact le_trans (Nat.pow_le_pow_right (by omega) (by omega)) hlow
    · rw [Nat.div_lt_iff_lt_mul (Nat.two_pow_pos _), ← Nat.pow_add]
      exact lt_of_lt_of_le hhigh (Nat.pow_le_pow_right (by omega) (by omega))

/-- The mantissa of the nearest double, before one that is too large by a digit is halved. -/
def roundedWord (w : Nat) : Nat :=
  (scaled w).roundedMantissa

theorem roundedWord_bounds {w : Nat} (hw : w ≠ 0) :
    2 ^ 52 ≤ roundedWord w ∧ roundedWord w ≤ 2 ^ 53 := by
  have hscaled := mantissa_scaled hw
  have hround := roundedMantissa_bounds (m := scaled w)
  unfold roundedWord
  omega

theorem roundedWord_mono {v w : Nat} (h : v ≤ w) (hlog : v.log2 = w.log2) :
    roundedWord v ≤ roundedWord w := by
  apply roundedMantissa_mono
  rw [scaled, scaled, hlog]
  apply place_shiftRight_mono
  have hshift : v <<< (52 - w.log2) ≤ w <<< (52 - w.log2) := by
    rw [Nat.shiftLeft_eq, Nat.shiftLeft_eq]
    exact Nat.mul_le_mul_right _ h
  simp only [place]
  omega

/-- The mantissa and the exponent of the nearest double to a word. -/
def wordParts (w : Nat) : Nat × ℤ :=
  if roundedWord w = 2 ^ 53 then (2 ^ 52, (w.log2 : ℤ) - 51)
  else (roundedWord w, (w.log2 : ℤ) - 52)

theorem target_double (m : Nat) {e : ℤ} (h : -1074 ≤ m.log2 - 52 + e) :
    Format.binary64.targetExponent (totalExponent m e) = m.log2 - 52 + e := by
  simp only [Format.targetExponent, totalExponent, Format.mantissaBits, Format.minExponent]
  omega

theorem log2_shiftLeft {w k : Nat} (hw : w ≠ 0) : (w <<< k).log2 = w.log2 + k := by
  have hlow := Nat.mul_le_mul_right (2 ^ k) (Nat.log2_self_le hw)
  have hhigh := Nat.mul_lt_mul_of_pos_right (Nat.lt_log2_self (n := w)) (Nat.two_pow_pos k)
  rw [← Nat.pow_add] at hlow hhigh
  have hne : w * 2 ^ k ≠ 0 := Nat.mul_ne_zero hw (Nat.two_pow_pos k).ne'
  rw [Nat.shiftLeft_eq, Nat.log2_eq_iff hne]
  refine ⟨hlow, ?_⟩
  rw [Nat.add_right_comm]
  exact hhigh

/-- The second rounding meets a mantissa of 53 digits, or the least one with a digit more. -/
theorem shift_rounded {r : Nat} {e : ℤ} (hlow : 2 ^ 52 ≤ r) (hhigh : r ≤ 2 ^ 53)
    (he : -1074 ≤ e) :
    shiftToTargetExponent .binary64 r e .exact =
      if r = 2 ^ 53 then (⟨2 ^ 52, false, false⟩, e + 1) else (⟨r, false, false⟩, e) := by
  rw [shiftToTargetExponent]
  split
  next hcarry =>
    have hlog : r.log2 = 53 := by
      rw [hcarry]
      exact Nat.log2_two_pow
    rw [target_double _ (by omega), hlog, shiftToExponent]
    have hshift : (((53 : Nat) : ℤ) - 52 + e - e).toNat = 1 := by omega
    rw [hshift, hcarry]
    rfl
  next hsame =>
    have hlog : r.log2 = 52 :=
      (Nat.log2_eq_iff (by omega)).mpr ⟨hlow, lt_of_le_of_ne hhigh hsame⟩
    rw [target_double _ (by omega), hlog, shiftToExponent]
    have hshift : (((52 : Nat) : ℤ) - 52 + e - e).toNat = 0 := by omega
    rw [hshift]
    exact congrArg _ (Int.add_zero e)

theorem round_word {w : Nat} (hw : w ≠ 0) (s : UnpackedFloat.Sign) :
    ∃ h, UnpackedFloat.round .binary64 s w 0 = .finite s (wordParts w).1 (wordParts w).2 h := by
  have hbounds := roundedWord_bounds hw
  have hdecrease : decreaseExponent w 0 (w.log2 - 52 + 0) =
      (w <<< (52 - w.log2), -((52 - w.log2 : Nat) : ℤ)) := by
    have hshift : ((0 : ℤ) - (w.log2 - 52 + 0)).toNat = 52 - w.log2 := by omega
    rw [decreaseExponent, hshift, Int.zero_sub]
  have hscaled : shiftToTargetExponent .binary64 (w <<< (52 - w.log2))
      (-((52 - w.log2 : Nat) : ℤ)) .exact = (scaled w, (w.log2 : ℤ) - 52) := by
    have htarget : (((w.log2 + (52 - w.log2) : Nat) : ℤ) - 52 + -((52 - w.log2 : Nat) : ℤ)) =
        w.log2 - 52 := by omega
    have hshift : ((w.log2 : ℤ) - 52 - -((52 - w.log2 : Nat) : ℤ)).toNat = w.log2 - 52 := by omega
    rw [shiftToTargetExponent, target_double _ (by rw [log2_shiftLeft hw]; omega),
      log2_shiftLeft hw, htarget, shiftToExponent, hshift]
    refine congrArg (Prod.mk (scaled w)) ?_
    omega
  simp only [UnpackedFloat.round]
  rw [target_double _ (by omega), hdecrease]
  simp only [roundWithAccuracy]
  rw [hscaled]
  simp only
  rw [← roundedWord, shift_rounded hbounds.1 hbounds.2 (by omega)]
  unfold wordParts
  split
  next hcarry =>
    have hexponent : (w.log2 : ℤ) - 52 + 1 = w.log2 - 51 := by omega
    simp only [hexponent]
    exact ⟨by decide, rfl⟩
  next hsame =>
    have hne : roundedWord w ≠ 0 := by omega
    simp only
    rw [dif_neg hne]
    exact ⟨Nat.pos_of_ne_zero hne, rfl⟩

theorem sign_packComponents (s : UnpackedFloat.Sign) (e : BitVec 11) (m : BitVec 52) :
    UnpackedFloat.Sign.ofBitVec (unpackSign (packComponents .binary64 s e m)) = s := by
  have hbit : unpackSign (packComponents .binary64 s e m) = s.toBitVec := by
    show (s.toBitVec ++ e ++ m).extractLsb' 63 1 = s.toBitVec
    rw [BitVec.extractLsb'_append_eq_of_le (by decide),
      BitVec.extractLsb'_append_eq_of_le (by decide)]
    cases s <;> rfl
  rw [hbit]
  cases s <;> rfl

theorem unpack_pack_normal (s : UnpackedFloat.Sign) {m : Nat} {e : ℤ} (h : 0 < m)
    (hlow : 2 ^ 52 ≤ m) (hhigh : m < 2 ^ 53) (he : -1074 ≤ e) (he' : e ≤ 971) :
    unpack .binary64 (pack .binary64 (.finite s m e h)) = .finite s m e h := by
  have hlog : m.log2 = 52 := (Nat.log2_eq_iff h.ne').mpr ⟨hlow, hhigh⟩
  have hbias : (e + (Format.binary64.exponentBias : ℤ) +
      (Format.binary64.mantissaBitsWithoutImplicit : ℤ)).toNat = (e + 1075).toNat := by
    show (e + 1023 + 52).toNat = _
    omega
  have hfinite : ¬2 ^ Format.binary64.exponentBits ≤ (e + 1075).toNat + 1 := by
    show ¬2048 ≤ _
    omega
  have hdigits : m.log2 + 1 = Format.binary64.mantissaBits := by
    rw [hlog]
    rfl
  have hfield : (BitVec.ofNat Format.binary64.exponentBits (e + 1075).toNat).toNat =
      (e + 1075).toNat := Nat.mod_eq_of_lt (show _ < 2048 by omega)
  have hne_ones : BitVec.ofNat Format.binary64.exponentBits (e + 1075).toNat ≠ -1#_ := by
    intro heq
    have := congrArg BitVec.toNat heq
    rw [hfield] at this
    change (e + 1075).toNat = 2047 at this
    omega
  have hne_zero : BitVec.ofNat Format.binary64.exponentBits (e + 1075).toNat ≠ 0#_ := by
    intro heq
    have := congrArg BitVec.toNat heq
    rw [hfield] at this
    change (e + 1075).toNat = 0 at this
    omega
  have hmantissa :
      (1#1 ++ BitVec.ofNat Format.binary64.mantissaBitsWithoutImplicit m).toNat = m := by
    rw [BitVec.toNat_append, BitVec.toNat_ofNat]
    show 1 <<< 52 ||| m % 2 ^ 52 = m
    rw [← Nat.shiftLeft_add_eq_or_of_lt (Nat.mod_lt m (Nat.two_pow_pos 52))]
    omega
  have hexponent : ((e + 1075).toNat : ℤ) - ((Format.binary64.exponentBias : ℤ) +
      (Format.binary64.mantissaBitsWithoutImplicit : ℤ)) = e := by
    show _ - (1023 + 52) = e
    omega
  simp only [pack, hbias]
  rw [if_neg hfinite, if_pos hdigits]
  simp only [unpack, unpackMantissa_packComponents, unpackExponent_packComponents]
  rw [if_neg hne_ones, if_neg hne_zero, sign_packComponents]
  simp only [hfield, hmantissa, hexponent]

theorem wordParts_bounds {w : Nat} (hw : w ≠ 0) :
    2 ^ 52 ≤ (wordParts w).1 ∧ (wordParts w).1 < 2 ^ 53 ∧
      (w.log2 : ℤ) - 52 ≤ (wordParts w).2 ∧ (wordParts w).2 ≤ w.log2 - 51 ∧
      ((wordParts w).2 = w.log2 - 51 → (wordParts w).1 = 2 ^ 52) := by
  have hbounds := roundedWord_bounds hw
  unfold wordParts
  split
  next hcarry => exact ⟨le_rfl, by omega, by omega, le_rfl, fun _ => rfl⟩
  next hsame =>
    refine ⟨hbounds.1, lt_of_le_of_ne hbounds.2 hsame, le_rfl, by omega, fun h => ?_⟩
    omega

theorem wordParts_mono {v w : Nat} (hv : v ≠ 0) (h : v ≤ w) :
    (wordParts v).2 < (wordParts w).2 ∨
      (wordParts v).2 = (wordParts w).2 ∧ (wordParts v).1 ≤ (wordParts w).1 := by
  have hw : w ≠ 0 := by omega
  have hlog : v.log2 ≤ w.log2 := (Nat.le_log2 hw).mpr (le_trans (Nat.log2_self_le hv) h)
  obtain ⟨hlow, -, hmin, -, -⟩ := wordParts_bounds hw
  rcases Nat.lt_or_eq_of_le hlog with hlt | heq
  · obtain ⟨-, -, -, hmax, hcarry⟩ := wordParts_bounds hv
    -- The exponents are equal only if the smaller mantissa was carried, to the least one.
    by_cases hexponent : (wordParts v).2 = v.log2 - 51
    · have hleast := hcarry hexponent
      omega
    · omega
  · have hround := roundedWord_mono h heq
    have hbound := (roundedWord_bounds hw).2
    rw [wordParts, wordParts, heq]
    by_cases hcarry : roundedWord w = 2 ^ 53
    · by_cases hfirst : roundedWord v = 2 ^ 53
      · rw [if_pos hcarry, if_pos hfirst]
        exact Or.inr ⟨rfl, le_rfl⟩
      · rw [if_pos hcarry, if_neg hfirst]
        left
        show (w.log2 : ℤ) - 52 < w.log2 - 51
        omega
    · have hfirst : roundedWord v ≠ 2 ^ 53 := by omega
      rw [if_neg hcarry, if_neg hfirst]
      exact Or.inr ⟨rfl, hround⟩

/-- The key of the nearest double to an integer. -/
def wordKey (i : ℤ) : ℤ ×ₗ ℤ ×ₗ ℤ :=
  toLex (i.sign, toLex (i.sign * (wordParts i.natAbs).2, i.sign * (wordParts i.natAbs).1))

theorem unpack_round {w : Nat} (hw : w ≠ 0) (hfits : w ≤ 2 ^ 63) (s : UnpackedFloat.Sign) :
    ∃ h, unpack .binary64 (pack .binary64 (UnpackedFloat.round .binary64 s w 0)) =
      .finite s (wordParts w).1 (wordParts w).2 h := by
  obtain ⟨hpos, hround⟩ := round_word hw s
  obtain ⟨hlow, hhigh, hmin, hmax, -⟩ := wordParts_bounds hw
  have hlog : w.log2 < 64 := (Nat.log2_lt hw).mpr (by omega)
  refine ⟨hpos, ?_⟩
  rw [hround]
  exact unpack_pack_normal s hpos hlow hhigh (by omega) (by omega)

theorem unpack_normalize {i : ℤ} (hlow : -(2 ^ 63) ≤ i) (hhigh : i < 2 ^ 63) :
    ∃ u, unpack .binary64 (pack .binary64 (UnpackedFloat.normalize .binary64 i 0 .positive)) = u ∧
      u ≠ .notANumber ∧ floatKey u = wordKey i := by
  refine ⟨_, rfl, ?_⟩
  rw [UnpackedFloat.normalize, wordKey]
  rcases lt_trichotomy i 0 with hneg | rfl | hpos
  · obtain ⟨h, hround⟩ := unpack_round (w := i.natAbs) (by omega) (by omega) .negative
    have hmagnitude : (-i).toNat = i.natAbs := by omega
    rw [compare_lt_iff_lt.mpr hneg, hmagnitude, Int.sign_eq_neg_one_of_neg hneg, Int.neg_one_mul,
      Int.neg_one_mul]
    simp only
    rw [hround]
    exact ⟨finite_ne_nan _ _ h, rfl⟩
  · have hzero : unpack .binary64 (pack .binary64 (.zero .positive)) = .zero .positive := rfl
    rw [compare_eq_iff_eq.mpr rfl, Int.sign_zero, Int.zero_mul, Int.zero_mul]
    simp only
    rw [hzero]
    exact ⟨zero_ne_nan _, rfl⟩
  · obtain ⟨h, hround⟩ := unpack_round (w := i.natAbs) (by omega) (by omega) .positive
    have hmagnitude : i.toNat = i.natAbs := by omega
    rw [compare_gt_iff_gt.mpr hpos, hmagnitude, Int.sign_eq_one_of_pos hpos, Int.one_mul,
      Int.one_mul]
    simp only
    rw [hround]
    exact ⟨finite_ne_nan _ _ h, rfl⟩

theorem proper_intFloat (n : Int64) : Proper (Value.intFloat n) := by
  obtain ⟨u, hunpack, hproper, -⟩ := unpack_normalize n.le_toInt n.toInt_lt
  intro hnan
  exact hproper (hunpack.symm.trans hnan)

theorem doubleKey_intFloat (n : Int64) : doubleKey (Value.intFloat n) = wordKey n.toInt := by
  obtain ⟨u, hunpack, -, hkey⟩ := unpack_normalize n.le_toInt n.toInt_lt
  rw [← hkey, ← hunpack]
  rfl

theorem wordKey_mono {i j : ℤ} (h : i ≤ j) : wordKey i ≤ wordKey j := by
  rw [wordKey, wordKey, Prod.Lex.toLex_le_toLex]
  rcases lt_trichotomy i 0 with hi | rfl | hi
  · rw [Int.sign_eq_neg_one_of_neg hi]
    rcases lt_or_ge j 0 with hj | hj
    · have hparts := wordParts_mono (v := j.natAbs) (w := i.natAbs) (by omega) (by omega)
      rw [Int.sign_eq_neg_one_of_neg hj]
      refine Or.inr ⟨rfl, Prod.Lex.toLex_le_toLex.mpr ?_⟩
      show -1 * _ < -1 * _ ∨ -1 * _ = -1 * _ ∧ -1 * _ ≤ -1 * _
      omega
    · have hsign : 0 ≤ j.sign := Int.sign_nonneg_iff.mpr hj
      exact Or.inl (show -1 < j.sign by omega)
  · rcases lt_or_eq_of_le h with hj | rfl
    · rw [Int.sign_eq_one_of_pos hj]
      exact Or.inl Int.zero_lt_one
    · exact Or.inr ⟨rfl, le_rfl⟩
  · have hparts := wordParts_mono (v := i.natAbs) (w := j.natAbs) (by omega) (by omega)
    rw [Int.sign_eq_one_of_pos hi, Int.sign_eq_one_of_pos (lt_of_lt_of_le hi h)]
    refine Or.inr ⟨rfl, Prod.Lex.toLex_le_toLex.mpr ?_⟩
    show 1 * _ < 1 * _ ∨ 1 * _ = 1 * _ ∧ 1 * _ ≤ 1 * _
    omega

/-- Integers may become equal as doubles, but their order is never reversed. -/
theorem floatOrder?_intFloat {m n : Int64} (h : m.toInt ≤ n.toInt) :
    ∃ o, floatOrder? (Value.intFloat m) (Value.intFloat n) = some o ∧ o ≠ .gt := by
  refine ⟨_, floatOrder?_eq_some_iff.mpr ⟨proper_intFloat m, proper_intFloat n, rfl⟩, ?_⟩
  rw [doubleKey_intFloat, doubleKey_intFloat]
  exact compare_le_iff_le.mpr (wordKey_mono h)

end TrialLoop
