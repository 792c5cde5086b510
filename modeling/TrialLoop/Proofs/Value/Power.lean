import TrialLoop.Proofs.Number.Numeral
import Mathlib.Tactic.Linarith
import Mathlib.Tactic.Ring

namespace TrialLoop

theorem fit?_eq_none_iff {n : Int} : fit? n = none ↔ n < -2 ^ 63 ∨ 2 ^ 63 ≤ n := by
  have hmin : Int64.minValue.toInt = -2 ^ 63 := rfl
  have hmax : Int64.maxValue.toInt = 2 ^ 63 - 1 := rfl
  rw [fit?, ite_eq_right_iff]
  constructor
  · intro h
    by_contra hfits
    exact Option.some_ne_none _ (h ⟨by omega, by omega⟩)
  · intro h hfits
    omega

/-- What does not fit still does not when it is multiplied by a positive number. -/
theorem fit?_mul_eq_none {a s : Int} (ha : fit? a = none) (hs : 1 ≤ s) : fit? (a * s) = none := by
  rw [fit?_eq_none_iff] at ha ⊢
  rcases ha with ha | ha
  · left
    nlinarith
  · right
    nlinarith

/-- A square is never the magnitude of the least word. -/
theorem lt_square_of_fit? {b : Int} (h : fit? (b * b) = none) : 2 ^ 63 < b * b := by
  have hle : 2 ^ 63 ≤ b * b := by
    rcases fit?_eq_none_iff.mp h with h | h
    · have hpos := mul_self_nonneg b
      omega
    · exact h
  refine lt_of_le_of_ne hle fun heq => ?_
  have habs : b.natAbs * b.natAbs = 2 ^ 63 := by
    have hcast : ((b.natAbs * b.natAbs : Nat) : Int) = 2 ^ 63 := by
      rw [Int.natAbs_mul_self, ← heq]
    exact_mod_cast hcast
  -- The root of 2 ^ 63 lies between two neighbours.
  rcases Nat.lt_or_ge b.natAbs 3037000500 with hlt | hge
  · have := Nat.mul_le_mul (Nat.le_of_lt_succ hlt) (Nat.le_of_lt_succ hlt)
    omega
  · have := Nat.mul_le_mul hge hge
    omega

theorem fit?_mul_power_square {a b : Int} {k : Nat} (ha : a ≠ 0) (hk : k ≠ 0)
    (h : fit? (b * b) = none) : fit? (a * (b * b) ^ k) = none := by
  have hlt := lt_square_of_fit? h
  have hpow : b * b ≤ (b * b) ^ k := le_self_pow₀ (by omega) hk
  rw [fit?_eq_none_iff]
  rcases lt_or_gt_of_ne ha with hneg | hpos
  · left
    nlinarith
  · right
    nlinarith

namespace Value

theorem product?_eq_some_iff {m n k : Int64} :
    product? m n = some k ↔ k.toInt = m.toInt * n.toInt :=
  fit?_eq_some_iff

/-- The product after one digit of the exponent, which counts the base if the digit is one. -/
theorem factor?_eq (product base : Int64) (exponent : Nat) :
    (if exponent % 2 = 1 then product? product base else some product) =
      fit? (product.toInt * base.toInt ^ (exponent % 2)) := by
  rcases Nat.mod_two_eq_zero_or_one exponent with heven | hodd
  · rw [heven, pow_zero, mul_one, fit?_toInt]
    rfl
  · rw [hodd, pow_one]
    rfl

theorem powerFrom?_step {product base : Int64} {exponent : Nat} (h : 2 ≤ exponent) :
    powerFrom? product base exponent =
      (fit? (product.toInt * base.toInt ^ (exponent % 2))).bind fun next =>
        (product? base base).bind fun square => powerFrom? next square (exponent / 2) := by
  rw [powerFrom?, if_neg (by omega), if_neg (by omega), ← factor?_eq]
  split <;> rfl

theorem factor_ne_zero {product base : Int64} {exponent : Nat} (hproduct : product ≠ 0)
    (hbase : base ≠ 0) : product.toInt * base.toInt ^ exponent ≠ 0 := by
  apply mul_ne_zero
  · exact fun h => hproduct (Int64.toInt_inj.mp h)
  · exact pow_ne_zero _ fun h => hbase (Int64.toInt_inj.mp h)

/-- Repeated squaring meets no number that is not a word before the power itself is none. -/
theorem powerFrom?_eq {product base : Int64} {exponent : Nat} (h : product ≠ 0 ∨ base = 0) :
    powerFrom? product base exponent = fit? (product.toInt * base.toInt ^ exponent) := by
  induction exponent using Nat.strong_induction_on generalizing product base with
  | _ exponent ih =>
    rcases Nat.lt_or_ge exponent 2 with hsmall | hlarge
    · rw [powerFrom?]
      rcases Nat.le_one_iff_eq_zero_or_eq_one.mp (Nat.le_of_lt_succ hsmall) with rfl | rfl
      · rw [pow_zero, mul_one, fit?_toInt]
        rfl
      · rw [pow_one]
        rfl
    have hsplit : product.toInt * base.toInt ^ exponent =
        product.toInt * base.toInt ^ (exponent % 2) *
          (base.toInt * base.toInt) ^ (exponent / 2) := by
      rw [← pow_two, ← pow_mul, mul_assoc, ← pow_add, Nat.mod_add_div]
    rw [powerFrom?_step hlarge, hsplit]
    by_cases hbase : base = 0
    case pos =>
      subst hbase
      have hhalf : exponent / 2 ≠ 0 := by omega
      cases hnext : fit? (product.toInt * (0 : Int64).toInt ^ (exponent % 2)) with
      | none =>
        rw [fit?_eq_none_iff] at hnext
        have hle := product.le_toInt
        have hlt := product.toInt_lt
        rcases Nat.mod_two_eq_zero_or_one exponent with hmod | hmod
        · rw [hmod, pow_zero] at hnext
          omega
        · rw [hmod, pow_one, Int64.toInt_zero] at hnext
          omega
      | some next =>
        show powerFrom? next 0 (exponent / 2) = _
        rw [ih _ (by omega) (Or.inr rfl)]
        simp [hhalf]
    case neg =>
      have hproduct := h.resolve_right hbase
      have hfactor : product.toInt * base.toInt ^ (exponent % 2) ≠ 0 :=
        factor_ne_zero hproduct hbase
      cases hnext : fit? (product.toInt * base.toInt ^ (exponent % 2)) with
      | none =>
        -- The factor is too large, and the squares that are left make it no smaller.
        have hpos : 0 < base.toInt * base.toInt :=
          mul_self_pos.mpr fun hz => hbase (Int64.toInt_inj.mp hz)
        exact (fit?_mul_eq_none hnext (one_le_pow₀ hpos)).symm
      | some next =>
        have hvalue := fit?_eq_some_iff.mp hnext
        cases hsquare : product? base base with
        | none => exact (fit?_mul_power_square hfactor (by omega) hsquare).symm
        | some square =>
          rw [← hvalue, ← product?_eq_some_iff.mp hsquare]
          refine ih (exponent / 2) (by omega) (Or.inl ?_)
          rintro rfl
          exact hfactor hvalue.symm

theorem pow_int (m n : Int64) :
    pow (int m) (int n) = .ok
      (if 0 ≤ n.toInt ∧ n.toInt < 1 <<< 32 then
        exactOr (m.toInt ^ n.toInt.toNat) ((intFloat m).pow (intFloat n))
      else float ((intFloat m).pow (intFloat n))) := by
  have hpower : powerFrom? 1 m n.toInt.toNat = fit? (m.toInt ^ n.toInt.toNat) := by
    rw [powerFrom?_eq (Or.inl (by decide)), Int64.toInt_one, one_mul]
  by_cases hexponent : 0 ≤ n.toInt ∧ n.toInt < 1 <<< 32
  · simp only [pow, integers?, word?, hexponent, and_self, if_true, hpower, exactOr]
    cases fit? (m.toInt ^ n.toInt.toNat) <;> rfl
  · simp only [pow, integers?, word?, hexponent, if_false]
    rfl

/-- The exact result of an operation that gives whole numbers for whole numbers. -/
def exactResult? : Operator → Int → Int → Option Int
  | .add, x, y => some (x + y)
  | .sub, x, y => some (x - y)
  | .mul, x, y => some (x * y)
  | .pow, x, y => if 0 ≤ y then some (x ^ y.toNat) else none
  | _, _, _ => none

/-- A power with an exponent of more than 32 bits that is a word nevertheless. -/
def LongPower (op : Operator) (m n : Int64) : Prop :=
  op = .pow ∧ 1 <<< 32 ≤ n.toInt ∧ m.toInt.natAbs ≤ 1

theorem fit?_pow_eq_none {b : Int} {n : Nat} (hb : 2 ≤ b.natAbs) (hn : 64 ≤ n) :
    fit? (b ^ n) = none := by
  have hlarge : 2 ^ 64 ≤ (b ^ n).natAbs := by
    calc 2 ^ 64 ≤ 2 ^ n := Nat.pow_le_pow_right (by omega) hn
      _ ≤ b.natAbs ^ n := Nat.pow_le_pow_left hb n
      _ = (b ^ n).natAbs := (Int.natAbs_pow b n).symm
  rw [fit?_eq_none_iff]
  omega

theorem fit?_pow_ne_none {b : Int} {n : Nat} (hb : b.natAbs ≤ 1) : fit? (b ^ n) ≠ none := by
  have hsmall : (b ^ n).natAbs ≤ 1 := by
    rw [Int.natAbs_pow]
    exact pow_le_one₀ (Nat.zero_le _) hb
  rw [Ne, fit?_eq_none_iff]
  omega

/-- Operations on integers are exact where the result fits, apart from the long powers. -/
theorem arith_int_exact {op : Operator} {m n : Int64} {exact : Int}
    (h : exactResult? op m.toInt n.toInt = some exact) :
    (LongPower op m n → fit? exact ≠ none ∧ ∃ x, arith op (int m) (int n) = .ok (float x)) ∧
    (¬LongPower op m n → ∃ x, arith op (int m) (int n) = .ok (exactOr exact x)) := by
  cases op with
  | add | sub | mul =>
    cases h
    exact ⟨fun hlong => absurd hlong.1 (by decide), fun _ => ⟨_, rfl⟩⟩
  | div | floorDiv | rem => cases h
  | pow =>
    simp only [exactResult?] at h
    split at h
    case isFalse => cases h
    case isTrue hn =>
      cases h
      rw [arith, pow_int]
      have hshift : (1 <<< 32 : Int) = 4294967296 := rfl
      by_cases hword : n.toInt < 1 <<< 32
      · rw [if_pos ⟨hn, hword⟩]
        exact ⟨fun hlong => absurd hlong.2.1 (by omega), fun _ => ⟨_, rfl⟩⟩
      · rw [if_neg fun hand => hword hand.2]
        refine ⟨fun hlong => ⟨fit?_pow_ne_none hlong.2.2, _, rfl⟩, fun hshort => ?_⟩
        have hbase : 2 ≤ m.toInt.natAbs := by
          by_contra hsmall
          exact hshort ⟨rfl, by omega, by omega⟩
        refine ⟨(intFloat m).pow (intFloat n), ?_⟩
        rw [exactOr, fit?_pow_eq_none hbase (by omega)]

/-- A power of minus one whose exponent is neither a word of 32 bits nor a double. -/
theorem pow_minus_one_not_exact :
    fit? ((-1) ^ 9007199254740993) = some (-1) ∧
      ∃ x, pow (int (-1)) (int 9007199254740993) = .ok (float x) := by
  constructor
  · rw [Odd.neg_one_pow (by decide)]
    rfl
  · have hexact : exactResult? .pow (-1 : Int64).toInt (9007199254740993 : Int64).toInt =
        some ((-1) ^ 9007199254740993) := rfl
    exact ((arith_int_exact hexact).1 ⟨rfl, by decide, by decide⟩).2

end Value

end TrialLoop
