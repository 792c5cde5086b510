import TrialLoop.Value.Order
import Mathlib

namespace TrialLoop

open Float.Model (UnpackedFloat)
open Float.Model.UnpackedFloat

/-- A double as its class, its exponent and its mantissa, the last two negated with the sign. -/
def floatKey : UnpackedFloat → ℤ ×ₗ ℤ ×ₗ ℤ
  | .notANumber => toLex (0, toLex (0, 0))
  | .zero _ => toLex (0, toLex (0, 0))
  | .infinity .positive => toLex (2, toLex (0, 0))
  | .infinity .negative => toLex (-2, toLex (0, 0))
  | .finite .positive m e _ => toLex (1, toLex (e, (m : ℤ)))
  | .finite .negative m e _ => toLex (-1, toLex (-e, -(m : ℤ)))

theorem infinity_ne_nan (s : UnpackedFloat.Sign) : UnpackedFloat.infinity s ≠ .notANumber := by
  rintro ⟨⟩

theorem zero_ne_nan (s : UnpackedFloat.Sign) : UnpackedFloat.zero s ≠ .notANumber := by
  rintro ⟨⟩

theorem finite_ne_nan (s : UnpackedFloat.Sign) {m : Nat} (e : ℤ) (h : 0 < m) :
    UnpackedFloat.finite s m e h ≠ .notANumber := by
  rintro ⟨⟩

theorem compare_toLex {α β : Type} [Ord α] [Ord β] (a c : α) (b d : β) :
    compare (toLex (a, b)) (toLex (c, d)) = (compare a c).then (compare b d) :=
  rfl

theorem compare_neg (a b : ℤ) : compare (-a) (-b) = (compare a b).swap := by
  have hanti : StrictAnti fun n : ℤ => -n := fun _ _ h => Int.neg_lt_neg h
  have hcmp := hanti.cmp_map_eq a b
  rw [cmp_eq_compare, cmp_eq_compare] at hcmp
  rw [hcmp, Std.OrientedOrd.eq_swap]

theorem compare_natCast (m n : Nat) : compare (m : ℤ) (n : ℤ) = compare m n := by
  have hmono : StrictMono fun n : Nat => (n : ℤ) := fun _ _ h => Int.ofNat_lt.mpr h
  have hcmp := hmono.cmp_map_eq m n
  rw [cmp_eq_compare, cmp_eq_compare] at hcmp
  exact hcmp

theorem compare_eq_floatKey {x y : UnpackedFloat} (hx : x ≠ .notANumber) (hy : y ≠ .notANumber) :
    x.compare y = some (compare (floatKey x) (floatKey y)) := by
  cases x with
  | notANumber => exact absurd rfl hx
  | infinity s =>
    cases y with
    | notANumber => exact absurd rfl hy
    | infinity t => cases s <;> cases t <;> rfl
    | zero t => cases s <;> rfl
    | finite t n f _ => cases s <;> cases t <;> rfl
  | zero s =>
    cases y with
    | notANumber => exact absurd rfl hy
    | infinity t => cases t <;> rfl
    | zero t => rfl
    | finite t n f _ => cases t <;> rfl
  | finite s m e _ =>
    cases y with
    | notANumber => exact absurd rfl hy
    | infinity t => cases s <;> cases t <;> rfl
    | zero t => cases s <;> rfl
    | finite t n f _ =>
      cases s <;> cases t
      case negative.negative =>
        rw [floatKey, floatKey, compare_toLex, compare_toLex, compare_neg e, compare_neg m,
          compare_natCast, ← Ordering.swap_then]
        rfl
      case negative.positive => rfl
      case positive.negative => rfl
      case positive.positive =>
        rw [floatKey, floatKey, compare_toLex, compare_toLex, compare_natCast]
        rfl

/-- A double that is no NaN. -/
def Proper (x : Float) : Prop :=
  x.toModel.unpack ≠ .notANumber

def doubleKey (x : Float) : ℤ ×ₗ ℤ ×ₗ ℤ :=
  floatKey x.toModel.unpack

variable {x y : Float}

theorem compare_eq_some_iff {u v : UnpackedFloat} {o : Ordering} :
    u.compare v = some o ↔
      u ≠ .notANumber ∧ v ≠ .notANumber ∧ compare (floatKey u) (floatKey v) = o := by
  constructor
  · intro h
    have hu : u ≠ .notANumber := by
      rintro rfl
      cases h
    have hv : v ≠ .notANumber := by
      rintro rfl
      cases u <;> cases h
    rw [compare_eq_floatKey hu hv] at h
    exact ⟨hu, hv, Option.some.inj h⟩
  · rintro ⟨hu, hv, rfl⟩
    exact compare_eq_floatKey hu hv

theorem float_lt_iff :
    x < y ↔ Proper x ∧ Proper y ∧ compare (doubleKey x) (doubleKey y) = .lt := by
  rw [Proper, Proper, doubleKey, doubleKey, ← compare_eq_some_iff]
  show decide (UnpackedFloat.lt _ _ = true) = true ↔ _
  rw [decide_eq_true_eq, UnpackedFloat.lt, beq_iff_eq]

theorem float_beq_iff :
    (x == y) = true ↔ Proper x ∧ Proper y ∧ compare (doubleKey x) (doubleKey y) = .eq := by
  rw [Proper, Proper, doubleKey, doubleKey, ← compare_eq_some_iff]
  show UnpackedFloat.beq _ _ = true ↔ _
  rw [UnpackedFloat.beq, beq_iff_eq]

theorem float_gt_iff :
    x > y ↔ Proper x ∧ Proper y ∧ compare (doubleKey x) (doubleKey y) = .gt := by
  rw [GT.gt, float_lt_iff, compare_gt_iff_gt, compare_lt_iff_lt]
  tauto

theorem floatOrder?_eq_some_iff {o : Ordering} :
    floatOrder? x y = some o ↔ Proper x ∧ Proper y ∧ compare (doubleKey x) (doubleKey y) = o := by
  rw [floatOrder?]
  split
  next hlt =>
    obtain ⟨hx, hy, hcompare⟩ := float_lt_iff.mp hlt
    simp [hx, hy, hcompare]
  next hlt =>
  split
  next heq =>
    obtain ⟨hx, hy, hcompare⟩ := float_beq_iff.mp heq
    simp [hx, hy, hcompare]
  next heq =>
  split
  next hgt =>
    obtain ⟨hx, hy, hcompare⟩ := float_gt_iff.mp hgt
    simp [hx, hy, hcompare]
  next hgt =>
    rw [float_lt_iff] at hlt
    rw [float_beq_iff] at heq
    rw [float_gt_iff] at hgt
    constructor
    · exact fun h => absurd h.symm (Option.some_ne_none o)
    · rintro ⟨hx, hy, hcompare⟩
      cases o
      · exact absurd ⟨hx, hy, hcompare⟩ hlt
      · exact absurd ⟨hx, hy, hcompare⟩ heq
      · exact absurd ⟨hx, hy, hcompare⟩ hgt

end TrialLoop
