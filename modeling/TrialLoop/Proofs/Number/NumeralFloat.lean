import TrialLoop.Proofs.Number.FloatOrder

namespace TrialLoop

open Float.Model (UnpackedFloat Format)
open Float.Model.UnpackedFloat

variable {u v : UnpackedFloat} {x : Float}

theorem unpack_packComponents_ne_nan {s : UnpackedFloat.Sign} {e : BitVec 11} {m : BitVec 52}
    (he : e ≠ -1#11) :
    unpack .binary64 (packComponents .binary64 s e m) ≠ .notANumber := by
  simp only [unpack, unpackMantissa_packComponents, unpackExponent_packComponents]
  rw [if_neg he]
  split
  · split
    · exact zero_ne_nan _
    · exact finite_ne_nan _ _ _
  · exact finite_ne_nan _ _ _

theorem unpack_pack_ne_nan (hu : u ≠ .notANumber) :
    unpack .binary64 (pack .binary64 u) ≠ .notANumber := by
  have hinfinity (s : UnpackedFloat.Sign) :
      unpack .binary64 (packedInfinity .binary64 s) = .infinity s := by
    cases s <;> rfl
  cases u with
  | notANumber => exact absurd rfl hu
  | infinity s =>
    rw [pack, hinfinity]
    exact infinity_ne_nan s
  | zero s =>
    have hzero : unpack .binary64 (pack .binary64 (.zero s)) = .zero s := by
      cases s <;> rfl
    rw [hzero]
    exact zero_ne_nan s
  | finite s m e h =>
    rw [pack]
    split
    next =>
      rw [hinfinity]
      exact infinity_ne_nan s
    next hfinite =>
    split
    next =>
      apply unpack_packComponents_ne_nan
      intro heq
      have hfield := congrArg BitVec.toNat heq
      have hlt : (e + 1023 + 52).toNat + 1 < 2048 := not_le.mp hfinite
      change (e + 1023 + 52).toNat % 2048 = 2047 at hfield
      omega
    next => exact unpack_packComponents_ne_nan (by decide)

theorem roundWithAccuracy_ne_nan (s : UnpackedFloat.Sign) (m : Nat) (e : ℤ) (a : Accuracy) :
    roundWithAccuracy .binary64 s m e a ≠ .notANumber := by
  simp only [roundWithAccuracy]
  split
  · exact zero_ne_nan s
  · exact finite_ne_nan _ _ _

def IsFinite (u : UnpackedFloat) : Prop :=
  ∃ s m e h, u = .finite s m e h

theorem mul_ne_nan (hu : u ≠ .notANumber) (hv : IsFinite v) : u.mul .binary64 v ≠ .notANumber := by
  obtain ⟨s, m, e, h, rfl⟩ := hv
  cases u with
  | notANumber => exact absurd rfl hu
  | infinity => exact infinity_ne_nan _
  | zero => exact zero_ne_nan _
  | finite => exact roundWithAccuracy_ne_nan _ _ _ _

theorem div_ne_nan (hu : u ≠ .notANumber) (hv : IsFinite v) : u.div .binary64 v ≠ .notANumber := by
  obtain ⟨s, m, e, h, rfl⟩ := hv
  cases u with
  | notANumber => exact absurd rfl hu
  | infinity => exact infinity_ne_nan _
  | zero => exact zero_ne_nan _
  | finite => exact roundWithAccuracy_ne_nan _ _ _ _

theorem ofNat_ne_nan (n : Nat) : ofNat .binary64 n ≠ .notANumber := by
  rw [UnpackedFloat.ofNat, UnpackedFloat.ofInt, UnpackedFloat.normalize]
  split
  · exact roundWithAccuracy_ne_nan _ _ _ _
  · exact zero_ne_nan _
  · exact roundWithAccuracy_ne_nan _ _ _ _

theorem ofScientific_ne_nan (m : Nat) (e : ℤ) : ofScientific .binary64 m e ≠ .notANumber := by
  rw [ofScientific]
  split
  · exact zero_ne_nan _
  split
  · exact infinity_ne_nan _
  split
  · exact zero_ne_nan _
  split
  · exact mul_ne_nan (finite_ne_nan _ _ _) ⟨_, _, _, _, rfl⟩
  · exact div_ne_nan (finite_ne_nan _ _ _) ⟨_, _, _, _, rfl⟩

theorem isFinite_powerOfTen (e : Fin Float.exactlyRepresentablePowersOfTen.size) :
    IsFinite (Float.exactlyRepresentablePowersOfTen[e]).toModel.unpack := by
  change Fin 23 at e
  fin_cases e <;> exact ⟨_, _, _, _, rfl⟩

theorem proper_ofScientific (m : Nat) (s : Bool) (e : Nat) : Proper (Float.ofScientific m s e) := by
  have hword : unpack .binary64 (pack .binary64 (ofUInt64 .binary64 m.toUInt64)) ≠ .notANumber :=
    unpack_pack_ne_nan (ofNat_ne_nan _)
  rw [Float.ofScientific]
  split
  next h =>
    have hpower := isFinite_powerOfTen ⟨e, Nat.lt_succ_of_le h.2⟩
    cases s
    · exact unpack_pack_ne_nan (mul_ne_nan hword hpower)
    · exact unpack_pack_ne_nan (div_ne_nan hword hpower)
  next => exact unpack_pack_ne_nan (ofScientific_ne_nan m _)

theorem Proper.neg (h : Proper x) : Proper (-x) := by
  apply unpack_pack_ne_nan
  revert h
  rw [Proper]
  cases x.toModel.unpack with
  | notANumber => exact fun h => absurd rfl h
  | infinity => exact fun _ => infinity_ne_nan _
  | zero => exact fun _ => zero_ne_nan _
  | finite => exact fun _ => finite_ne_nan _ _ _

theorem proper_nearestFloat (ds : List Char) (e : ℤ) : Proper (nearestFloat ds e) := by
  rw [nearestFloat]
  split
  · exact proper_ofScientific 0 true 1
  split
  · have hinfinite : (1.0 / 0.0 : Float).toModel.unpack = .infinity .positive := rfl
    rw [Proper, hinfinite]
    exact infinity_ne_nan _
  split
  · exact proper_ofScientific 0 true 1
  · exact proper_ofScientific _ _ _

/-- No numeral is read as a NaN. -/
theorem proper_numeral (n : Numeral) : Proper n.float := by
  rw [Numeral.float]
  split
  · exact (proper_nearestFloat _ _).neg
  · exact proper_nearestFloat _ _

end TrialLoop
