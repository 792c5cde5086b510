import TrialLoop.Value.Arith
import Mathlib.Data.Rat.Floor

namespace TrialLoop

/-- A quotient and a remainder that is zero or has the sign of the divisor. -/
structure FloorDivision (x y q r : Int) : Prop where
  eq : x = q * y + r
  sign : r = 0 ∨ (r < 0 ↔ y < 0)
  lt : r.natAbs < y.natAbs

namespace FloorDivision

theorem eq_floor {x y q r : Int} (h : FloorDivision x y q r) : q = ⌊(x : ℚ) / y⌋ := by
  obtain ⟨heq, hsign, hlt⟩ := h
  have hy : (y : ℚ) ≠ 0 := by
    have hne : y ≠ 0 := by omega
    exact_mod_cast hne
  have hsplit : (x : ℚ) / y = q + (r : ℚ) / y := by
    rw [heq]
    push_cast
    rw [add_div, mul_div_cancel_right₀ _ hy]
  have hrest : ⌊(r : ℚ) / y⌋ = 0 := by
    rw [Int.floor_eq_zero_iff]
    rcases lt_or_gt_of_ne hy with hneg | hpos
    · have hr : (r : ℚ) ≤ 0 ∧ (y : ℚ) < r := by
        have hy' : y < 0 := by exact_mod_cast hneg
        have hle : r ≤ 0 ∧ y < r := by omega
        exact_mod_cast hle
      exact ⟨div_nonneg_of_nonpos hr.1 hneg.le, (div_lt_one_of_neg hneg).mpr hr.2⟩
    · have hr : (0 : ℚ) ≤ r ∧ (r : ℚ) < y := by
        have hy' : 0 < y := by exact_mod_cast hpos
        have hle : 0 ≤ r ∧ r < y := by omega
        exact_mod_cast hle
      exact ⟨div_nonneg hr.1 hpos.le, (div_lt_one hpos).mpr hr.2⟩
  rw [hsplit, Int.floor_intCast_add, hrest, add_zero]

/-- Division toward zero, moved down by one where the remainder has the other sign. -/
theorem of_tdiv {x y : Int} (hy : y ≠ 0) :
    FloorDivision x y
      (if x.tmod y ≠ 0 ∧ ¬(x.tmod y < 0 ↔ y < 0) then x.tdiv y - 1 else x.tdiv y)
      (if x.tmod y ≠ 0 ∧ ¬(x.tmod y < 0 ↔ y < 0) then x.tmod y + y else x.tmod y) := by
  have heq := Int.mul_tdiv_add_tmod x y
  rw [Int.mul_comm] at heq
  have hlt : (x.tmod y).natAbs < y.natAbs := by
    rw [Int.natAbs_tmod]
    exact Nat.mod_lt _ (by omega)
  split
  next hdiffer =>
    refine ⟨?_, by omega, by omega⟩
    rw [Int.sub_mul]
    omega
  next hsame =>
    exact ⟨heq.symm, by omega, hlt⟩

end FloorDivision

namespace Value

variable {x y : Int64}

theorem signsDiffer_iff :
    signsDiffer x y = true ↔ x.toInt ≠ 0 ∧ ¬(x.toInt < 0 ↔ y.toInt < 0) := by
  have hzero : x ≠ 0 ↔ x.toInt ≠ 0 := not_congr Int64.toInt_inj.symm
  rw [signsDiffer, Bool.and_eq_true, bne_iff_ne, bne_iff_ne, hzero]
  simp only [ne_eq, decide_eq_decide, Int64.lt_iff_toInt_lt, Int64.toInt_zero]

theorem toInt_eq_of_bmod {w : Int64} {n : Int} (h : w.toInt = n.bmod (2 ^ 64))
    (hlow : -(2 ^ 63) ≤ n) (hhigh : n < 2 ^ 63) : w.toInt = n := by
  rw [h, Int.bmod_eq_of_le] <;> omega

theorem toInt_div (h : ¬(x = Int64.minValue ∧ y = -1)) :
    (x / y).toInt = x.toInt.tdiv y.toInt := by
  by_cases hx : x = Int64.minValue
  · exact Int64.toInt_div_of_ne_right _ _ fun hy => h ⟨hx, hy⟩
  · exact Int64.toInt_div_of_ne_left _ _ hx

/-- Each operation on words on the way to a quotient and a remainder has the exact result. -/
structure DivisionFits (x y : Int64) : Prop where
  quotient : ¬(x = Int64.minValue ∧ y = -1) → (x / y).toInt = x.toInt.tdiv y.toInt
  remainder : (x % y).toInt = x.toInt.tmod y.toInt
  lowered : ¬(x = Int64.minValue ∧ y = -1) → signsDiffer (x % y) y →
    (x / y - 1).toInt = (x / y).toInt - 1
  moved : signsDiffer (x % y) y → (x % y + y).toInt = (x % y).toInt + y.toInt

/-- A quotient that is lowered is not the least word: its divisor is none of one and minus one. -/
theorem min_lt_tdiv (hrem : x.toInt.tmod y.toInt ≠ 0) :
    -(2 ^ 63) < x.toInt.tdiv y.toInt := by
  have hle : -(2 ^ 63) ≤ x.toInt := x.le_toInt
  have hhigh : x.toInt < 2 ^ 63 := x.toInt_lt
  have hone : y.toInt.natAbs ≠ 1 := by
    intro hone
    apply hrem
    rw [← Int.natAbs_eq_zero, Int.natAbs_tmod, hone, Nat.mod_one]
  have habs : (x.toInt.tdiv y.toInt).natAbs = x.toInt.natAbs / y.toInt.natAbs :=
    Int.natAbs_tdiv _ _
  have hhalf : x.toInt.natAbs / y.toInt.natAbs ≤ x.toInt.natAbs / 2 := by
    rcases Nat.eq_zero_or_pos y.toInt.natAbs with hzero | hpos
    · simp [hzero]
    · exact Nat.div_le_div_left (by omega) (by omega)
  omega

theorem divisionFits : DivisionFits x y := by
  have hrem : (x % y).toInt = x.toInt.tmod y.toInt := Int64.toInt_mod _ _
  refine ⟨toInt_div, hrem, ?_, ?_⟩
  · intro hexact hdiffer
    have hne := (signsDiffer_iff.mp hdiffer).1
    rw [hrem] at hne
    have hlow := min_lt_tdiv hne
    have hhigh : (x / y).toInt < 2 ^ 63 := (x / y).toInt_lt
    rw [← toInt_div hexact] at hlow
    apply toInt_eq_of_bmod (Int64.toInt_sub _ _)
    · show -(2 ^ 63) ≤ (x / y).toInt - 1
      omega
    · show (x / y).toInt - 1 < 2 ^ 63
      omega
  · intro hdiffer
    obtain ⟨-, hsign⟩ := signsDiffer_iff.mp hdiffer
    have hle := (x % y).le_toInt
    have hlt := (x % y).toInt_lt
    have hle' := y.le_toInt
    have hlt' := y.toInt_lt
    apply toInt_eq_of_bmod (Int64.toInt_add _ _)
    · omega
    · omega

/-- The quotient and the remainder as the words that are computed. -/
theorem floorDivision_words (hy : y ≠ 0) (hexact : ¬(x = Int64.minValue ∧ y = -1)) :
    FloorDivision x.toInt y.toInt
      (if signsDiffer (x % y) y then x / y - 1 else x / y).toInt
      (if signsDiffer (x % y) y then x % y + y else x % y).toInt := by
  obtain ⟨hquotient, hrem, hlowered, hmoved⟩ := divisionFits (x := x) (y := y)
  have hdiv := FloorDivision.of_tdiv (x := x.toInt) (y := y.toInt)
    fun h => hy (Int64.toInt_inj.mp h)
  by_cases hdiffer : signsDiffer (x % y) y = true
  · have hcond := signsDiffer_iff.mp hdiffer
    rw [hrem] at hcond
    rw [if_pos hcond, if_pos hcond] at hdiv
    rw [if_pos hdiffer, if_pos hdiffer, hlowered hexact hdiffer, hmoved hdiffer, hquotient hexact,
      hrem]
    exact hdiv
  · have hcond := mt signsDiffer_iff.mpr hdiffer
    rw [hrem] at hcond
    rw [if_neg hcond, if_neg hcond] at hdiv
    rw [if_neg hdiffer, if_neg hdiffer, hquotient hexact, hrem]
    exact hdiv

variable {a b : Value}

theorem integers?_of_words (ha : a.word? = some x) (hb : b.word? = some y) :
    integers? a b = some (x, y) := by
  simp [integers?, ha, hb]

theorem floorDiv_rem_words (ha : a.word? = some x) (hb : b.word? = some y) :
    DivisionFits x y ∧
    (y = 0 → floorDiv a b = .error (.arithmetic .floorDivision) ∧
      rem a b = .error (.arithmetic .modulo)) ∧
    (y ≠ 0 → ∃ (q : Int) (r : Int64),
      FloorDivision x.toInt y.toInt q r.toInt ∧ q = ⌊(x.toInt : ℚ) / y.toInt⌋ ∧
      rem a b = .ok (.int r) ∧
      if x = Int64.minValue ∧ y = -1 then
        fit? q = none ∧ r = 0 ∧ floorDiv a b = .ok (.float (-(intFloat x)))
      else ∃ k : Int64, k.toInt = q ∧ floorDiv a b = .ok (.int k)) := by
  have hwords := integers?_of_words ha hb
  refine ⟨divisionFits, fun hy => ?_, fun hy => ?_⟩
  · rw [floorDiv, rem, hwords]
    exact ⟨if_pos hy, if_pos hy⟩
  · have hrem : rem a b = .ok (.int (if signsDiffer (x % y) y then x % y + y else x % y)) := by
      rw [rem, hwords]
      exact if_neg hy
    by_cases hexact : x = Int64.minValue ∧ y = -1
    case pos =>
      obtain ⟨rfl, rfl⟩ := hexact
      have hfloor : FloorDivision Int64.minValue.toInt (-1 : Int64).toInt (2 ^ 63)
          (0 : Int64).toInt := ⟨by decide, by decide, by decide⟩
      refine ⟨2 ^ 63, 0, hfloor, hfloor.eq_floor, hrem, ?_⟩
      rw [if_pos ⟨rfl, rfl⟩, floorDiv, hwords]
      exact ⟨by decide, rfl, rfl⟩
    case neg =>
      have hfloor := floorDivision_words hy hexact
      refine ⟨_, _, hfloor, hfloor.eq_floor, hrem, ?_⟩
      rw [if_neg hexact, floorDiv, hwords]
      refine ⟨_, rfl, ?_⟩
      simp only [if_neg hy, if_neg hexact]

theorem floorDiv_rem_words_minus_seven :
    ∃ (q : Int) (r : Int64), FloorDivision (-7) 2 q r.toInt ∧
      rem (.int (-7)) (.int 2) = .ok (.int r) ∧
      ∃ k : Int64, k.toInt = q ∧ floorDiv (.int (-7)) (.int 2) = .ok (.int k) := by
  obtain ⟨q, r, hfloor, -, hrem, hquotient⟩ :=
    (floorDiv_rem_words (a := .int (-7)) (b := .int 2) rfl rfl).2.2 (by decide)
  rw [if_neg (by decide)] at hquotient
  exact ⟨q, r, hfloor, hrem, hquotient⟩

end Value

end TrialLoop
