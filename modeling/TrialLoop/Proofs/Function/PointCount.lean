import TrialLoop.Function.Geometry
import TrialLoop.Proofs.Except
import Mathlib.Data.List.Flatten

namespace TrialLoop

variable {function : String} {columns rows : UInt64} {n : Nat} {cause : ValidationError}

theorem pointCount_eq_ok_iff :
    pointCount function columns rows = .ok n ↔
      columns.toNat * rows.toNat = n ∧ n ≤ maxLength := by
  unfold pointCount
  dsimp only
  split
  next h =>
    rw [Except.ok.injEq]
    exact ⟨fun hn => ⟨hn, hn ▸ h⟩, And.left⟩
  next h =>
    constructor
    · intro hn
      cases hn
    · rintro ⟨rfl, hn⟩
      exact absurd hn h

theorem pointCount_eq_error_iff :
    pointCount function columns rows = .error cause ↔
      maxLength < columns.toNat * rows.toNat ∧ cause = .pointCount function := by
  unfold pointCount
  dsimp only
  split
  next h =>
    constructor
    · intro hn
      cases hn
    · rintro ⟨hn, -⟩
      omega
  next h =>
    rw [Except.error.injEq]
    exact ⟨fun hn => ⟨Nat.lt_of_not_le h, hn.symm⟩, fun hn => hn.2.symm⟩

/-- An accepted product keeps both counts within the bound, unless one of them is zero. -/
theorem pointCount_sides_iff (h : pointCount function columns rows = .ok n) :
    (columns.toNat ≤ maxLength ∧ rows.toNat ≤ maxLength) ↔
      (columns = 0 → rows.toNat ≤ maxLength) ∧ (rows = 0 → columns.toNat ≤ maxLength) := by
  obtain ⟨rfl, hn⟩ := pointCount_eq_ok_iff.mp h
  refine ⟨fun hboth => ⟨fun _ => hboth.2, fun _ => hboth.1⟩, fun hzero => ?_⟩
  have hside {a b : UInt64} (hab : a.toNat * b.toNat ≤ maxLength)
      (hb : b = 0 → a.toNat ≤ maxLength) : a.toNat ≤ maxLength := by
    by_cases hne : b = 0
    · exact hb hne
    · have hpos : 0 < b.toNat := Nat.pos_of_ne_zero fun h0 => hne (UInt64.toNat_inj.mp h0)
      exact Nat.le_trans (Nat.le_mul_of_pos_right _ hpos) hab
  exact ⟨hside hn hzero.2, hside (by rwa [Nat.mul_comm]) hzero.1⟩

/-- A count of points is a whole number that is not negative and within the bound. -/
theorem pointsWanted_eq_ok_iff {v : Option Value} :
    pointsWanted function cause v = .ok n ↔
      ∃ i : Int64, v >>= Value.int? = some i ∧ i.toInt = n ∧ n ≤ maxLength := by
  have hone (i : Int64) (hi : 0 ≤ i.toInt) :
      pointCount function i.toUInt64 1 = .ok n ↔ i.toInt = n ∧ n ≤ maxLength := by
    have hword : i.toUInt64.toNat = i.toInt.toNat :=
      Int64.toNat_toUInt64_of_le (Int64.le_iff_toInt_le.mpr hi)
    rw [pointCount_eq_ok_iff, hword, UInt64.toNat_one, Nat.mul_one]
    omega
  unfold pointsWanted
  split
  next i hi =>
    simp only [hi, Option.some.injEq, exists_eq_left']
    split
    next hpos => exact hone i hpos
    next hneg =>
      constructor
      · intro h
        cases h
      · intro h
        omega
  next hnone => simp [hnone]

/-- The points of a grid, row by row, with as many rows and columns as are asked for. -/
def gridPoints (columns rows : Nat) (spacing pole : Float × Float) : List Value :=
  (gridPlaces rows spacing.2 pole.2).flatMap fun y =>
    (gridPlaces columns spacing.1 pole.1).map fun x => pointValue (x, y)

theorem length_gridPlaces (n : Nat) (spacing middle : Float) :
    (gridPlaces n spacing middle).length = n := by
  rw [gridPlaces, List.length_map, List.length_range]

theorem length_gridPoints (columns rows : Nat) (spacing pole : Float × Float) :
    (gridPoints columns rows spacing pole).length = rows * columns := by
  simp only [gridPoints, List.length_flatMap, List.length_map, length_gridPlaces, List.map_const',
    List.sum_replicate_nat]

section

variable {arguments : List Value} {counts spacing pole : Float × Float}
  (hcounts : pairOrBoth .gridCount arguments[0]? = .ok counts)
  (hspacing : pairOrBoth .gridSpacing arguments[1]? = .ok spacing)
  (hpole : poleOf arguments[2]? = .ok pole)

include hcounts hspacing hpole

/-- A grid has all its points, or is refused if they are too many. -/
theorem grid_eq :
    grid arguments =
      if (sideCount counts.1).toNat * (sideCount counts.2).toNat ≤ maxLength then
        .ok (.list (gridPoints (sideCount counts.1).toNat (sideCount counts.2).toNat spacing pole))
      else .error (.validation (.pointCount "xy_grid")) := by
  have hgrid : grid arguments =
      ((pointCount "xy_grid" (sideCount counts.1) (sideCount counts.2)).mapError .validation >>=
        fun n => if n = 0 then .ok (.list []) else .ok (.list (gridPoints
          (sideCount counts.1).toNat (sideCount counts.2).toNat spacing pole))) := by
    rw [grid, hcounts, hspacing, hpole]
    rfl
  have hnone (h : (sideCount counts.1).toNat * (sideCount counts.2).toNat = 0) :
      gridPoints (sideCount counts.1).toNat (sideCount counts.2).toNat spacing pole = [] := by
    rw [← List.length_eq_zero_iff, length_gridPoints, Nat.mul_comm, h]
  rw [hgrid]
  split
  next h =>
    rw [pointCount_eq_ok_iff.mpr ⟨rfl, h⟩]
    show (if _ = 0 then _ else _) = _
    split
    next hzero => rw [hnone hzero]
    next => rfl
  next h =>
    rw [pointCount_eq_error_iff.mpr ⟨Nat.lt_of_not_le h, rfl⟩]
    rfl

/-- Without columns a grid is accepted however many rows it has. -/
theorem grid_of_no_columns (h : sideCount counts.1 = 0) : grid arguments = .ok (.list []) := by
  have hempty (rows : Nat) : gridPoints 0 rows spacing pole = [] := by
    rw [← List.length_eq_zero_iff, length_gridPoints, Nat.mul_zero]
  rw [grid_eq hcounts hspacing hpole, h, if_pos (by simp), UInt64.toNat_zero, hempty]

end

/-- A grid with no columns and one row more than the bound. -/
theorem grid_rows_exceed_maxLength :
    pairOrBoth .gridCount (some (.list [.int 0, .int 16777217])) = .ok (0, 16777217) ∧
      maxLength < (sideCount 16777217).toNat ∧
      grid [.list [.int 0, .int 16777217], .int 10] = .ok (.list []) := by
  refine ⟨?_, ?_, ?_⟩
  · rfl
  · decide +kernel
  · rfl

end TrialLoop
