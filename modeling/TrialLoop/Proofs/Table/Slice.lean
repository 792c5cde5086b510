import TrialLoop.Proofs.Table.Cells
import TrialLoop.Proofs.Table.Rectangular
import TrialLoop.Proofs.Value.Division

namespace TrialLoop

/-- The place among some rows that a bound means: from the end if negative, and never outside. -/
def boundPlace (rows bound : Int) : Int :=
  if bound < 0 then max (rows + bound) 0 else min bound rows

/-- The same place, found in words of 64 bits. -/
def boundWord (rows bound : Int64) : Int64 :=
  if bound < 0 then if rows + bound < 0 then 0 else rows + bound
  else if bound < rows then bound else rows

/-- The sum on the way to a place stays in the range of words, whatever the bound is. -/
theorem toInt_rows_add {n : Nat} (hn : n < 2 ^ 63) {bound : Int64} (h : bound.toInt < 0) :
    (Int64.ofNat n + bound).toInt = n + bound.toInt := by
  have hrows : (Int64.ofNat n).toInt = n := Int64.toInt_ofNat_of_lt hn
  have hbound := bound.le_toInt
  apply Value.toInt_eq_of_bmod
  · rw [Int64.toInt_add, hrows]
  · omega
  · omega

theorem toInt_boundWord {n : Nat} (hn : n < 2 ^ 63) (bound : Int64) :
    (boundWord (Int64.ofNat n) bound).toInt = boundPlace n bound.toInt := by
  have hrows : (Int64.ofNat n).toInt = n := Int64.toInt_ofNat_of_lt hn
  unfold boundWord boundPlace
  simp only [Int64.lt_iff_toInt_lt, Int64.toInt_zero, hrows]
  by_cases hneg : bound.toInt < 0
  · rw [if_pos hneg, if_pos hneg, toInt_rows_add hn hneg]
    split
    next hlow => rw [max_eq_right hlow.le, Int64.toInt_zero]
    next hlow => rw [max_eq_left (not_lt.mp hlow), toInt_rows_add hn hneg]
  · rw [if_neg hneg, if_neg hneg]
    split
    next hlow => rw [min_eq_left hlow.le]
    next hlow => rw [min_eq_right (not_lt.mp hlow), hrows]

namespace Table

theorem boundIn_eq (rows : Nat) (bound : Int64) :
    (boundIn rows bound : Int) = boundPlace rows bound.toInt := by
  unfold boundIn boundPlace
  dsimp only
  split <;> omega

/-- Rows that follow one another are picked as one run. -/
theorem pickRows_range' (t : Table) {first last : Nat} (h : last ≤ t.size) :
    t.pickRows (Array.range' first (last - first)) = ⟨t.columns, t.rows.extract first last⟩ := by
  have hall : ∀ row ∈ Array.range' first (last - first), row < t.size := by
    intro row hrow
    have hplace := Array.mem_range'_1.mp hrow
    omega
  have hrows : (t.pickRows (Array.range' first (last - first))).rows =
      t.rows.extract first last := by
    rw [rows_pickRows hall]
    have hsize : t.size = t.rows.size := rfl
    refine Array.ext (by simp; omega) fun i hi hi' => ?_
    have hplace : first + i < t.rows.size := by
      simp only [Array.size_extract] at hi'
      omega
    simp [hplace]
  exact congrArg (Table.mk t.columns) hrows

theorem slice_eq (t : Table) (start : Int64) (stop : Option Int64) :
    t.slice start stop = ⟨t.columns, t.rows.extract (boundIn t.size start)
      ((stop.map (boundIn t.size)).getD t.size)⟩ :=
  t.pickRows_range' (stop_le t.size stop)

/-- Two runs that meet at a place are all rows together. -/
theorem slice_append_slice (t : Table) (k : Int64) :
    (t.slice 0 (some k)).rows ++ (t.slice k none).rows = t.rows := by
  have hzero : boundIn t.size 0 = 0 := by simp [boundIn]
  have hk := boundIn_le t.size k
  rw [slice_eq, slice_eq]
  simp only [hzero, Option.map_some, Option.map_none, Option.getD_some, Option.getD_none]
  rw [Array.extract_append_extract, Nat.zero_min, Nat.max_eq_right hk]
  exact Array.extract_eq_self_iff.mpr (.inr ⟨rfl, Nat.le_refl _⟩)

/--
A slice keeps the columns and is one run of the rows, from the place of one bound up to that of
another or to the end; it is empty if the second does not lie behind the first. Two slices that
meet at a bound are all rows together. The places are found in words of 64 bits, in which no
number on the way leaves its range, whatever the bounds are.
-/
theorem slice_is_run (t : Table) :
    (∀ (start : Int64) (stop : Option Int64), ∃ first last : Nat,
      (first : Int) = boundPlace t.size start.toInt ∧
      (last : Int) = (stop.map fun bound => boundPlace t.size bound.toInt).getD t.size ∧
      (t.slice start stop).columns = t.columns ∧
      (t.slice start stop).rows = t.rows.extract first last ∧
      (last ≤ first → (t.slice start stop).rows = #[])) ∧
    (∀ k : Int64, (t.slice 0 (some k)).rows ++ (t.slice k none).rows = t.rows) ∧
    (t.size < 2 ^ 63 → ∀ bound : Int64,
      (bound.toInt < 0 → (Int64.ofNat t.size + bound).toInt = t.size + bound.toInt) ∧
      (boundWord (Int64.ofNat t.size) bound).toInt = boundPlace t.size bound.toInt) := by
  refine ⟨fun start stop => ?_, t.slice_append_slice, fun hn bound => ?_⟩
  · refine ⟨boundIn t.size start, (stop.map (boundIn t.size)).getD t.size, boundIn_eq _ start, ?_,
      ?_, ?_, fun hempty => ?_⟩
    · cases stop with
      | none => rfl
      | some bound => exact boundIn_eq _ bound
    · rw [slice_eq]
    · rw [slice_eq]
    · rw [slice_eq]
      exact Array.extract_eq_empty_of_le ((Nat.min_le_left _ _).trans hempty)
  · exact ⟨toInt_rows_add hn, toInt_boundWord hn bound⟩

/-- The least bound means the first row, and the greatest one the end. -/
theorem slice_is_run_extremes :
    ∃ t : Table, t.size < 2 ^ 63 ∧ t.size = 3 ∧
      (t.slice Int64.minValue (some Int64.maxValue)).rows = t.rows.extract 0 3 ∧
      (t.slice Int64.maxValue (some Int64.minValue)).rows = #[] ∧
      (boundWord (Int64.ofNat t.size) Int64.minValue).toInt = 0 := by
  let t : Table := ⟨["n"], #[#[.literal (.int 1)], #[.literal (.int 2)], #[.literal (.int 3)]]⟩
  have hn : t.size < 2 ^ 63 := by decide
  obtain ⟨hrun, -, hwords⟩ := slice_is_run t
  obtain ⟨first, last, hfirst, hlast, -, hrows, -⟩ :=
    hrun Int64.minValue (some Int64.maxValue)
  obtain ⟨first', last', hfirst', hlast', -, -, hempty⟩ :=
    hrun Int64.maxValue (some Int64.minValue)
  have hleast : boundPlace 3 Int64.minValue.toInt = 0 := by decide
  have hgreatest : boundPlace 3 Int64.maxValue.toInt = 3 := by decide
  obtain ⟨rfl, rfl⟩ : first = 0 ∧ last = 3 :=
    ⟨Int.ofNat_inj.mp (hfirst.trans hleast), Int.ofNat_inj.mp (hlast.trans hgreatest)⟩
  have hbehind : last' ≤ first' := by
    have hfirst'' : (first' : Int) = 3 := hfirst'.trans hgreatest
    have hlast'' : (last' : Int) = 0 := hlast'.trans hleast
    omega
  exact ⟨t, hn, rfl, hrows, hempty hbehind, (hwords hn Int64.minValue).2.trans hleast⟩

end Table

end TrialLoop
