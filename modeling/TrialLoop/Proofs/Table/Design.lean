import TrialLoop.Proofs.Table.Cells
import TrialLoop.Proofs.Table.Rectangular
import Mathlib.Algebra.BigOperators.Fin
import Mathlib.Data.List.GetD

namespace TrialLoop

namespace Table

/-- The cells of the column at a place that a full design combines with those of the others. -/
def levelsOf (t : Table) (place : Nat) : List Cell :=
  (t.cellsOf place).filter (!·.isEmpty)

/-- The number of combinations of the levels of some columns, from the first one on. -/
def combinations (t : Table) (columns : Nat) : Nat :=
  ∏ place ∈ Finset.range columns, (t.levelsOf place).length

/-- A cell that a row does not have counts as unset, so it is no level. -/
theorem filter_getD_unset (rows : List (Array Cell)) (place : Nat) :
    (rows.map (·.getD place .unset)).filter (!·.isEmpty) =
      (rows.filterMap (·[place]?)).filter (!·.isEmpty) := by
  induction rows with
  | nil => rfl
  | cons row rows ih =>
    rw [List.map_cons, List.filterMap_cons]
    rcases h : row[place]? with _ | cell
    · have hget : row.getD place .unset = .unset := by simp [Array.getD_eq_getD_getElem?, h]
      rw [hget]
      exact ih
    · have hget : row.getD place .unset = cell := by simp [Array.getD_eq_getD_getElem?, h]
      rw [hget, List.filter_cons, List.filter_cons, ih]

theorem levels_eq (t : Table) :
    t.levels = (List.range t.columns.length).map fun place => (t.levelsOf place).toArray := by
  have hplaces : t.columns.zipIdx.map Prod.snd = List.range t.columns.length := by
    rw [List.zipIdx_map_snd, List.range_eq_range']
  rw [levels, unstack, List.map_map, ← hplaces, List.map_map]
  refine List.map_congr_left fun p _ => ?_
  exact congrArg List.toArray (filter_getD_unset t.rows.toList p.2)

theorem prod_take_sizes (t : Table) {k : Nat} (h : k ≤ t.columns.length) :
    ((t.levels.map (·.size)).take k).prod = t.combinations k := by
  rw [levels_eq, List.map_map, ← List.map_take, List.take_range, Nat.min_eq_left h]
  rfl

/-- A number in mixed radix: each column takes its digit and passes on what is left. -/
theorem getElem?_designRow (levels : List (Array Cell)) (i place : Nat) :
    (designRow levels i)[place]? = levels[place]?.map fun cells =>
      cells.getD (i / ((levels.map (·.size)).take place).prod % cells.size) .unset := by
  induction levels generalizing i place with
  | nil => rfl
  | cons cells rest ih =>
    cases place with
    | zero => simp [designRow]
    | succ place =>
      rw [designRow, List.getElem?_cons_succ, ih, List.getElem?_cons_succ, List.map_cons,
        List.take_succ_cons, List.prod_cons, Nat.div_div_eq_div_mul]

/-- The product is taken from the left, and each product on the way must fit a word. -/
theorem foldlM_product_eq_some_iff (sizes : List Nat) (start n : Nat) :
    sizes.foldlM (fun product n => if product * n < 1 <<< 64 then some (product * n) else none)
      start = some n ↔
    n = start * sizes.prod ∧
      ∀ k < sizes.length, start * (sizes.take (k + 1)).prod < 2 ^ 64 := by
  induction sizes generalizing start with
  | nil => simp [eq_comm]
  | cons size sizes ih =>
    rw [List.foldlM_cons, List.length_cons]
    simp only [List.take_succ_cons, List.prod_cons, ← Nat.mul_assoc]
    constructor
    · intro h
      split at h
      next hfits =>
        obtain ⟨hn, hrest⟩ := (ih (start * size)).mp h
        refine ⟨hn, fun k hk => ?_⟩
        cases k with
        | zero => simpa using hfits
        | succ k => exact hrest k (by omega)
      next => cases h
    · rintro ⟨hn, hall⟩
      have hfits : start * size < 1 <<< 64 := by simpa using hall 0 (by omega)
      rw [if_pos hfits]
      exact (ih (start * size)).mpr ⟨hn, fun k hk => hall (k + 1) (by omega)⟩

theorem boundedProduct?_levels (t : Table) (n : Nat) :
    boundedProduct? (t.levels.map (·.size)) = some n ↔
      n = t.combinations t.columns.length ∧
        ∀ k < t.columns.length, t.combinations (k + 1) < 2 ^ 64 := by
  have hlength : (t.levels.map (·.size)).length = t.columns.length := by
    rw [List.length_map, length_levels]
  have hprod : (t.levels.map (·.size)).prod = t.combinations t.columns.length := by
    rw [← t.prod_take_sizes le_rfl, ← hlength, List.take_length]
  rw [boundedProduct?, foldlM_product_eq_some_iff, hlength, hprod, Nat.one_mul]
  refine and_congr_right fun _ => forall₂_congr fun k hk => ?_
  rw [t.prod_take_sizes hk, Nat.one_mul]

/-- A full design is refused if it is too large or if a product on the way does not fit a word. -/
theorem fullDesign_eq_ok_iff {t u : Table} (hc : t.columns ≠ []) :
    t.fullDesign = .ok u ↔
      t.combinations t.columns.length ≤ maxRows ∧
      (∀ k < t.columns.length, t.combinations (k + 1) < 2 ^ 64) ∧
      u = { t with rows := (Array.range (t.combinations t.columns.length)).map fun i =>
        (designRow t.levels i).toArray } := by
  rw [fullDesign, if_neg hc]
  rcases hp : boundedProduct? (t.levels.map (·.size)) with _ | n
  · simp only [hp]
    constructor
    · intro h
      cases h
    · rintro ⟨-, hfits, -⟩
      have hsome := (t.boundedProduct?_levels _).mpr ⟨rfl, hfits⟩
      rw [hp] at hsome
      cases hsome
  · obtain ⟨rfl, hfits⟩ := (t.boundedProduct?_levels n).mp hp
    simp only [hp]
    split
    next hn =>
      constructor
      · intro h
        exact ⟨hn, hfits, (Except.ok.inj h).symm⟩
      · rintro ⟨-, -, rfl⟩
        rfl
    next hn =>
      constructor
      · intro h
        cases h
      · rintro ⟨hle, -⟩
        exact absurd hle hn

theorem cellAt?_fullDesign {t u : Table} (hc : t.columns ≠ []) (h : t.fullDesign = .ok u)
    {i place : Nat} (hi : i < u.size) (hp : place < t.columns.length) :
    u.cellAt? i place =
      some ((t.levelsOf place).getD (i / t.combinations place % (t.levelsOf place).length)
        .unset) := by
  obtain ⟨-, -, rfl⟩ := (fullDesign_eq_ok_iff hc).mp h
  have hrow : i < t.combinations t.columns.length := by simpa [size] using hi
  have hlevels : t.levels[place]? = some (t.levelsOf place).toArray := by
    rw [levels_eq, List.getElem?_map, List.getElem?_range hp]
    rfl
  have hdigit := getElem?_designRow t.levels i place
  rw [hlevels, t.prod_take_sizes hp.le] at hdigit
  have hcells : ((Array.range (t.combinations t.columns.length)).map fun i =>
      (designRow t.levels i).toArray)[i]? = some (designRow t.levels i).toArray := by
    simp [hrow]
  rw [cellAt?_of_row hcells, List.getElem?_toArray, hdigit]
  simp

theorem combinations_eq_prod (t : Table) (columns : Nat) :
    t.combinations columns = ∏ place : Fin columns, (t.levelsOf place).length :=
  Finset.prod_range _

/-- The digits of a number of rows in mixed radix, one for each column. -/
theorem exists_digits (t : Table) (columns : Nat) :
    ∃ digits : Fin (t.combinations columns) ≃
        ((place : Fin columns) → Fin (t.levelsOf place).length),
      ∀ i place, (digits i place).val =
        i / t.combinations place % (t.levelsOf place).length := by
  have hsize := t.combinations_eq_prod columns
  refine ⟨(finCongr hsize).trans finPiFinEquiv.symm, fun i place => ?_⟩
  rw [t.combinations_eq_prod place]
  rfl

/--
A full design has every combination of the levels of its columns once: its rows count through the
combinations, and the first column changes fastest. Without a level in some column it has no rows.
-/
theorem fullDesign_enumerates {t u : Table} (hc : t.columns ≠ []) (h : t.fullDesign = .ok u) :
    u.columns = t.columns ∧ u.Rectangular ∧ u.size = t.combinations t.columns.length ∧
    ((∃ place < t.columns.length, t.levelsOf place = []) → u.rows = #[]) ∧
    ∃ digits : Fin u.size ≃
        ((place : Fin t.columns.length) → Fin (t.levelsOf place).length),
      ∀ (i : Fin u.size) (place : Fin t.columns.length),
        (digits i place).val = i / t.combinations place % (t.levelsOf place).length ∧
        u.cellAt? i place = some ((t.levelsOf place).get (digits i place)) := by
  have hrows := (fullDesign_eq_ok_iff hc).mp h
  have hsize : u.size = t.combinations t.columns.length := by
    rw [hrows.2.2]
    simp [size]
  obtain ⟨digits, hdigits⟩ := t.exists_digits t.columns.length
  refine ⟨by rw [hrows.2.2], ?_, hsize, ?_, (finCongr hsize).trans digits, fun i place => ?_⟩
  · rw [hrows.2.2]
    intro row hrow
    obtain ⟨i, -, rfl⟩ := Array.mem_map.mp hrow
    rw [List.size_toArray, length_designRow, length_levels]
  · rintro ⟨place, hp, hnone⟩
    have hzero : t.combinations t.columns.length = 0 :=
      Finset.prod_eq_zero (Finset.mem_range.mpr hp) (by rw [hnone]; rfl)
    exact Array.eq_empty_of_size_eq_zero (hsize.trans hzero)
  · have hdigit := hdigits (Fin.cast hsize i) place
    refine ⟨hdigit, ?_⟩
    have hcell := cellAt?_fullDesign hc h i.isLt place.isLt
    rw [← Fin.val_cast hsize i, ← hdigit, List.getD_eq_get] at hcell
    exact hcell

/-- Cells left out on both columns, and the four combinations of the levels that remain. -/
theorem fullDesign_enumerates_gaps :
    ∃ t u : Table, t.columns ≠ [] ∧ t.fullDesign = .ok u ∧ u.size = 4 ∧
      (u.cellAt? 1 0).map Cell.text = some "3" ∧
      ∃ digits : Fin u.size ≃ ((place : Fin t.columns.length) → Fin (t.levelsOf place).length),
        ∀ (i : Fin u.size) (place : Fin t.columns.length),
          u.cellAt? i place = some ((t.levelsOf place).get (digits i place)) := by
  let t : Table := ⟨["n", "w"], #[#[.literal (.int 1), .literal (.str "")],
    #[.unset, .literal (.str "a")], #[.literal (.int 3), .literal (.str "b")]]⟩
  obtain ⟨u, hu, hcell⟩ : ∃ u, t.fullDesign = .ok u ∧
      (u.cellAt? 1 0).map Cell.text = some "3" := ok_of_map (by decide +kernel)
  have hc : t.columns ≠ [] := by decide
  obtain ⟨-, -, hsize, -, digits, hdigits⟩ := fullDesign_enumerates hc hu
  have hfour : t.combinations t.columns.length = 4 := by decide +kernel
  exact ⟨t, u, hc, hu, hsize.trans hfour, hcell, digits, fun i place => (hdigits i place).2⟩

theorem combinations_le {t : Table} {k columns : Nat} (hk : k ≤ columns)
    (h : t.combinations columns ≠ 0) : t.combinations k ≤ t.combinations columns := by
  refine Nat.le_of_dvd (Nat.pos_of_ne_zero h) (Finset.prod_dvd_prod_of_subset _ _ _ ?_)
  exact Finset.range_subset_range.mpr hk

/-- What a full design is accepted for: not too many rows, and no product beyond a word. -/
theorem fullDesign_accepted_iff {t : Table} (hc : t.columns ≠ []) :
    (∃ u, t.fullDesign = .ok u) ↔
      t.combinations t.columns.length ≤ maxRows ∧
        ∀ k < t.columns.length, t.combinations (k + 1) < 2 ^ 64 := by
  simp only [fullDesign_eq_ok_iff hc, ← and_assoc, exists_eq_right]

/--
The bound on rows alone decides about a full design, but for those without rows whose first
columns have so many combinations that a word does not hold their number.
-/
theorem fullDesign_bounded_iff {t : Table} (hc : t.columns ≠ []) :
    ((∃ u, t.fullDesign = .ok u) ↔ t.combinations t.columns.length ≤ maxRows) ↔
      (t.combinations t.columns.length = 0 →
        ∀ k < t.columns.length, t.combinations (k + 1) < 2 ^ 64) := by
  rw [fullDesign_accepted_iff hc]
  constructor
  · intro h hzero
    exact (h.mpr (by omega)).2
  · intro h
    refine ⟨And.left, fun hle => ⟨hle, fun k hk => ?_⟩⟩
    by_cases hzero : t.combinations t.columns.length = 0
    · exact h hzero k hk
    · have hword : maxRows < 2 ^ 64 := by decide
      exact ((combinations_le hk hzero).trans hle).trans_lt hword

/-- Three levels in each of 41 columns, and a last column without one. -/
def lateEmptyColumn : Table where
  columns := (List.range' 1 41).map (fun i => "c" ++ toString i) ++ ["empty"]
  rows := #[1, 2, 3].map fun n => (Array.replicate 41 (.literal (.int n))).push .unset

/-- The same columns with the empty one first. -/
def earlyEmptyColumn : Table where
  columns := "empty" :: (List.range' 1 41).map (fun i => "c" ++ toString i)
  rows := #[1, 2, 3].map fun n => #[.unset] ++ Array.replicate 41 (.literal (.int n))

/-- A design without rows is refused as too large, and accepted if the empty column is first. -/
theorem lateEmptyColumn_refused :
    lateEmptyColumn.combinations 42 = 0 ∧ (¬ ∃ u, lateEmptyColumn.fullDesign = .ok u) ∧
      earlyEmptyColumn.combinations 42 = 0 ∧ ∃ u, earlyEmptyColumn.fullDesign = .ok u := by
  have hlate : lateEmptyColumn.combinations 42 = 0 := by decide +kernel
  have hearly : earlyEmptyColumn.combinations 42 = 0 := by decide +kernel
  refine ⟨hlate, ?_, hearly, ?_⟩
  · rw [fullDesign_accepted_iff (by decide +kernel)]
    rintro ⟨-, hfits⟩
    exact absurd (hfits 40 (by decide +kernel)) (by decide +kernel)
  · rw [fullDesign_accepted_iff (by decide +kernel)]
    decide +kernel

end Table

end TrialLoop
