import TrialLoop.Proofs.Table.Reorder
import Mathlib

namespace TrialLoop

namespace Cell

/-- The number that a cell is sorted by; other cells do not differ in it. -/
def sortNumber : Cell → Int64
  | literal (.int n) => n
  | _ => 0

/-- The text that a cell is sorted by; numbers do not differ in it. -/
def sortText : Cell → String
  | literal (.int _) => ""
  | c => c.text

/-- A cell without a float is an integer, or it is sorted by its kind and text. -/
theorem int_or_text {c : Cell} (h : c.isFloat = false) :
    (∃ n, c = literal (.int n)) ∨
      c.sortRank ≠ 0 ∧ c.sortNumber = 0 ∧ c.sortText = c.text ∧
        ∀ d, c.order d = (compare c.sortRank d.sortRank).then (compare c.text d.text) ∧
          d.order c = (compare d.sortRank c.sortRank).then (compare d.text c.text) := by
  have hplain {v : Value} (hv : v.isNumber = false) (d : Cell) :
      (literal v).order d =
        (compare (literal v).sortRank d.sortRank).then (compare v.text d.text) ∧
      d.order (literal v) =
        (compare d.sortRank (literal v).sortRank).then (compare d.text v.text) := by
    cases d <;> simp [order, hv, text]
  cases c with
  | formula f =>
    exact .inr ⟨Nat.succ_ne_zero 1, rfl, rfl, fun d => by cases d <;> exact ⟨rfl, rfl⟩⟩
  | literal v =>
    cases v with
    | int n => exact .inl ⟨n, rfl⟩
    | float x => cases h
    | null => exact .inr ⟨by decide, rfl, rfl, hplain rfl⟩
    | bool b => exact .inr ⟨Nat.one_ne_zero, rfl, rfl, hplain rfl⟩
    | str s => exact .inr ⟨Nat.one_ne_zero, rfl, rfl, hplain rfl⟩
    | list items => exact .inr ⟨Nat.one_ne_zero, rfl, rfl, hplain rfl⟩

end Cell

/-- A cell that is no float. -/
abbrev FloatFreeCell := {c : Cell // c.isFloat = false}

namespace FloatFreeCell

instance : Ord FloatFreeCell where
  compare c d := c.val.order d.val

/-- Without floats, cells have ranks first, then numbers by size and other cells by text. -/
theorem compare_eq (c d : FloatFreeCell) :
    compare c d = compareLex (compareOn (·.val.sortRank))
      (compareLex (compareOn (·.val.sortNumber)) (compareOn (·.val.sortText))) c d := by
  obtain ⟨c, hc⟩ := c
  obtain ⟨d, hd⟩ := d
  show c.order d = (compare c.sortRank d.sortRank).then
    ((compare c.sortNumber d.sortNumber).then (compare c.sortText d.sortText))
  rcases Cell.int_or_text hc with ⟨m, rfl⟩ | ⟨hc, hm, hct, horder⟩
  · rcases Cell.int_or_text hd with ⟨n, rfl⟩ | ⟨hd, -, -, horder⟩
    · show compare m n = (compare m n).then .eq
      cases compare m n <;> rfl
    · have hlt : compare (Cell.literal (.int m)).sortRank d.sortRank = .lt :=
        Nat.compare_eq_lt.mpr (Nat.pos_of_ne_zero hd)
      rw [(horder _).2, hlt]
      rfl
  · rw [(horder d).1]
    rcases Cell.int_or_text hd with ⟨n, rfl⟩ | ⟨hd, hn, hdt, -⟩
    · have hgt : compare c.sortRank (Cell.literal (.int n)).sortRank = .gt :=
        Nat.compare_eq_gt.mpr (Nat.pos_of_ne_zero hc)
      rw [hgt]
      rfl
    · rw [hm, hn, hct, hdt, Std.compare_self]
      rfl

instance : Std.TransOrd FloatFreeCell := by
  have h : (compare : FloatFreeCell → FloatFreeCell → Ordering) =
      compareLex (compareOn (·.val.sortRank))
        (compareLex (compareOn (·.val.sortNumber)) (compareOn (·.val.sortText))) :=
    funext₂ compare_eq
  rw [Std.TransOrd, h]
  infer_instance

end FloatFreeCell

theorem not_sublist_swap {α : Type} {l : List α} (h : l.Nodup) {a b : α} (hab : [a, b].Sublist l) :
    ¬ [b, a].Sublist l := by
  induction l with
  | nil => cases hab
  | cons x l ih =>
    obtain ⟨hx, hl⟩ := List.nodup_cons.mp h
    intro hba
    cases hab with
    | cons _ hab =>
      cases hba with
      | cons _ hba => exact ih hl hab hba
      | cons_cons _ _ => exact hx (hab.subset (by simp))
    | cons_cons _ hb =>
      cases hba with
      | cons _ hba => exact hx (hba.subset (by simp))
      | cons_cons _ _ => exact hx (hb.subset (by simp))

/-- The first numbers in the order of their keys, those with equal keys in their own order. -/
theorem pairwise_mergeSort_range {κ : Type} [Ord κ] [Std.TransOrd κ] (key : Nat → κ) (n : Nat) :
    ((List.range n).mergeSort fun i j => compare (key j) (key i) != .lt).Pairwise fun i j =>
      compare (key i) (key j) ≠ .gt ∧ (compare (key i) (key j) = .eq → i < j) := by
  have hle (i j : Nat) : (compare (key j) (key i) != .lt) = (compare (key i) (key j)).isLE := by
    rw [Std.OrientedOrd.eq_swap (a := key j)]
    cases compare (key i) (key j) <;> rfl
  simp only [hle]
  have htrans (i j k : Nat) := Std.TransOrd.isLE_trans (a := key i) (b := key j) (c := key k)
  have htotal (i j : Nat) :
      ((compare (key i) (key j)).isLE || (compare (key j) (key i)).isLE) = true := by
    rw [Std.OrientedOrd.eq_swap (a := key j)]
    cases compare (key i) (key j) <;> rfl
  have hnodup := (List.mergeSort_perm (List.range n)
    fun i j => (compare (key i) (key j)).isLE).nodup_iff.mpr List.nodup_range
  have hsorted := List.pairwise_mergeSort htrans htotal (List.range n)
  rw [List.pairwise_iff_forall_sublist] at hsorted ⊢
  intro i j hij
  refine ⟨Ordering.ne_gt_iff_isLE.mpr (hsorted hij), fun heq => ?_⟩
  by_contra hnot
  -- Otherwise `j` comes first among the numbers, and with an equal key it stays first.
  have hlt : j < i := by
    have hne : i ≠ j := by
      rintro rfl
      simpa using hnodup.sublist hij
    omega
  have hi : i < n := by
    have hmem := (List.mergeSort_perm _ _).subset (hij.subset (List.mem_cons_self))
    exact List.mem_range.mp hmem
  have hji : [j, i].Sublist (List.range n) := by
    have hsucc : [j, i].Sublist (List.range (i + 1)) := by
      rw [List.range_succ]
      exact (List.singleton_sublist.mpr (List.mem_range.mpr hlt)).append (.refl [i])
    exact hsucc.trans (List.range_sublist.mpr hi)
  refine not_sublist_swap hnodup hij (List.pair_sublist_mergeSort htrans htotal ?_ hji)
  rw [Std.OrientedOrd.eq_swap, heq]
  rfl

namespace Table

variable {t : Table} {place : Nat}

/-- The cell that a row is sorted by. -/
def sortKey (t : Table) (place row : Nat) : Cell :=
  (t.rows.map (·.getD place .unset)).getD row .unset

theorem sortKey_of_row {row : Nat} {cells : Array Cell} (h : t.rows[row]? = some cells) :
    t.sortKey place row = cells.getD place .unset := by
  simp [sortKey, Array.getD_eq_getD_getElem?, h]

theorem cellAt?_eq_sortKey (ht : t.Rectangular) (hplace : place < t.columns.length) {row : Nat}
    (hrow : row < t.size) : t.cellAt? row place = some (t.sortKey place row) := by
  have hcells : t.rows[row]? = some t.rows[row] := Array.getElem?_eq_getElem hrow
  have hwide : place < t.rows[row].size := by
    rw [ht _ (Array.getElem_mem hrow)]
    exact hplace
  rw [cellAt?_of_row hcells, sortKey_of_row hcells, Array.getD_eq_getD_getElem?,
    Array.getElem?_eq_getElem hwide]
  rfl

theorem getD_floatFree (h : ∀ c ∈ t.cellsOf place, c.isFloat = false) {cells : Array Cell}
    (hcells : cells ∈ t.rows) : (cells.getD place .unset).isFloat = false := by
  rw [Array.getD_eq_getD_getElem?]
  cases hc : cells[place]? with
  | none => rfl
  | some c => exact h c (List.mem_filterMap.mpr ⟨cells, Array.mem_toList_iff.mpr hcells, hc⟩)

theorem sortKey_floatFree (h : ∀ c ∈ t.cellsOf place, c.isFloat = false) (row : Nat) :
    (t.sortKey place row).isFloat = false := by
  cases hrow : t.rows[row]? with
  | none => simp [sortKey, Array.getD_eq_getD_getElem?, hrow, Cell.unset, Cell.isFloat]
  | some cells =>
    rw [sortKey_of_row hrow]
    exact getD_floatFree h (Array.mem_of_getElem? hrow)

theorem sortOrder_eq (h : ∀ c ∈ t.cellsOf place, c.isFloat = false) :
    (t.sortOrder place).toList = (List.range t.size).mergeSort fun i j =>
      (t.sortKey place j).order (t.sortKey place i) != .lt := by
  have hany : (t.rows.map (·.getD place .unset)).any Cell.isFloat = false := by
    rw [Array.any_eq_false']
    intro c hc
    obtain ⟨cells, hcells, rfl⟩ := Array.mem_map.mp hc
    rw [getD_floatFree h hcells]
    exact Bool.false_ne_true
  unfold sortOrder
  dsimp only
  rw [hany]
  rfl

/-- Floats apart, the places of the rows are sorted by their cells, and equal cells by place. -/
theorem sortOrder_pairwise (h : ∀ c ∈ t.cellsOf place, c.isFloat = false) :
    (t.sortOrder place).toList.Pairwise fun i j =>
      (t.sortKey place i).order (t.sortKey place j) ≠ .gt ∧
        ((t.sortKey place i).order (t.sortKey place j) = .eq → i < j) := by
  let key (row : Nat) : FloatFreeCell := ⟨t.sortKey place row, sortKey_floatFree h row⟩
  rw [sortOrder_eq h]
  exact pairwise_mergeSort_range key t.size

/-- The rows of a table sorted by a column, those with equal cells in the order they had. -/
structure StablySorted (t u : Table) (place : Nat) (σ : Equiv.Perm (Fin t.size)) : Prop where
  columns_eq : u.columns = t.columns
  size_eq : u.size = t.size
  rows_eq : ∀ i : Fin t.size, u.rows[i.val]? = t.rows[(σ i).val]?
  ordered : ∀ i j : Fin t.size, i < j → ∃ c d, u.cellAt? i place = some c ∧
    u.cellAt? j place = some d ∧ c.order d ≠ .gt ∧ (c.order d = .eq → σ i < σ j)

/-- One column of a table that is as in another one, while the others stay. -/
structure ColumnTaken (t u v : Table) (place : Nat) : Prop where
  columns_eq : v.columns = t.columns
  size_eq : v.size = t.size
  taken : ∀ i < t.size, v.cellAt? i place = u.cellAt? i place
  others : ∀ i < t.size, ∀ other, other ≠ place → v.cellAt? i other = t.cellAt? i other

theorem exists_stable_order (h : ∀ c ∈ t.cellsOf place, c.isFloat = false) :
    ∃ σ : Equiv.Perm (Fin t.size),
      (∀ i : Fin t.size, (t.sortOrder place)[i.val]? = some (σ i).val) ∧
      ∀ i j : Fin t.size, i < j →
        (t.sortKey place (σ i)).order (t.sortKey place (σ j)) ≠ .gt ∧
          ((t.sortKey place (σ i)).order (t.sortKey place (σ j)) = .eq → σ i < σ j) := by
  obtain ⟨σ, hσ⟩ := exists_perm_of_order (t.sortOrder_perm place)
  refine ⟨σ, hσ, fun i j hij => ?_⟩
  have hpairs := List.pairwise_iff_getElem.mp (sortOrder_pairwise h)
  have hplace (i : Fin t.size) (hi : i.val < (t.sortOrder place).toList.length) :
      (t.sortOrder place).toList[i.val] = (σ i).val :=
    (Array.getElem?_eq_some_iff.mp (hσ i)).2
  have hlength : (t.sortOrder place).toList.length = t.size := t.size_sortOrder place
  have hsorted := hpairs i j (i.isLt.trans_eq hlength.symm) (j.isLt.trans_eq hlength.symm) hij
  rwa [hplace, hplace] at hsorted

theorem sortBy_stablySorted (ht : t.Rectangular) {column : String}
    (hplace : t.columnIndex column = .ok place) {σ : Equiv.Perm (Fin t.size)}
    (hσ : ∀ i : Fin t.size, (t.sortOrder place)[i.val]? = some (σ i).val)
    (hsorted : ∀ i j : Fin t.size, i < j →
      (t.sortKey place (σ i)).order (t.sortKey place (σ j)) ≠ .gt ∧
        ((t.sortKey place (σ i)).order (t.sortKey place (σ j)) = .eq → σ i < σ j)) :
    ∃ u, t.sortBy column = .ok u ∧ t.StablySorted u place σ := by
  have hall : ∀ row ∈ t.sortOrder place, row < t.size := fun row hrow =>
    List.mem_range.mp ((t.sortOrder_perm place).subset (Array.mem_toList_iff.mpr hrow))
  refine ⟨t.pickRows (t.sortOrder place), by rw [sortBy, hplace]; rfl, rfl,
    (size_pickRows hall).trans (t.size_sortOrder place), fun i => ?_, fun i j hij => ?_⟩
  · exact getElem?_rows_pickRows hall (hσ i)
  · have hcell (i : Fin t.size) : (t.pickRows (t.sortOrder place)).cellAt? i place =
        some (t.sortKey place (σ i)) := by
      rw [cellAt?_pickRows hall (hσ i), cellAt?_eq_sortKey ht (columnIndex_lt hplace) (σ i).isLt]
    exact ⟨_, _, hcell i, hcell j, hsorted i j hij⟩

theorem sortColumn_taken (ht : t.Rectangular) {column : String}
    (hplace : t.columnIndex column = .ok place) {u : Table} {σ : Equiv.Perm (Fin t.size)}
    (hσ : ∀ i : Fin t.size, (t.sortOrder place)[i.val]? = some (σ i).val)
    (hu : t.StablySorted u place σ) :
    ∃ v, t.sortColumn column = .ok v ∧ t.ColumnTaken u v place := by
  have hmoved {i : Nat} (hi : i < t.size) (other : Nat) :=
    cellAt?_moveCells ht hi (σ ⟨i, hi⟩).isLt (hσ ⟨i, hi⟩) [place] other
  refine ⟨t.moveCells [place] (t.sortOrder place), by rw [sortColumn, hplace]; rfl, rfl,
    by simp [moveCells, size], fun i hi => ?_, fun i hi other hother => ?_⟩
  · rw [hmoved hi, if_pos List.mem_cons_self, cellAt?, cellAt?, hu.rows_eq ⟨i, hi⟩]
  · rw [hmoved hi, if_neg (by simpa using hother)]

/--
Floats apart, cells have a total order in which different cells may be equal, and tables are sorted
by it: the rows are rearranged so that each two of them are in order in the column, equal ones as
they were before. To sort the column alone gives it the same cells, and leaves the others.
-/
theorem sorted_stably {t : Table} (ht : t.Rectangular) {column : String} {place : Nat}
    (hplace : t.columnIndex column = .ok place)
    (hfloat : ∀ c ∈ t.cellsOf place, c.isFloat = false) :
    (Std.TransCmp fun c d : FloatFreeCell => c.val.order d.val) ∧
    ∃ (u v : Table) (σ : Equiv.Perm (Fin t.size)),
      t.sortBy column = .ok u ∧ t.StablySorted u place σ ∧
      t.sortColumn column = .ok v ∧ t.ColumnTaken u v place := by
  obtain ⟨σ, hσ, hsorted⟩ := exists_stable_order hfloat
  obtain ⟨u, hu, hstable⟩ := sortBy_stablySorted ht hplace hσ hsorted
  obtain ⟨v, hv, htaken⟩ := sortColumn_taken ht hplace hσ hstable
  exact ⟨inferInstanceAs (Std.TransOrd FloatFreeCell), u, v, σ, hu, hstable, hv, htaken⟩

/-- Integers come first, then texts, truth values and lists by their text, then formulas. -/
theorem sorted_stably_mixed :
    ∃ (t u v : Table) (σ : Equiv.Perm (Fin t.size)), t.Rectangular ∧
      t.columnIndex "k" = .ok 0 ∧ (∀ c ∈ t.cellsOf 0, c.isFloat = false) ∧
      t.sortBy "k" = .ok u ∧ t.StablySorted u 0 σ ∧
      (u.cellsOf 0).map Cell.text = ["2", "10", "10", "True", "['c']", "b", "b", "=1"] ∧
      (u.cellsOf 1).map Cell.text = ["4", "2", "7", "3", "5", "1", "6", "0"] ∧
      t.sortColumn "k" = .ok v ∧ t.ColumnTaken u v 0 := by
  let t : Table := ⟨["k", "n"], #[#[.formula ⟨"1", .literal (.int 1)⟩, .literal (.int 0)],
    #[.literal (.str "b"), .literal (.int 1)], #[.literal (.int 10), .literal (.int 2)],
    #[.literal (.bool true), .literal (.int 3)], #[.literal (.int 2), .literal (.int 4)],
    #[.literal (.list [.str "c"]), .literal (.int 5)], #[.literal (.str "b"), .literal (.int 6)],
    #[.literal (.int 10), .literal (.int 7)]]⟩
  have hrect : t.Rectangular := by simp [Rectangular, t]
  have hfloat : ∀ c ∈ t.cellsOf 0, c.isFloat = false := by simp [cellsOf, Cell.isFloat, t]
  obtain ⟨u, hu, hcells⟩ : ∃ u, t.sortBy "k" = .ok u ∧
      ((u.cellsOf 0).map Cell.text, (u.cellsOf 1).map Cell.text) =
        (["2", "10", "10", "True", "['c']", "b", "b", "=1"],
          ["4", "2", "7", "3", "5", "1", "6", "0"]) := ok_of_map (by cbv)
  obtain ⟨hkeys, hnumbers⟩ := Prod.mk.inj hcells
  have hplace : t.columnIndex "k" = .ok 0 := rfl
  obtain ⟨-, u', v, σ, hu', hsorted, hv, htaken⟩ := sorted_stably hrect hplace hfloat
  obtain rfl := Except.ok.inj (hu.symm.trans hu')
  exact ⟨t, u, v, σ, hrect, rfl, hfloat, hu, hsorted, hkeys, hnumbers, hv, htaken⟩

end Table

end TrialLoop
