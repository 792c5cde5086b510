import TrialLoop.Table.Basic
import Mathlib.Data.List.FinRange

namespace TrialLoop

namespace Table

/-- The cell in a row and in the column at a place. -/
def cellAt? (t : Table) (row place : Nat) : Option Cell :=
  t.rows[row]?.bind (·[place]?)

/-- The cells of the column at a place, from the first row on. -/
def cellsOf (t : Table) (place : Nat) : List Cell :=
  t.rows.toList.filterMap (·[place]?)

theorem cellAt?_of_row {t : Table} {i : Nat} {row : Array Cell} (h : t.rows[i]? = some row)
    (place : Nat) : t.cellAt? i place = row[place]? := by
  rw [cellAt?, h]
  rfl

/-- In a table with a column of each name once, the cells of a row are those of its columns. -/
theorem mem_zip_columns {t : Table} (h : t.columns.Nodup) {row : Nat} {column : String}
    {cell : Cell} :
    (column, cell) ∈ t.columns.zip (t.rows.getD row #[]).toList ↔
      t.get? row column = some cell := by
  simp only [get?, Option.bind_eq_bind, Option.bind_eq_some_iff, List.mem_iff_getElem?,
    List.getElem?_zip_eq_some, List.findIdx?_eq_some_iff_getElem]
  constructor
  · rintro ⟨i, hi, hc⟩
    obtain ⟨hb, hi⟩ := List.getElem?_eq_some_iff.mp hi
    refine ⟨i, ⟨hb, by simpa using hi, ?_⟩, t.rows.getD row #[], ?_, by simpa using hc⟩
    · intro j hj
      have hne := List.pairwise_iff_getElem.mp h j i (by omega) hb hj
      simpa [hi] using hne
    · cases hr : t.rows[row]? with
      | none => simp [hr] at hc
      | some cells => simp [hr]
  · rintro ⟨i, ⟨hb, hi, -⟩, cells, hr, hc⟩
    refine ⟨i, List.getElem?_eq_some_iff.mpr ⟨hb, by simpa using hi⟩, ?_⟩
    simpa [hr] using hc

/-- Tables with the same columns and the same cells at the same places are equal. -/
theorem eq_of_cellAt? {t u : Table} (hcolumns : u.columns = t.columns) (hsize : u.size = t.size)
    (h : ∀ i < t.size, ∀ place, u.cellAt? i place = t.cellAt? i place) : u = t := by
  have hrows : u.rows = t.rows := by
    refine Array.ext hsize fun i hu ht => Array.ext_getElem? fun place => ?_
    rw [← cellAt?_of_row (Array.getElem?_eq_getElem hu),
      ← cellAt?_of_row (Array.getElem?_eq_getElem ht)]
    exact h i ht place
  cases t
  cases u
  simp_all

theorem cellsOf_eq {t : Table} {n : Nat} (h : t.size = n) (place : Nat) :
    t.cellsOf place = (List.finRange n).filterMap fun i => t.cellAt? i.val place := by
  subst h
  have hrows : (List.finRange t.rows.toList.length).map (t.rows.toList[·.val]) = t.rows.toList :=
    List.map_getElem_finRange _
  rw [cellsOf, ← hrows, List.filterMap_map]
  apply List.filterMap_congr
  intro i _
  exact (cellAt?_of_row (Array.getElem?_eq_getElem i.isLt) place).symm

/-- Rows that are all there are picked one after the other. -/
theorem rows_pickRows {t : Table} {order : Array Nat} (h : ∀ row ∈ order, row < t.size) :
    (t.pickRows order).rows = order.map (t.rows.getD · #[]) := by
  have hall : ∀ row ∈ order.toList, t.rows[row]? = some (t.rows.getD row #[]) := by
    intro row hrow
    have hlt : row < t.rows.size := h row (Array.mem_toList_iff.mp hrow)
    simp [hlt]
  apply Array.toList_inj.mp
  rw [pickRows, Array.toList_filterMap, Array.toList_map, List.filterMap_congr hall,
    List.filterMap_eq_map']

theorem size_pickRows {t : Table} {order : Array Nat} (h : ∀ row ∈ order, row < t.size) :
    (t.pickRows order).size = order.size := by
  rw [size, rows_pickRows h, Array.size_map]

theorem getElem?_rows_pickRows {t : Table} {order : Array Nat} (h : ∀ row ∈ order, row < t.size)
    {i row : Nat} (hi : order[i]? = some row) : (t.pickRows order).rows[i]? = t.rows[row]? := by
  have hlt : row < t.rows.size := h row (Array.mem_of_getElem? hi)
  rw [rows_pickRows h, Array.getElem?_map, hi]
  simp [hlt]

theorem cellAt?_pickRows {t : Table} {order : Array Nat} (h : ∀ row ∈ order, row < t.size)
    {i row : Nat} (hi : order[i]? = some row) (place : Nat) :
    (t.pickRows order).cellAt? i place = t.cellAt? row place := by
  rw [cellAt?, cellAt?, getElem?_rows_pickRows h hi]

end Table

end TrialLoop
