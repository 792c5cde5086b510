import TrialLoop.Proofs.Table.Reorder
import TrialLoop.Proofs.Table.RowCells
import Mathlib.Data.List.Forall2

namespace TrialLoop

/-- What is done to items one after the other gives for each item what is done to it. -/
theorem mapM_forall₂ {σ α β : Type} (f : α → StateM σ β) (xs : List α) (s : σ) :
    List.Forall₂ (fun x y => ∃ s, y = (f x s).1) xs (xs.mapM f s).1 := by
  induction xs generalizing s with
  | nil => exact .nil
  | cons x xs ih =>
    rw [List.mapM_cons]
    exact .cons ⟨s, rfl⟩ (ih _)

namespace Table

variable {t : Table} {columns : List String}

theorem listed_of_mem (h : ∀ c ∈ columns, c ∈ t.columns) {place : Nat}
    (hplace : place ∈ t.listedPlaces columns) : t.Listed columns place := by
  unfold listedPlaces at hplace
  split at hplace
  next hnone => exact .inl hnone
  next =>
    obtain ⟨c, hc, rfl⟩ := List.mem_map.mp hplace
    exact .inr ⟨c, hc, columnIndex_of_mem (h c hc)⟩

/--
Whatever the rows and the orders of their listed cells are, each row keeps the cells that it had
exactly if no column is named twice, or one column alone is named.
-/
theorem rows_kept_iff (h : ∀ c ∈ columns, c ∈ t.columns) :
    (∀ row : Array Cell, row.size = t.columns.length → ∀ cells : List Cell,
      cells.Perm (gathered (t.listedPlaces columns) row) →
        (putCells row ((t.listedPlaces columns).zip cells)).Perm row) ↔
      columns.Nodup ∨ ∀ c ∈ columns, ∀ d ∈ columns, c = d :=
  (putCells_perm_iff (listedPlaces_lt h)).trans (listedPlaces_distinct_iff h)

/-- In each row, the cells in the listed columns are put back in some order. -/
theorem shuffleCells_rows (h : ∀ c ∈ columns, c ∈ t.columns) (s : RandomStream) :
    ∃ u, (t.shuffleCells columns s).1 = .ok u ∧ u.columns = t.columns ∧
      List.Forall₂ (fun row new => ∃ cells : List Cell,
        cells.Perm (gathered (t.listedPlaces columns) row) ∧
          new = putCells row ((t.listedPlaces columns).zip cells)) t.rows.toList u.rows.toList := by
  have hrows := mapM_forall₂ (shuffleRow (t.listedPlaces columns)) t.rows.toList s
  refine ⟨{ t with rows := (t.rows.mapM (shuffleRow (t.listedPlaces columns)) s).1 }, ?_, rfl, ?_⟩
  · rw [shuffleCells, columnSet_of_mem h]
    rfl
  · rw [Array.mapM_eq_mapM_toList]
    refine hrows.imp fun row new hnew => ?_
    obtain ⟨s', rfl⟩ := hnew
    exact ⟨_, (shuffle_perm _ s').toList, rfl⟩

/--
Cells are shuffled within their rows: what is not listed stays, and if no column is named twice, or
one alone, each row keeps the cells that it had.
-/
theorem shuffleCells_keeps_rows (ht : t.Rectangular) (h : ∀ c ∈ columns, c ∈ t.columns)
    (s : RandomStream) :
    ∃ u, (t.shuffleCells columns s).1 = .ok u ∧ u.columns = t.columns ∧
      List.Forall₂ (fun row new =>
        (∀ place, ¬ t.Listed columns place → new[place]? = row[place]?) ∧
          (columns.Nodup ∨ (∀ c ∈ columns, ∀ d ∈ columns, c = d) → new.Perm row))
        t.rows.toList u.rows.toList := by
  obtain ⟨u, hu, hcolumns, hrows⟩ := shuffleCells_rows h s
  have hwide : ∀ row ∈ t.rows.toList, row.size = t.columns.length :=
    fun row hrow => ht row (Array.mem_toList_iff.mp hrow)
  refine ⟨u, hu, hcolumns, ((List.forall₂_and_left _ _).mpr ⟨hwide, hrows⟩).imp ?_⟩
  rintro row new ⟨hsize, cells, hcells, rfl⟩
  refine ⟨fun place hplace => getElem?_putCells_of_not_mem ?_ row, fun hnames => ?_⟩
  · intro hmem
    obtain ⟨entry, hentry, rfl⟩ := List.mem_map.mp hmem
    exact hplace (listed_of_mem h (List.of_mem_zip hentry).1)
  · exact (rows_kept_iff h).mpr hnames row hsize cells hcells

/--
Some stream makes a row of the cells 1 and 0, of which the first is named twice, a row of 1 and 1.
-/
theorem shuffleCells_named_twice :
    let t : Table := ⟨["a", "b"], #[#[.literal (.int 1), .literal (.int 0)]]⟩
    ((t.shuffleCells ["a", "a", "b"] (.ofSeed 6)).1.toOption.map fun u =>
      u.rows.toList.map fun row => row.toList.map Cell.text) = some [["1", "1"]] := by
  decide +kernel

end Table

end TrialLoop
