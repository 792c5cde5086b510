import TrialLoop.Proofs.Table.SetCell

namespace TrialLoop

theorem foldl_withName_of_mem {names added : List String} (h : ∀ c ∈ added, c ∈ names) :
    added.foldl withName names = names := by
  induction added with
  | nil => rfl
  | cons c added ih =>
    obtain ⟨hc, hadded⟩ := List.forall_mem_cons.mp h
    rw [List.foldl_cons, withName, if_pos hc, ih hadded]

/-- Names that are new and different are added in their order. -/
theorem foldl_withName_of_nodup {names added : List String} (h : (names ++ added).Nodup) :
    added.foldl withName names = names ++ added := by
  induction added generalizing names with
  | nil => exact (List.append_nil names).symm
  | cons c added ih =>
    have hc : c ∉ names := fun hmem =>
      List.disjoint_of_nodup_append h hmem List.mem_cons_self
    rw [List.append_cons] at h
    rw [List.foldl_cons, withName, if_neg hc, ih h, List.append_assoc, List.singleton_append]

/-- A cell to be put in a row and a column. -/
structure PlacedCell where
  row : Nat
  column : String
  cell : Cell

namespace Table

variable {t : Table} {cells : List PlacedCell}

/-- The table with some cells set one after the other. -/
def setCells (t : Table) (cells : List PlacedCell) : Table :=
  cells.foldl (fun t p => t.setCell p.row p.column p.cell) t

theorem setCells_cons (t : Table) (p : PlacedCell) (cells : List PlacedCell) :
    t.setCells (p :: cells) = (t.setCell p.row p.column p.cell).setCells cells := rfl

theorem setCells_rectangular (h : t.Rectangular) (cells : List PlacedCell) :
    (t.setCells cells).Rectangular := by
  induction cells generalizing t with
  | nil => exact h
  | cons p cells ih => exact ih (setCell_rectangular h p.row p.column p.cell)

theorem columns_setCells (t : Table) (cells : List PlacedCell) :
    (t.setCells cells).columns = (cells.map (·.column)).foldl withName t.columns := by
  induction cells generalizing t with
  | nil => rfl
  | cons p cells ih => rw [setCells_cons, ih, columns_setCell, List.map_cons, List.foldl_cons]

theorem size_setCells_le {n : Nat} (ht : t.size ≤ n) (h : ∀ p ∈ cells, p.row < n) :
    (t.setCells cells).size ≤ n := by
  induction cells generalizing t with
  | nil => exact ht
  | cons p cells ih =>
    obtain ⟨hp, hcells⟩ := List.forall_mem_cons.mp h
    rw [setCells_cons]
    refine ih ?_ hcells
    rw [size_setCell]
    exact Nat.max_le.mpr ⟨ht, hp⟩

/-- A cell that no other is put over is there in the end, if it was set or there before. -/
theorem get?_setCells (h : t.Rectangular) {p : PlacedCell}
    (honly : ∀ q ∈ cells, p.row = q.row ∧ p.column = q.column → q.cell = p.cell)
    (hp : p ∈ cells ∨ t.get? p.row p.column = some p.cell) :
    (t.setCells cells).get? p.row p.column = some p.cell := by
  induction cells generalizing t with
  | nil => exact hp.resolve_left List.not_mem_nil
  | cons q cells ih =>
    obtain ⟨hq, hcells⟩ := List.forall_mem_cons.mp honly
    rw [setCells_cons]
    refine ih (setCell_rectangular h q.row q.column q.cell) hcells ?_
    by_cases hplace : p.row = q.row ∧ p.column = q.column
    · right
      rw [get?_setCell h, if_pos hplace, hq hplace]
    · refine hp.imp (fun hmem => ?_) (get?_setCell_of_ne h hplace)
      exact (List.mem_cons.mp hmem).resolve_left fun he => hplace (he ▸ ⟨rfl, rfl⟩)

/-- The cells of a table from row to row, in the order of the columns. -/
def placedCells (t : Table) : List PlacedCell :=
  (List.range t.size).flatMap fun i =>
    (t.columns.zip (t.rows.getD i #[]).toList).map fun (c, x) => ⟨i, c, x⟩

theorem mem_placedCells {p : PlacedCell} :
    p ∈ t.placedCells ↔
      p.row < t.size ∧ (p.column, p.cell) ∈ t.columns.zip (t.rows.getD p.row #[]).toList := by
  simp only [placedCells, List.mem_flatMap, List.mem_range, List.mem_map, Prod.exists]
  constructor
  · rintro ⟨i, hi, c, x, hmem, rfl⟩
    exact ⟨hi, hmem⟩
  · exact fun ⟨hi, hmem⟩ => ⟨p.row, hi, p.column, p.cell, hmem, rfl⟩

theorem mem_placedCells_iff_get? (ht : t.Rectangular) (hn : t.columns.Nodup) {p : PlacedCell} :
    p ∈ t.placedCells ↔ t.get? p.row p.column = some p.cell := by
  rw [mem_placedCells, mem_zip_columns hn]
  exact and_iff_right_of_imp fun hget => (ht.inside_of_get? hget).1

/-- Each row has all columns. -/
theorem columns_placedCells (h : t.Rectangular) :
    t.placedCells.map (·.column) = (List.range t.size).flatMap fun _ => t.columns := by
  rw [placedCells, List.map_flatMap]
  refine List.flatMap_congr fun i hi => ?_
  have hlt : i < t.rows.size := List.mem_range.mp hi
  have hwide : t.columns.length ≤ (t.rows.getD i #[]).toList.length := by
    simp [hlt, h _ (Array.getElem_mem hlt)]
  rw [List.map_map]
  exact List.map_fst_zip hwide

/-- The columns are those of the first row, as the other rows have no others. -/
theorem columns_setCells_placedCells (h : t.Rectangular) (hn : t.columns.Nodup)
    (hsize : 0 < t.size) : (setCells {} t.placedCells).columns = t.columns := by
  obtain ⟨n, hn'⟩ := Nat.exists_eq_add_one_of_ne_zero hsize.ne'
  have hfirst : t.columns.foldl withName [] = t.columns := foldl_withName_of_nodup hn
  rw [columns_setCells, columns_placedCells h, hn', List.range_succ_eq_map, List.flatMap_cons,
    List.foldl_append, hfirst]
  refine foldl_withName_of_mem fun c hc => ?_
  obtain ⟨_, -, hc⟩ := List.mem_flatMap.mp hc
  exact hc

theorem empty_rectangular : Rectangular {} :=
  fun _ hrow => absurd hrow (by simp)

theorem get?_setCells_placedCells (h : t.Rectangular) (hn : t.columns.Nodup) {i : Nat} {c : String}
    {x : Cell} (hx : t.get? i c = some x) : (setCells {} t.placedCells).get? i c = some x := by
  refine get?_setCells (p := ⟨i, c, x⟩) empty_rectangular ?_
    (.inl ((mem_placedCells_iff_get? h hn).mpr hx))
  rintro ⟨_, _, y⟩ hq ⟨rfl, rfl⟩
  exact Option.some.inj (((mem_placedCells_iff_get? h hn).mp hq).symm.trans hx)

theorem size_setCells_placedCells (h : t.Rectangular) (hn : t.columns.Nodup)
    (hcolumns : t.columns ≠ []) : (setCells {} t.placedCells).size = t.size := by
  refine Nat.le_antisymm (size_setCells_le (Nat.zero_le _) fun p hp => (mem_placedCells.mp hp).1) ?_
  obtain ⟨c, hc⟩ := List.exists_mem_of_ne_nil _ hcolumns
  by_contra hless
  -- The last row has a cell, which is found again, so the row is there too.
  have hlast := h.get?_eq (t.size - 1) c
  rw [if_pos ⟨by omega, hc⟩] at hlast
  have hinside := (setCells_rectangular empty_rectangular _).inside_of_get?
    (get?_setCells_placedCells h hn hlast)
  omega

theorem placedCells_eq_nil (h : t.columns = [] ∨ t.size = 0) : t.placedCells = [] := by
  refine List.eq_nil_iff_forall_not_mem.mpr fun p hp => ?_
  obtain ⟨hrow, hcell⟩ := mem_placedCells.mp hp
  rcases h with h | h
  · rw [h] at hcell
    cases hcell
  · omega

/-- Its cells make up a table, set one after the other, unless it has only rows or only columns. -/
theorem setCells_placedCells_iff (h : t.Rectangular) (hn : t.columns.Nodup) :
    setCells {} t.placedCells = t ↔ (t.columns = [] ↔ t.size = 0) := by
  by_cases hnone : t.columns = [] ∨ t.size = 0
  · rw [placedCells_eq_nil hnone]
    constructor
    · rintro rfl
      exact iff_of_true rfl rfl
    · intro hboth
      obtain ⟨columns, rows⟩ := t
      obtain rfl : columns = [] := hnone.elim id hboth.mpr
      obtain rfl : rows = #[] := Array.eq_empty_of_size_eq_zero (hboth.mp rfl)
      rfl
  · obtain ⟨hcolumns, hsize⟩ := not_or.mp hnone
    refine iff_of_true ?_ (iff_of_false hcolumns hsize)
    exact eq_of_get? h (setCells_rectangular empty_rectangular _) hn
      (columns_setCells_placedCells h hn (Nat.pos_of_ne_zero hsize))
      (size_setCells_placedCells h hn hcolumns) fun _ _ _ => get?_setCells_placedCells h hn

end Table

end TrialLoop
