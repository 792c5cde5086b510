import TrialLoop.Proofs.Table.Cells
import TrialLoop.Proofs.Table.Columns
import TrialLoop.Proofs.Table.Rectangular
import Mathlib.Data.List.Basic

namespace TrialLoop

/-- Some names with one more, which comes last if it is new. -/
def withName (names : List String) (name : String) : List String :=
  if name ∈ names then names else names ++ [name]

theorem mem_withName {names : List String} {name c : String} :
    c ∈ withName names name ↔ c ∈ names ∨ c = name := by
  unfold withName
  split
  next h => exact ⟨.inl, fun hc => hc.elim id fun he => he ▸ h⟩
  next => simp

/-- A name that is added last has the place behind the names that were there. -/
theorem idxOf_withName {names : List String} {name c : String} (h : c ∈ withName names name) :
    (withName names name).idxOf c = names.idxOf c := by
  unfold withName
  split
  next => rfl
  next hname =>
    rcases mem_withName.mp h with hc | rfl
    · exact List.idxOf_append_of_mem hc
    · rw [List.idxOf_append_of_notMem hname, List.idxOf_of_notMem hname, List.idxOf_cons_self,
        Nat.add_zero]

theorem idxOf_lt_withName (names : List String) (name : String) :
    names.idxOf name < (withName names name).length := by
  have hmem : name ∈ withName names name := mem_withName.mpr (.inr rfl)
  rw [← idxOf_withName hmem]
  exact List.idxOf_lt_length_iff.mpr hmem

namespace Table

variable {t u : Table}

/-- The cell in a row and in the column at a place, which is unset where there is none. -/
def cell (t : Table) (row place : Nat) : Cell :=
  (t.cellAt? row place).getD .unset

/-- The cells of a table fill its rows and columns, and there are no others. -/
theorem Rectangular.cellAt?_eq (h : t.Rectangular) (i place : Nat) :
    t.cellAt? i place =
      if i < t.size ∧ place < t.columns.length then some (t.cell i place) else none := by
  rw [cell]
  by_cases hi : i < t.size
  · have hrow : t.rows[i]? = some t.rows[i] := Array.getElem?_eq_getElem hi
    rw [cellAt?_of_row hrow, ← h _ (Array.getElem_mem hi)]
    by_cases hplace : place < t.rows[i].size
    · simp [hi, hplace]
    · simp [hplace]
  · have hrow : t.rows[i]? = none := Array.getElem?_eq_none (Nat.not_lt.mp hi)
    simp [cellAt?, hrow, hi]

/-- A cell is found by name in the first column of the name. -/
theorem Rectangular.get?_eq_cellAt? (h : t.Rectangular) (i : Nat) (c : String) :
    t.get? i c = t.cellAt? i (t.columns.idxOf c) := by
  by_cases hc : c ∈ t.columns
  · rw [get?, findIdx?_of_mem hc]
    rfl
  · rw [get?, findIdx?_of_unknown hc, h.cellAt?_eq, List.idxOf_of_notMem hc]
    simp

theorem Rectangular.get?_eq (h : t.Rectangular) (i : Nat) (c : String) :
    t.get? i c =
      if i < t.size ∧ c ∈ t.columns then some (t.cell i (t.columns.idxOf c)) else none := by
  rw [h.get?_eq_cellAt?, h.cellAt?_eq]
  simp only [List.idxOf_lt_length_iff]

theorem Rectangular.inside_of_get? (h : t.Rectangular) {i : Nat} {c : String} {x : Cell}
    (hx : t.get? i c = some x) : i < t.size ∧ c ∈ t.columns := by
  by_contra hnot
  rw [h.get?_eq, if_neg hnot] at hx
  cases hx

theorem eq_of_cell (ht : t.Rectangular) (hu : u.Rectangular) (hcolumns : u.columns = t.columns)
    (hsize : u.size = t.size)
    (h : ∀ i < t.size, ∀ place < t.columns.length, u.cell i place = t.cell i place) : u = t := by
  refine eq_of_cellAt? hcolumns hsize fun i _ place => ?_
  rw [hu.cellAt?_eq, ht.cellAt?_eq, hcolumns, hsize]
  split
  next hin => rw [h i hin.1 place hin.2]
  next => rfl

/-- With a column of each name once, the cells that are found by name are all there are. -/
theorem eq_of_get? (ht : t.Rectangular) (hu : u.Rectangular) (hn : t.columns.Nodup)
    (hcolumns : u.columns = t.columns) (hsize : u.size = t.size)
    (h : ∀ i c x, t.get? i c = some x → u.get? i c = some x) : u = t := by
  refine eq_of_cell ht hu hcolumns hsize fun i hi place hplace => ?_
  have hindex : t.columns.idxOf t.columns[place] = place := hn.idxOf_getElem place hplace
  have hget := ht.get?_eq i t.columns[place]
  rw [if_pos ⟨hi, List.getElem_mem hplace⟩] at hget
  have hsame := h _ _ _ hget
  rw [hu.get?_eq_cellAt?, hcolumns, hindex] at hsame
  rw [cell, hsame]
  rfl

theorem addColumn_eq (t : Table) (column : String) :
    t.addColumn column =
      (⟨withName t.columns column,
        if column ∈ t.columns then t.rows else t.rows.map (·.push .unset)⟩,
        t.columns.idxOf column) := by
  by_cases hc : column ∈ t.columns
  · simp only [addColumn, findIdx?_of_mem hc, withName, if_pos hc]
  · simp only [addColumn, findIdx?_of_unknown hc, withName, if_neg hc, List.idxOf_of_notMem hc]

/-- A new column has unset cells only. -/
theorem cell_addColumn (t : Table) (column : String) (i place : Nat) :
    (t.addColumn column).1.cell i place = t.cell i place := by
  rw [addColumn_eq]
  by_cases hc : column ∈ t.columns
  · simp only [cell, cellAt?, if_pos hc]
  · simp only [cell, cellAt?, if_neg hc, Array.getElem?_map]
    cases t.rows[i]? with
    | none => rfl
    | some row =>
      simp only [Option.map_some, Option.bind_some, Array.getElem?_push]
      split
      next hplace => simp [hplace]
      next => rfl

theorem cell_growTo (t : Table) (rows i place : Nat) :
    (t.growTo rows).cell i place = t.cell i place := by
  simp only [cell, cellAt?, growTo, Array.getElem?_append]
  split
  next => rfl
  next hi =>
    rw [Array.getElem?_eq_none (Nat.not_lt.mp hi), Array.getElem?_replicate]
    split
    next =>
      simp only [Option.bind_some, Array.getElem?_replicate]
      split <;> rfl
    next => rfl

theorem columns_setCell (t : Table) (row : Nat) (column : String) (x : Cell) :
    (t.setCell row column x).columns = withName t.columns column := by
  simp only [setCell, growTo, addColumn_eq]

theorem size_setCell (t : Table) (row : Nat) (column : String) (x : Cell) :
    (t.setCell row column x).size = max t.size (row + 1) := by
  have hrows : (t.addColumn column).1.rows.size = t.rows.size := by
    rw [addColumn_eq]
    split <;> simp
  simp only [setCell, growTo, size, Array.size_modify, Array.size_append, Array.size_replicate,
    hrows]
  omega

/-- One cell is put in its place, and all others are as before. -/
theorem cell_setCell (h : t.Rectangular) (row : Nat) (column : String) (x : Cell)
    (i place : Nat) :
    (t.setCell row column x).cell i place =
      if i = row ∧ place = t.columns.idxOf column then x else t.cell i place := by
  let grown := (t.addColumn column).1.growTo (row + 1)
  have hold : grown.cell i place = t.cell i place := by
    rw [cell_growTo, cell_addColumn]
  have hput : (t.setCell row column x).rows =
      grown.rows.modify row (·.setIfInBounds (t.columns.idxOf column) x) := by
    simp only [setCell, grown, addColumn_eq]
  rw [← hold, cell, cell, cellAt?, cellAt?, hput, Array.getElem?_modify]
  by_cases hi : i = row
  · subst hi
    have hrect : grown.Rectangular := growTo_rectangular (addColumn_rectangular h column) (i + 1)
    have hlt : i < grown.rows.size := by
      have hsize := t.size_setCell i column x
      rw [size, hput, Array.size_modify] at hsize
      omega
    have hwide : t.columns.idxOf column < grown.rows[i].size := by
      rw [hrect _ (Array.getElem_mem hlt)]
      simpa only [grown, growTo, addColumn_eq] using idxOf_lt_withName t.columns column
    simp only [if_true, Array.getElem?_eq_getElem hlt, Option.map_some, Option.bind_some]
    by_cases hplace : place = t.columns.idxOf column
    · subst hplace
      simp [hwide]
    · simp [hplace, Array.getElem?_setIfInBounds_ne (Ne.symm hplace)]
  · simp [hi, Ne.symm hi]

/-- What is read from a table after one cell of it was set. -/
theorem get?_setCell (h : t.Rectangular) (row : Nat) (column : String) (x : Cell) (r : Nat)
    (c : String) :
    (t.setCell row column x).get? r c =
      if r = row ∧ c = column then some x
      else if r < max t.size (row + 1) ∧ c ∈ withName t.columns column then
        some ((t.get? r c).getD .unset)
      else none := by
  have hcolumn : column ∈ withName t.columns column := mem_withName.mpr (.inr rfl)
  rw [(setCell_rectangular h row column x).get?_eq, size_setCell, columns_setCell,
    h.get?_eq_cellAt?, ← cell]
  by_cases hc : c ∈ withName t.columns column
  · have hplace : t.columns.idxOf c = t.columns.idxOf column ↔ c = column := by
      rw [← idxOf_withName hc, ← idxOf_withName hcolumn, List.idxOf_inj hc]
    rw [idxOf_withName hc, cell_setCell h]
    simp only [hplace]
    by_cases hput : r = row ∧ c = column
    · simp [hput.1, hput.2, hcolumn]
    · simp [hput, hc]
  · have hne : c ≠ column := fun he => hc (he ▸ hcolumn)
    simp [hc, hne]

/-- A cell that is there stays as it is when another one is set. -/
theorem get?_setCell_of_ne (h : t.Rectangular) {row r : Nat} {column c : String} {x y : Cell}
    (hne : ¬(r = row ∧ c = column)) (hy : t.get? r c = some y) :
    (t.setCell row column x).get? r c = some y := by
  obtain ⟨hr, hc⟩ := h.inside_of_get? hy
  rw [get?_setCell h, if_neg hne, if_pos ⟨lt_max_of_lt_left hr, mem_withName.mpr (.inl hc)⟩, hy]
  rfl

/-- A cell of a table is set, and the table grows to hold it. -/
structure CellSet (t u : Table) (row : Nat) (column : String) (x : Cell) : Prop where
  columns_eq : u.columns = if column ∈ t.columns then t.columns else t.columns ++ [column]
  size_eq : u.size = max t.size (row + 1)
  put : u.get? row column = some x
  kept : ∀ r c, (r, c) ≠ (row, column) → ∀ y, t.get? r c = some y → u.get? r c = some y
  added : ∀ r c, (r, c) ≠ (row, column) → t.get? r c = none → ∀ y, u.get? r c = some y → y = .unset
  others : ∀ r place, (r, place) ≠ (row, t.columns.idxOf column) → u.cell r place = t.cell r place

/-- The order in which two different cells of columns that are there are set does not matter. -/
theorem setCell_comm (h : t.Rectangular) {row row' : Nat} {column column' : String}
    (hc : column ∈ t.columns) (hc' : column' ∈ t.columns) (hne : (row, column) ≠ (row', column'))
    (x y : Cell) :
    (t.setCell row column x).setCell row' column' y =
      (t.setCell row' column' y).setCell row column x := by
  have hrect := setCell_rectangular h
  have hcolumns : ∀ c ∈ t.columns, ∀ r z, (t.setCell r c z).columns = t.columns := by
    intro c hc r z
    rw [columns_setCell, withName, if_pos hc]
  refine eq_of_cell (setCell_rectangular (hrect _ _ _) _ _ _)
    (setCell_rectangular (hrect _ _ _) _ _ _) ?_ ?_ fun i _ place _ => ?_
  · simp only [columns_setCell, withName, if_pos hc, if_pos hc']
  · simp only [size_setCell, Nat.max_assoc, Nat.max_comm (row + 1)]
  · rw [cell_setCell (hrect _ _ _), cell_setCell h, cell_setCell (hrect _ _ _), cell_setCell h,
      hcolumns _ hc, hcolumns _ hc']
    split
    next hput =>
      obtain ⟨rfl, rfl⟩ := hput
      have hother : ¬(i = row ∧ t.columns.idxOf column' = t.columns.idxOf column) := by
        rintro ⟨rfl, hplace⟩
        exact hne (by rw [(List.idxOf_inj hc').mp hplace])
      rw [if_neg hother]
    next => rfl

/--
Setting a cell puts it in its place, lets the table grow as far as is needed, and leaves every other
cell as it was; two different cells of columns that are there can be set in either order.
-/
theorem setCell_updates (h : t.Rectangular) (row : Nat) (column : String) (x : Cell) :
    t.CellSet (t.setCell row column x) row column x ∧
      (column ∈ t.columns → ∀ row' column' y, column' ∈ t.columns →
        (row, column) ≠ (row', column') →
          (t.setCell row column x).setCell row' column' y =
            (t.setCell row' column' y).setCell row column x) := by
  refine ⟨⟨?_, t.size_setCell row column x, ?_, ?_, ?_, ?_⟩, ?_⟩
  · exact t.columns_setCell row column x
  · rw [get?_setCell h, if_pos ⟨rfl, rfl⟩]
  · exact fun r c hne y hy => get?_setCell_of_ne h (by simpa using hne) hy
  · intro r c hne hy y
    rw [get?_setCell h, if_neg (by simpa using hne), hy]
    split
    next => exact fun he => (Option.some.inj he).symm
    next => exact nofun
  · intro r place hne
    rw [cell_setCell h, if_neg (by simpa using hne)]
  · intro hc row' column' y hc' hne
    exact setCell_comm h hc hc' hne x y

/-- A cell two rows below a table in which a name stands twice, and one of another column. -/
theorem setCell_updates_repeatedName :
    let t : Table := ⟨["a", "b", "a"], #[#[.literal (.int 1), .literal (.str "x"), .unset]]⟩
    let five : Cell := .literal (.int 5)
    let text : Cell := .literal (.str "y")
    t.Rectangular ∧ t.CellSet (t.setCell 2 "a" five) 2 "a" five ∧
      (t.setCell 2 "a" five).rows.toList.map (fun row => row.toList.map Cell.text) =
        [["1", "x", "None"], ["None", "None", "None"], ["5", "None", "None"]] ∧
      "a" ∈ t.columns ∧ "b" ∈ t.columns ∧ (2, "a") ≠ (3, "b") ∧
      (t.setCell 2 "a" five).setCell 3 "b" text = (t.setCell 3 "b" text).setCell 2 "a" five := by
  intro t five text
  have hrect : t.Rectangular := by simp [Rectangular, t]
  have ha : "a" ∈ t.columns := by decide
  have hb : "b" ∈ t.columns := by decide
  have hne : (2, "a") ≠ (3, "b") := by decide
  obtain ⟨hset, hcomm⟩ := setCell_updates hrect 2 "a" five
  exact ⟨hrect, hset, by decide +kernel, ha, hb, hne, hcomm ha 3 "b" text hb hne⟩

end Table

end TrialLoop
