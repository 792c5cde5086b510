import TrialLoop.Loop.Operation
import TrialLoop.Proofs.Except
import TrialLoop.Proofs.Random.Permutation
import TrialLoop.Proofs.Sorting.Permutation
import TrialLoop.Table.Csv
import Mathlib.Algebra.BigOperators.Group.List.Basic

namespace TrialLoop

namespace Table

/-- Every row has one cell for each column. -/
def Rectangular (t : Table) : Prop :=
  ∀ row ∈ t.rows, row.size = t.columns.length

/-- The columns of a table stay, and rows that fit them are made of rows that fit them. -/
structure KeepsColumns (t u : Table) : Prop where
  columns : u.columns = t.columns
  rectangular : t.Rectangular → u.Rectangular

/-- The columns stay, and the rows do not exceed the bound if they did not before. -/
structure Keeps (t u : Table) : Prop extends t.KeepsColumns u where
  bounded : t.size ≤ maxRows → u.size ≤ maxRows

theorem Keeps.refl (t : Table) : t.Keeps t :=
  ⟨⟨rfl, id⟩, id⟩

/-- Rows as wide as those of a table keep its shape. -/
theorem KeepsColumns.of_sizes {t u : Table} (hc : u.columns = t.columns)
    (h : ∀ row ∈ u.rows, ∃ old ∈ t.rows, row.size = old.size) : t.KeepsColumns u where
  columns := hc
  rectangular := by
    intro ht row hrow
    obtain ⟨old, hold, hsize⟩ := h row hrow
    rw [hsize, ht old hold, hc]

section Construction

theorem ofRows_rectangular {columns : List String} {rows : Array (Array Cell)} {t : Table}
    (h : ofRows columns rows = .ok t) : t.Rectangular := by
  unfold ofRows at h
  split at h
  next => cases h
  next hnone =>
    cases h
    intro row hrow
    simpa using Array.findIdx?_eq_none_iff.mp hnone row hrow

theorem ofRows_eq_ok {columns : List String} {rows : List (Array Cell)}
    (h : ∀ row ∈ rows, row.size = columns.length) :
    ofRows columns rows.toArray = .ok ⟨columns, rows.toArray⟩ := by
  have hnone : rows.toArray.findIdx? (·.size != columns.length) = none := by
    simpa using h
  rw [ofRows, hnone]

theorem stack_rectangular {columns : List (String × List Cell)} {t : Table}
    (h : stack columns = .ok t) : t.Rectangular := by
  unfold stack at h
  dsimp only at h
  split at h
  next => cases h
  next =>
    cases h
    intro row hrow
    obtain ⟨i, rfl⟩ := Array.mem_ofFn.mp hrow
    simp

theorem ofCsv_rectangular {text : String} {t : Table} (h : ofCsv text = .ok t) :
    t.Rectangular := by
  obtain ⟨records, _, h⟩ := bind_eq_ok h
  cases records with
  | nil => cases h
  | cons header records =>
    obtain ⟨rows, _, h⟩ := bind_eq_ok h
    exact ofRows_rectangular (mapError_eq_ok h)

theorem addColumn_rectangular {t : Table} (h : t.Rectangular) (column : String) :
    (t.addColumn column).1.Rectangular := by
  unfold addColumn
  split
  next => exact h
  next =>
    intro row hrow
    obtain ⟨old, hold, rfl⟩ := Array.mem_map.mp hrow
    simp [h old hold]

theorem growTo_rectangular {t : Table} (h : t.Rectangular) (rows : Nat) :
    (t.growTo rows).Rectangular := by
  intro row hrow
  rcases Array.mem_append.mp hrow with hrow | hrow
  · exact h row hrow
  · rw [(Array.mem_replicate.mp hrow).2]
    exact Array.size_replicate

/-- A cell is put into a row of the table that has the column, and is as wide as before. -/
theorem setCell_rectangular {t : Table} (h : t.Rectangular) (row : Nat) (column : String)
    (cell : Cell) : (t.setCell row column cell).Rectangular := by
  have hgrown := growTo_rectangular (addColumn_rectangular h column) (row + 1)
  intro cells hcells
  obtain ⟨i, hi, rfl⟩ := Array.mem_iff_getElem.mp hcells
  have hold := hgrown _ (Array.getElem_mem (by simpa [setCell] using hi))
  simp only [setCell, Array.getElem_modify]
  split
  next => rw [Array.size_setIfInBounds, hold]
  next => exact hold

end Construction

section Reordering

variable {t u : Table}

theorem pickRows_keepsColumns (t : Table) (order : Array Nat) :
    t.KeepsColumns (t.pickRows order) := by
  refine .of_sizes rfl fun row hrow => ?_
  obtain ⟨i, _, hi⟩ := Array.mem_filterMap.mp hrow
  exact ⟨row, Array.mem_of_getElem? hi, rfl⟩

theorem size_pickRows_le (t : Table) (order : Array Nat) : (t.pickRows order).size ≤ order.size :=
  Array.size_filterMap_le

theorem pickRows_keeps {order : Array Nat} (h : t.size ≤ maxRows → order.size ≤ maxRows) :
    t.Keeps (t.pickRows order) :=
  ⟨t.pickRows_keepsColumns order, fun ht => (t.size_pickRows_le order).trans (h ht)⟩

/-- Cells that are put into a row one after the other leave it as wide as it was. -/
theorem size_foldl_setIfInBounds {β : Type} (place : β → Nat) (cell : β → Cell)
    (cells : List β) (row : Array Cell) :
    (cells.foldl (fun r b => r.setIfInBounds (place b) (cell b)) row).size = row.size := by
  induction cells generalizing row with
  | nil => rfl
  | cons b cells ih => rw [List.foldl_cons, ih, Array.size_setIfInBounds]

theorem moveCells_keeps (t : Table) (columns : List Nat) (order : Array Nat) :
    t.Keeps (t.moveCells columns order) where
  toKeepsColumns := by
    refine .of_sizes rfl fun row hrow => ?_
    obtain ⟨i, hi, rfl⟩ := Array.mem_mapIdx.mp hrow
    exact ⟨_, Array.getElem_mem hi, size_foldl_setIfInBounds _ _ columns _⟩
  bounded ht := by simpa [moveCells, size] using ht

theorem reorder_keeps {columns : List String} {order : Array Nat} (ho : order.size ≤ t.size)
    (h : t.reorder columns order = .ok u) : t.Keeps u := by
  unfold reorder at h
  split at h
  next =>
    cases h
    exact pickRows_keeps ho.trans
  next =>
    obtain ⟨places, _, rfl⟩ := map_eq_ok h
    exact t.moveCells_keeps places order

theorem shuffleRows_keeps {columns : List String} {s : RandomStream}
    (h : (t.shuffleRows columns s).1 = .ok u) : t.Keeps u := by
  have hsize := (shuffle_perm (Array.range t.size) s).size_eq
  rw [Array.size_range] at hsize
  exact reorder_keeps hsize.le h

theorem reverse_keeps {columns : List String} (h : t.reverse columns = .ok u) : t.Keeps u :=
  reorder_keeps (by simp) h

theorem roll_keeps {steps : Int64} {columns : List String} (h : t.roll steps columns = .ok u) :
    t.Keeps u := by
  unfold roll at h
  dsimp only at h
  split at h
  next =>
    cases h
    exact .refl t
  next => exact reorder_keeps (by simp) h

theorem size_shuffleRow (columns : List Nat) (row : Array Cell) (s : RandomStream) :
    (shuffleRow columns row s).1.size = row.size :=
  size_foldl_setIfInBounds _ _ _ row

/-- What is done to rows one after the other makes as many rows, each from one of them. -/
theorem mapM_rows {f : Array Cell → StateM RandomStream (Array Cell)}
    (hf : ∀ row s, (f row s).1.size = row.size) (rows : List (Array Cell)) (s : RandomStream) :
    ((rows.mapM f) s).1.map (·.size) = rows.map (·.size) := by
  induction rows generalizing s with
  | nil => rfl
  | cons row rows ih =>
    rw [List.mapM_cons]
    exact congrArg₂ List.cons (hf row s) (ih _)

theorem shuffleCells_keeps {columns : List String} {s : RandomStream}
    (h : (t.shuffleCells columns s).1 = .ok u) : t.Keeps u := by
  unfold shuffleCells at h
  rcases hc : t.columnSet columns with cause | places
  · rw [hc] at h
    cases h
  · simp only [hc, Array.mapM_eq_mapM_toList] at h
    obtain rfl := Except.ok.inj h
    have hsizes := mapM_rows (size_shuffleRow places) t.rows.toList s
    constructor
    · refine .of_sizes rfl fun row hrow => ?_
      have hmem : row.size ∈ t.rows.toList.map (·.size) :=
        hsizes ▸ List.mem_map_of_mem (List.mem_toArray.mp hrow)
      obtain ⟨old, hold, hsize⟩ := List.mem_map.mp hmem
      exact ⟨old, Array.mem_toList_iff.mp hold, hsize.symm⟩
    · intro ht
      have hlength := congrArg List.length hsizes
      rw [List.length_map, List.length_map, Array.length_toList] at hlength
      exact hlength.trans_le ht

theorem sortOrder_perm (t : Table) (column : Nat) :
    (t.sortOrder column).toList.Perm (List.range t.size) := by
  unfold sortOrder
  dsimp only
  split
  next => exact adaptiveSort_perm _ _
  next => exact List.mergeSort_perm _ _

theorem size_sortOrder (t : Table) (column : Nat) : (t.sortOrder column).size = t.size := by
  rw [← Array.length_toList, (t.sortOrder_perm column).length_eq, List.length_range]

theorem sortColumn_keeps {column : String} (h : t.sortColumn column = .ok u) : t.Keeps u := by
  obtain ⟨i, _, h⟩ := bind_eq_ok h
  obtain rfl := Except.ok.inj h
  exact t.moveCells_keeps [i] _

theorem sortBy_keeps {column : String} (h : t.sortBy column = .ok u) : t.Keeps u := by
  obtain ⟨i, _, h⟩ := bind_eq_ok h
  obtain rfl := Except.ok.inj h
  exact pickRows_keeps (t.size_sortOrder i).le.trans

end Reordering

section Designing

variable {t u : Table}

theorem length_designRow (levels : List (Array Cell)) (i : Nat) :
    (designRow levels i).length = levels.length := by
  induction levels generalizing i with
  | nil => rfl
  | cons cells rest ih => exact congrArg (· + 1) (ih _)

theorem length_levels (t : Table) : t.levels.length = t.columns.length := by
  simp [levels, unstack]

/-- A full design has one cell of each column in a row, and is refused if it is too large. -/
theorem fullDesign_keeps (h : t.fullDesign = .ok u) : t.Keeps u := by
  unfold fullDesign at h
  split at h
  next =>
    cases h
    exact .refl t
  next =>
    split at h
    next n _ =>
      split at h
      next hn =>
        cases h
        refine ⟨⟨rfl, fun _ row hrow => ?_⟩, fun _ => ?_⟩
        · obtain ⟨i, _, rfl⟩ := Array.mem_map.mp hrow
          simp [length_designRow, length_levels]
        · simpa [size] using hn
      next => cases h
    next => cases h

/-- The total weight of rows is within the bound, or they are refused. -/
theorem weightsFrom_sum {column row total : Nat} {rows : List (Array Cell)} {weights : List Nat}
    (ht : total ≤ maxRows) (h : weightsFrom column row total rows = .ok weights) :
    total + weights.sum ≤ maxRows := by
  induction rows generalizing row total weights with
  | nil =>
    obtain rfl := Except.ok.inj h
    exact ht
  | cons cells rows ih =>
    obtain ⟨w, _, h⟩ := bind_eq_ok h
    split at h
    next hw =>
      obtain ⟨more, hmore, h⟩ := bind_eq_ok h
      obtain rfl := Except.ok.inj h
      have hsum := ih hw hmore
      rw [List.sum_cons]
      omega
    next => cases h

theorem length_repeated (weights : List Nat) (row : Nat) :
    ((weights.zipIdx row).flatMap fun (w, row) => List.replicate w row).length = weights.sum := by
  induction weights generalizing row with
  | nil => rfl
  | cons w weights ih =>
    rw [List.zipIdx_cons, List.flatMap_cons, List.length_append, ih, List.length_replicate,
      List.sum_cons]

theorem weight_keeps {column : String} (h : t.weight column = .ok u) : t.Keeps u := by
  obtain ⟨i, _, h⟩ := bind_eq_ok h
  obtain ⟨weights, hweights, h⟩ := bind_eq_ok h
  obtain rfl := Except.ok.inj h
  have hsum := weightsFrom_sum (Nat.zero_le _) hweights
  refine pickRows_keeps fun _ => ?_
  rw [List.size_toArray, length_repeated]
  omega

theorem boundIn_le (rows : Nat) (bound : Int64) : boundIn rows bound ≤ rows := by
  unfold boundIn
  dsimp only
  split <;> omega

theorem stop_le (rows : Nat) (stop : Option Int64) :
    (stop.map (boundIn rows)).getD rows ≤ rows := by
  cases stop with
  | none => exact Nat.le_refl _
  | some bound => exact boundIn_le rows bound

theorem slice_keeps (t : Table) (start : Int64) (stop : Option Int64) :
    t.Keeps (t.slice start stop) := by
  refine pickRows_keeps fun ht => ?_
  have hstop := stop_le t.size stop
  rw [Array.size_range']
  omega

end Designing

end Table

end TrialLoop
