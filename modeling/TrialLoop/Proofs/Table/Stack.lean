import TrialLoop.Proofs.Table.SetCell

namespace TrialLoop

namespace Table

variable {columns : List (String × List Cell)} {t : Table}

/-- The number of rows that the first of some columns asks for. -/
def rowsFor (columns : List (String × List Cell)) : Nat :=
  (columns.head?.map (·.2.length)).getD 0

/-- The table of some columns, each of which has a cell for each of some rows. -/
def stacked (columns : List (String × List Cell)) (rows : Nat) : Table :=
  ⟨columns.map (·.1), Array.ofFn fun i : Fin rows =>
    (columns.map fun c => c.2.getD i .unset).toArray⟩

theorem stack_of_even (h : ∀ c ∈ columns, c.2.length = rowsFor columns) :
    stack columns = .ok (stacked columns (rowsFor columns)) := by
  have hfind : columns.find? (·.2.length != rowsFor columns) = none := by
    rw [List.find?_eq_none]
    exact fun c hc => by simp [h c hc]
  unfold stack
  dsimp only
  rw [← rowsFor, hfind]
  simp [stacked, Function.comp_def]

/-- The first column that is not as long as the first of all is named. -/
theorem stack_of_uneven {c : String × List Cell}
    (h : columns.find? (·.2.length != rowsFor columns) = some c) :
    stack columns = .error (.columnLength c.1) := by
  unfold stack
  dsimp only
  rw [← rowsFor, h]

theorem length_eq_rowsFor (h : ∀ c ∈ columns, ∀ d ∈ columns, c.2.length = d.2.length) :
    ∀ c ∈ columns, c.2.length = rowsFor columns := by
  intro c hc
  cases columns with
  | nil => cases hc
  | cons first rest => exact h c hc first List.mem_cons_self

/-- Columns are refused exactly if two of them are not equally long. -/
theorem stack_eq_error_iff :
    (∃ cause, stack columns = .error cause) ↔
      ∃ c ∈ columns, ∃ d ∈ columns, c.2.length ≠ d.2.length := by
  constructor
  · rintro ⟨cause, hcause⟩
    by_contra hnot
    push Not at hnot
    rw [stack_of_even (length_eq_rowsFor hnot)] at hcause
    cases hcause
  · rintro ⟨c, hc, d, hd, hne⟩
    cases hfind : columns.find? (·.2.length != rowsFor columns) with
    | some first => exact ⟨_, stack_of_uneven hfind⟩
    | none =>
      have heven : ∀ c ∈ columns, c.2.length = rowsFor columns := by
        simpa using List.find?_eq_none.mp hfind
      exact absurd ((heven c hc).trans (heven d hd).symm) hne

theorem even_of_stack (h : stack columns = .ok t) :
    (∀ c ∈ columns, c.2.length = rowsFor columns) ∧ t = stacked columns (rowsFor columns) := by
  have heven : ∀ c ∈ columns, c.2.length = rowsFor columns := by
    refine length_eq_rowsFor ?_
    by_contra hnot
    push Not at hnot
    obtain ⟨cause, hcause⟩ := stack_eq_error_iff.mpr hnot
    rw [h] at hcause
    cases hcause
  rw [stack_of_even heven] at h
  exact ⟨heven, (Except.ok.inj h).symm⟩

theorem size_stacked (columns : List (String × List Cell)) (rows : Nat) :
    (stacked columns rows).size = rows := by
  simp [stacked, size]

theorem cell_stacked {columns : List (String × List Cell)} {rows i : Nat} (hi : i < rows)
    (place : Nat) :
    (stacked columns rows).cell i place =
      (columns[place]?.map (·.2.getD i .unset)).getD .unset := by
  have hrow : (stacked columns rows).rows[i]? =
      some (columns.map (·.2.getD i .unset)).toArray := by
    simp [stacked, hi]
  rw [cell, cellAt?_of_row hrow, List.getElem?_toArray, List.getElem?_map]

/-- The cells of a column are those of the rows, from the first one on. -/
theorem getElem?_unstack (t : Table) (place : Nat) :
    t.unstack[place]? =
      t.columns[place]?.map fun c => (c, (List.range t.size).map (t.cell · place)) := by
  have hcells : t.rows.toList.map (·.getD place .unset) =
      (List.range t.size).map (t.cell · place) := by
    refine List.ext_getElem? fun i => ?_
    rw [List.getElem?_map, List.getElem?_map, Array.getElem?_toList]
    by_cases hi : i < t.size
    · have hrow : t.rows[i]? = some t.rows[i] := Array.getElem?_eq_getElem hi
      rw [hrow, List.getElem?_range hi, Option.map_some, Option.map_some, cell,
        cellAt?_of_row hrow, Array.getD_eq_getD_getElem?]
    · have hrow : t.rows[i]? = none := Array.getElem?_eq_none (Nat.not_lt.mp hi)
      simp [hrow, Nat.not_lt.mp hi]
  rw [unstack, List.getElem?_map, List.getElem?_zipIdx, Option.map_map, ← hcells, Nat.zero_add]
  rfl

theorem length_of_mem_unstack {c : String × List Cell} (h : c ∈ t.unstack) :
    c.2.length = t.size := by
  obtain ⟨place, hplace⟩ := List.mem_iff_getElem?.mp h
  rw [getElem?_unstack] at hplace
  obtain ⟨name, -, rfl⟩ := Option.map_eq_some_iff.mp hplace
  simp

theorem names_unstack (t : Table) : t.unstack.map (·.1) = t.columns := by
  refine List.ext_getElem? fun place => ?_
  rw [List.getElem?_map, getElem?_unstack, Option.map_map]
  exact Option.map_id'

/-- The columns of a table make it up again, if there is one that tells the number of rows. -/
theorem stack_unstack (h : t.Rectangular) :
    stack t.unstack = .ok (if t.columns = [] then {} else t) := by
  split
  next hc =>
    have hnone : t.unstack = [] := List.map_eq_nil_iff.mp ((names_unstack t).trans hc)
    rw [hnone]
    rfl
  next hc =>
    obtain ⟨first, hfirst⟩ : ∃ first, t.unstack.head? = some first := by
      cases hu : t.unstack with
      | nil => exact absurd (by rw [← names_unstack t, hu]; rfl) hc
      | cons first rest => exact ⟨first, rfl⟩
    have hrows : rowsFor t.unstack = t.size := by
      rw [rowsFor, hfirst]
      exact length_of_mem_unstack (List.mem_of_head? hfirst)
    have heven : ∀ c ∈ t.unstack, c.2.length = rowsFor t.unstack := fun c hmem =>
      (length_of_mem_unstack hmem).trans hrows.symm
    have hstack := stack_of_even heven
    rw [hrows] at hstack
    rw [hstack, Except.ok.injEq]
    refine eq_of_cell h (stack_rectangular hstack) (names_unstack t) (size_stacked _ _)
      fun i hi place hplace => ?_
    rw [cell_stacked hi, getElem?_unstack, List.getElem?_eq_getElem hplace]
    simp [hi]

/-- The columns that a table was made of are found in it again. -/
theorem unstack_stack (h : stack columns = .ok t) : t.unstack = columns := by
  obtain ⟨heven, rfl⟩ := even_of_stack h
  refine List.ext_getElem? fun place => ?_
  have hname : (stacked columns (rowsFor columns)).columns[place]? = columns[place]?.map (·.1) :=
    List.getElem?_map
  rw [getElem?_unstack, size_stacked, hname, Option.map_map]
  cases hc : columns[place]? with
  | none => rfl
  | some c =>
    have hlength : c.2.length = rowsFor columns := heven c (List.mem_of_getElem? hc)
    have hcells : (List.range (rowsFor columns)).map
        ((stacked columns (rowsFor columns)).cell · place) = c.2 := by
      refine List.ext_getElem (by simp [hlength]) fun i hi hi' => ?_
      rw [List.getElem_map, List.getElem_range, cell_stacked (hlength ▸ hi'), hc]
      simp [hi']
    exact congrArg (fun cells => some (c.1, cells)) hcells

/-- A table is made up again from its columns exactly if it has columns, or no rows. -/
theorem stack_unstack_iff (h : t.Rectangular) :
    stack t.unstack = .ok t ↔ (t.columns = [] → t.size = 0) := by
  rw [stack_unstack h, Except.ok.injEq]
  split
  next hc =>
    rw [imp_iff_right hc]
    constructor
    · rintro rfl
      rfl
    · intro hsize
      cases t
      simp_all [size]
  next hc => exact iff_of_true rfl fun hnot => absurd hnot hc

/-- Rows of a table without columns are accepted, and lost when it is made up again. -/
theorem stack_unstack_columnless :
    let t : Table := ⟨[], #[#[], #[]]⟩
    ofRows [] #[#[], #[]] = .ok t ∧ t.size = 2 ∧ stack t.unstack = .ok {} ∧
      stack t.unstack ≠ .ok t := by
  intro t
  have hrect : t.Rectangular := by simp [Rectangular, t]
  have hlost := mt (stack_unstack_iff hrect).mp (by simp [t, size])
  exact ⟨ofRows_eq_ok (by simp), rfl, stack_unstack hrect, hlost⟩

end Table

end TrialLoop
