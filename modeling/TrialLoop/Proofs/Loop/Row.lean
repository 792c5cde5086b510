import TrialLoop.Proofs.Loop.Frame
import TrialLoop.Proofs.Loop.Turn
import TrialLoop.Proofs.Table.Cells

namespace TrialLoop

theorem Table.mem_rowCells {t : Table} (h : t.columns.Nodup) {row : Nat} {column : String}
    {cell : Cell} :
    (column, cell) ∈ t.rowCells row ↔ t.get? row column = some cell ∧ cell.isUnset = false := by
  rw [Table.rowCells, List.mem_filter, mem_zip_columns h]
  simp

theorem Table.rowCells_nodup {t : Table} (h : t.columns.Nodup) (row : Nat) :
    ((t.rowCells row).map Prod.fst).Nodup := by
  have hzip : ((t.columns.zip (t.rows.getD row #[]).toList).map Prod.fst).Sublist t.columns := by
    rw [List.zip_eq_zip_take_min, List.map_fst_zip (by simp)]
    exact List.take_sublist _ _
  exact h.sublist ((List.filter_sublist.map _).trans hzip)

/-- The workspace after the cell of a column gave a result. -/
def Workspace.settle (w : Workspace) (loop column : String) (cell : Cell) :
    Except EvalError Value → Workspace
  | .ok v => { w with vars := w.vars.set column v }
  | .error cause =>
    ⟨w.vars.erase column, w.session.record (.cellFailed loop column cell.text cause)⟩

/--
Some cells are evaluated from left to right, each with the variables that the cells before it left.
Their results lead from a workspace to another one.
-/
inductive Fills (loop : String) :
    Workspace → List (String × Cell) → List (String × Except EvalError Value) → Workspace → Prop
  | done {w} : Fills loop w [] [] w
  | cell {w session column cell result cells results w'} :
      Loop.cellValue (Scope.context [w.vars]) cell w.session = (result, session) →
      Fills loop ({ w with session := session }.settle loop column cell result) cells results w' →
      Fills loop w ((column, cell) :: cells) ((column, result) :: results) w'

/-- The variables that some results of cells set, with their values. -/
def valuesSet (results : List (String × Except EvalError Value)) : List (String × Value) :=
  results.filterMap fun (column, result) => result.toOption.map (column, ·)

theorem Workspace.settle_get? (w : Workspace) (loop column : String) (cell : Cell)
    (result : Except EvalError Value) (name : String) :
    (w.settle loop column cell result).vars.get? name =
      if name = column then result.toOption else w.vars.get? name := by
  cases result with
  | ok v => exact w.vars.get?_set column name v
  | error cause => exact w.vars.get?_erase column name

namespace Fills

variable {loop : String} {w w' : Workspace} {cells : List (String × Cell)}
  {results : List (String × Except EvalError Value)}

theorem columns_eq (h : Fills loop w cells results w') :
    results.map Prod.fst = cells.map Prod.fst := by
  induction h with
  | done => rfl
  | cell _ _ ih => simp [ih]

/-- What is no column of the cells keeps its value. -/
theorem get?_of_not_mem (h : Fills loop w cells results w') {name : String}
    (hn : name ∉ cells.map Prod.fst) : w'.vars.get? name = w.vars.get? name := by
  induction h with
  | done => rfl
  | cell _ _ ih =>
    rw [List.map_cons, List.mem_cons, not_or] at hn
    rw [ih hn.2, Workspace.settle_get?, if_neg hn.1]

/-- The variable of a cell has the value of the cell, or none if it failed. -/
theorem get?_of_mem (h : Fills loop w cells results w') (hn : (cells.map Prod.fst).Nodup)
    {column : String} {result : Except EvalError Value} (hm : (column, result) ∈ results) :
    w'.vars.get? column = result.toOption := by
  induction h with
  | done => cases hm
  | cell _ rest ih =>
    obtain ⟨hnew, hn⟩ := List.nodup_cons.mp hn
    rcases List.mem_cons.mp hm with he | hm
    · cases he
      rw [rest.get?_of_not_mem hnew, Workspace.settle_get?, if_pos rfl]
    · exact ih hn hm

end Fills

namespace Loop

theorem applyCell_eq (loop column : String) (cell : Cell) (w : Workspace) :
    applyCell loop column cell w =
      let (result, session) := cellValue (Scope.context [w.vars]) cell w.session
      (result.toOption.map (column, ·),
        { w with session := session }.settle loop column cell result) := by
  unfold applyCell Workspace.within
  simp only [bind, StateT.bind]
  rcases cellValue (Scope.context [w.vars]) cell w.session with ⟨cause | v, session⟩
  · rfl
  · rfl

/-- The results of cells that are applied, of which those with a value are what was set. -/
theorem applyCells_fills (loop : String) (cells : List (String × Cell)) (w : Workspace) :
    ∃ results, Fills loop w cells results (applyCells loop cells w).2 ∧
      (applyCells loop cells w).1 = valuesSet results := by
  induction cells generalizing w with
  | nil => exact ⟨[], .done, rfl⟩
  | cons head cells ih =>
    obtain ⟨column, cell⟩ := head
    rcases hv : cellValue (Scope.context [w.vars]) cell w.session with ⟨result, session⟩
    obtain ⟨results, hfills, hset⟩ := ih ({ w with session := session }.settle loop column cell
      result)
    have hcell := applyCell_eq loop column cell w
    rw [hv] at hcell
    have hstep : applyCells loop ((column, cell) :: cells) w =
        ((result.toOption.map (column, ·)).toList ++
          (applyCells loop cells ({ w with session := session }.settle loop column cell result)).1,
        (applyCells loop cells ({ w with session := session }.settle loop column cell result)).2) := by
      rw [applyCells]
      simp only [bind, StateT.bind, hcell]
      rfl
    rw [hstep, hset]
    refine ⟨(column, result) :: results, .cell hv hfills, ?_⟩
    cases result with
    | ok v => rfl
    | error cause => rfl

theorem turn_keepsVars (l : Loop) : KeepsVars l.turn := by
  refine (l.setting_keepsVars _ _).bind fun order => (l.currentRun_keepsVars _).bind fun r => ?_
  split
  next => exact .pure _
  next r =>
    have hrepeated : KeepsVars (repeatedCycle r) := (KeepsVars.within _).bind fun _ => .pure _
    exact hrepeated.bind fun _ => (requeue_keepsVars _ _ _).bind fun _ => .pure _

/-- A cycle leaves the variables that its cells and then the flag for repeating it leave. -/
theorem runCycle_vars (l : Loop) (r : Run) (cycle : Nat) (queue : List Nat) (w : Workspace) :
    (l.runCycle r cycle queue w).2.vars =
      (applyCells l.name (r.table.rowCells cycle) w).2.vars.set "repeat_cycle" (.int 0) := by
  rw [runCycle_eq]
  rcases applyCells l.name (r.table.rowCells cycle) w with ⟨applied, w₁⟩
  dsimp only
  have hbreaks := breaks_keepsVars ((l.withCycle r cycle queue).breakText
    (Workspace.set "repeat_cycle" (.int 0) w₁).2) (Workspace.set "repeat_cycle" (.int 0) w₁).2
  split
  next h => exact (congrArg (·.2.vars) h).symm.trans hbreaks
  next h => exact (congrArg (·.2.vars) h).symm.trans hbreaks
  next h => exact (congrArg (·.2.vars) h).symm.trans hbreaks

/-- A cycle leaves all of its loop but the run as it was, and says what it set if it goes on. -/
theorem runCycle_loop (l : Loop) (r : Run) (cycle : Nat) (queue : List Nat) (w : Workspace) :
    { (l.runCycle r cycle queue w).1.2 with run := l.run } = l ∧
      ∀ item k applied, (l.runCycle r cycle queue w).1.1 = .ok (.run item k applied) →
        k = cycle ∧ applied = (applyCells l.name (r.table.rowCells cycle) w).1 := by
  rw [runCycle_eq]
  rcases applyCells l.name (r.table.rowCells cycle) w with ⟨applied, w₁⟩
  dsimp only
  split
  next => exact ⟨rfl, fun _ _ _ h => by cases h⟩
  next => exact ⟨rfl, fun _ _ _ h => by cases h⟩
  next =>
    refine ⟨rfl, fun _ _ _ h => ?_⟩
    cases h
    exact ⟨rfl, rfl⟩

end Loop

end TrialLoop
