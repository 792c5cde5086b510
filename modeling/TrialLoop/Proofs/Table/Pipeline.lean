import TrialLoop.Proofs.Table.Csv
import TrialLoop.Proofs.Table.Rectangular

namespace TrialLoop

namespace OperationKind

theorem run_keeps {kind : OperationKind} {arguments : List String} {t u : Table}
    {s : RandomStream} (h : (kind.run arguments t s).1 = .ok u) : t.Keeps u := by
  cases kind with
  | fullFactorial => exact Table.fullDesign_keeps h
  | shuffle => exact Table.shuffleRows_keeps h
  | shuffleHoriz => exact Table.shuffleCells_keeps h
  | slice =>
    obtain ⟨_, _, h⟩ := bind_eq_ok h
    obtain ⟨start, _, h⟩ := bind_eq_ok h
    obtain ⟨stop, _, h⟩ := bind_eq_ok h
    obtain rfl := Except.ok.inj h
    exact t.slice_keeps start stop
  | sort =>
    obtain ⟨_, _, h⟩ := bind_eq_ok h
    exact Table.sortColumn_keeps h
  | sortBy =>
    obtain ⟨_, _, h⟩ := bind_eq_ok h
    exact Table.sortBy_keeps h
  | reverse => exact Table.reverse_keeps h
  | roll =>
    obtain ⟨_, _, h⟩ := bind_eq_ok h
    obtain ⟨steps, _, h⟩ := bind_eq_ok h
    exact Table.roll_keeps h
  | weight =>
    obtain ⟨_, _, h⟩ := bind_eq_ok h
    exact Table.weight_keeps h

end OperationKind

/-- An operation that succeeds has its arguments, and then makes a table of another one. -/
theorem Operation.apply_eq_ok {op : Operation} {context : Context Session} {t u : Table}
    {s : Session} (h : (op.apply context t s).1 = .ok u) :
    ∃ arguments stream, (op.kind.run arguments t stream).1 = .ok u := by
  unfold Operation.apply at h
  simp only [bind, StateT.bind] at h
  rcases ha : Operation.arguments? context op.arguments s with ⟨cause | arguments, s'⟩
  · simp only [ha] at h
    cases h
  · simp only [ha] at h
    exact ⟨arguments, s'.random, mapError_eq_ok h⟩

theorem Operation.apply_keeps {op : Operation} {context : Context Session} {t u : Table}
    {s : Session} (h : (op.apply context t s).1 = .ok u) : t.Keeps u := by
  obtain ⟨arguments, stream, hrun⟩ := apply_eq_ok h
  exact OperationKind.run_keeps hrun

namespace Table

/-- What is made of a table without setting cells, with any arguments and any random stream. -/
inductive Change (t : Table) : Table → Prop
  | pickRows (order : Array Nat) : Change t (t.pickRows order)
  | fullDesign {u : Table} : t.fullDesign = .ok u → Change t u
  | shuffleRows {u : Table} (columns : List String) (s : RandomStream) :
      (t.shuffleRows columns s).1 = .ok u → Change t u
  | shuffleCells {u : Table} (columns : List String) (s : RandomStream) :
      (t.shuffleCells columns s).1 = .ok u → Change t u
  | sortColumn {u : Table} (column : String) : t.sortColumn column = .ok u → Change t u
  | sortBy {u : Table} (column : String) : t.sortBy column = .ok u → Change t u
  | reverse {u : Table} (columns : List String) : t.reverse columns = .ok u → Change t u
  | roll {u : Table} (steps : Int64) (columns : List String) :
      t.roll steps columns = .ok u → Change t u
  | weight {u : Table} (column : String) : t.weight column = .ok u → Change t u
  | slice (start : Int64) (stop : Option Int64) : Change t (t.slice start stop)
  | operation {u : Table} (op : Operation) (context : Context Session) (s : Session) :
      (op.apply context t s).1 = .ok u → Change t u

/-- The tables that there are: new ones, and what cells and changes make of others. -/
inductive Made : Table → Prop
  | new (columns : List String) : Made { columns := columns }
  | ofRows {columns : List String} {rows : Array (Array Cell)} {t : Table} :
      Table.ofRows columns rows = .ok t → Made t
  | stack {columns : List (String × List Cell)} {t : Table} : Table.stack columns = .ok t → Made t
  | ofCsv {text : String} {t : Table} : Table.ofCsv text = .ok t → Made t
  | setCell {t : Table} (row : Nat) (column : String) (cell : Cell) :
      Made t → Made (t.setCell row column cell)
  | change {t u : Table} : Made t → t.Change u → Made u

theorem Change.keepsColumns {t u : Table} (h : t.Change u) : t.KeepsColumns u := by
  cases h with
  | pickRows order => exact t.pickRows_keepsColumns order
  | fullDesign h => exact (fullDesign_keeps h).toKeepsColumns
  | shuffleRows columns s h => exact (shuffleRows_keeps h).toKeepsColumns
  | shuffleCells columns s h => exact (shuffleCells_keeps h).toKeepsColumns
  | sortColumn column h => exact (sortColumn_keeps h).toKeepsColumns
  | sortBy column h => exact (sortBy_keeps h).toKeepsColumns
  | reverse columns h => exact (reverse_keeps h).toKeepsColumns
  | roll steps columns h => exact (roll_keeps h).toKeepsColumns
  | weight column h => exact (weight_keeps h).toKeepsColumns
  | slice start stop => exact (t.slice_keeps start stop).toKeepsColumns
  | operation op context s h => exact (Operation.apply_keeps h).toKeepsColumns

theorem Made.rectangular {t : Table} (h : t.Made) : t.Rectangular := by
  induction h with
  | new columns =>
    intro row hrow
    exact absurd hrow (Array.not_mem_empty row)
  | ofRows h => exact ofRows_rectangular h
  | stack h => exact stack_rectangular h
  | ofCsv h => exact ofCsv_rectangular h
  | setCell row column cell _ ih => exact setCell_rectangular ih row column cell
  | change _ hchange ih => exact hchange.keepsColumns.rectangular ih

/--
However a table was made, all its rows have one cell for each column, no change but a new cell
touches its columns, and no operation of a loop takes it beyond the bound on rows.
-/
theorem made_stays_rectangular {t : Table} (h : t.Made) :
    t.Rectangular ∧ (∀ u, t.Change u → u.columns = t.columns) ∧
      ∀ (op : Operation) (context : Context Session) (s : Session) (u : Table),
        (op.apply context t s).1 = .ok u → t.size ≤ maxRows → u.size ≤ maxRows :=
  ⟨h.rectangular, fun _ hchange => hchange.keepsColumns.columns,
    fun _ _ _ _ happly => (Operation.apply_keeps happly).bounded⟩

/-- Two rows and a cell below them, of which a full design makes six rows. -/
theorem made_stays_rectangular_design :
    ∃ (t u : Table) (context : Context Session) (s : Session), t.Made ∧
      (Operation.apply ⟨.fullFactorial, []⟩ context t s).1 = .ok u ∧ u.size = 6 ∧
      u.Rectangular ∧ u.columns = t.columns ∧ u.size ≤ maxRows := by
  let first : Table := ⟨["n", "w"], #[#[.literal (.int 1), .literal (.str "a")],
    #[.literal (.int 2), .literal (.str "b")]]⟩
  let t := first.setCell 2 "n" (.literal (.int 3))
  let context := Scope.context [.empty]
  let s := Session.ofSeed 0
  have hmade : t.Made := .setCell 2 "n" _ (.ofRows (ofRows_eq_ok (by simp)))
  obtain ⟨u, hu, hsize⟩ : ∃ u, (Operation.apply ⟨.fullFactorial, []⟩ context t s).1 = .ok u ∧
      u.size = 6 := ok_of_map (by decide +kernel)
  have hchange : t.Change u := .operation _ context s hu
  obtain ⟨-, hcolumns, hbound⟩ := made_stays_rectangular hmade
  exact ⟨t, u, context, s, hmade, hu, hsize, (made_stays_rectangular (hmade.change hchange)).1,
    hcolumns u hchange, hbound _ context s u hu (by decide)⟩

end Table

end TrialLoop
