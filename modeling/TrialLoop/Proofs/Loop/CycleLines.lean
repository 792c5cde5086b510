import TrialLoop.Loop.Basic
import TrialLoop.Proofs.Script.Entries
import TrialLoop.Proofs.Table.Filling

namespace TrialLoop

namespace Cell

/-- A cell as a line holds it: an integer as it stands, and anything else in quotes. -/
def written : Cell → String
  | literal (.int n) => intText n.toInt
  | x => quote x.text

/-- An integer, or a text that is neither a number nor the text of a formula. -/
def isPlain : Cell → Bool
  | literal (.int _) => true
  | literal (.str s) => (Value.readNumber? s).isNone && s.toList.head? != some '='
  | _ => false

theorem isWord_written (x : Cell) : IsWord x.written := by
  unfold written
  split
  next => exact .inl (isBare_intText _)
  next => exact isWord_quote _

theorem feed_mem_written {x : Cell} (h : '\n' ∉ x.text.toList) : '\n' ∉ x.written.toList := by
  unfold written
  split
  next => exact h
  next => exact mt feed_mem_quote.mp h

theorem cellOf_of_head {s : String} (h : s.toList.head? ≠ some '=') :
    Loop.cellOf s = .ok (.literal (.ofText s)) := by
  unfold Loop.cellOf
  split
  next source hs => exact absurd (by rw [hs]; rfl) h
  next => rfl

/-- A plain cell is what its text in a line stands for. -/
theorem cellOf_written {x : Cell} (h : x.isPlain = true) :
    Loop.cellOf (unquote x.written) = .ok x := by
  unfold isPlain at h
  split at h
  next n =>
    have hbare := isBare_intText n.toInt
    have hhead : (intText n.toInt).toList.head? ≠ some '=' := fun he =>
      (hbare.2 '=' (List.mem_of_head? he)).2.2.1 rfl
    rw [written, hbare.unquote, cellOf_of_head hhead, Value.ofText, readNumber?_intText]
    rfl
  next s =>
    obtain ⟨hnumber, hhead⟩ := Bool.and_eq_true_iff.mp h
    have hwritten : written (literal (.str s)) = quote s := rfl
    rw [hwritten, unquote_quote, cellOf_of_head (by simpa using hhead), Value.ofText,
      Option.isNone_iff_eq_none.mp hnumber]
    rfl
  next => cases h

end Cell

namespace PlacedCell

/-- The cell can be given by a line of its own. -/
structure Writable (p : PlacedCell) : Prop where
  row : p.row < maxRows
  column : '\n' ∉ p.column.toList
  text : '\n' ∉ p.cell.text.toList
  plain : p.cell.isPlain = true

/-- The row, the column and the cell as a line holds them. -/
def arguments (p : PlacedCell) : List String :=
  [intText p.row, quote p.column, p.cell.written]

/-- The line that sets the cell. -/
def line (p : PlacedCell) : String :=
  wordLine "setcycle" p.arguments

variable {p : PlacedCell}

theorem isWord_of_mem (p : PlacedCell) : ∀ w ∈ "setcycle" :: p.arguments, IsWord w := by
  simp only [arguments, List.forall_mem_cons]
  exact ⟨.inl (by decide), .inl (isBare_intText p.row), isWord_quote p.column,
    p.cell.isWord_written, by simp⟩

theorem Writable.feed_not_mem (h : p.Writable) :
    ∀ w ∈ "setcycle" :: p.arguments, '\n' ∉ w.toList := by
  have hrow := (isBare_intText p.row).feed_not_mem
  simp only [arguments, List.forall_mem_cons]
  exact ⟨by decide, hrow, mt feed_mem_quote.mp h.column, Cell.feed_mem_written h.text, by simp⟩

theorem Writable.tells (h : p.Writable) : Tells p.line (.command "setcycle" p.arguments) := by
  refine tells_wordLine p.isWord_of_mem h.feed_not_mem (by decide) ?_
  unfold Directive.ofLine
  rw [words_wordLine p.isWord_of_mem]
  rfl

end PlacedCell

namespace Loop

/-- A line for a cell sets this cell. -/
theorem addDirective_cycle {p : PlacedCell} (h : p.Writable) (b : Built) (line : Nat) :
    addDirective b line (.command "setcycle" p.arguments) =
      { b with loop :=
          { b.loop with table := b.loop.table.setCell p.row p.column p.cell } } := by
  have hmax : maxRows ≤ 2 ^ 64 := by decide
  have hrow : (natural? (intText p.row).toList).filter (· < maxRows) = some p.row := by
    rw [natural?_intText (h.row.trans_le hmax)]
    simpa [Option.filter] using h.row
  have hset : addDirective b line (.command "setcycle" p.arguments) =
      setCycle b line p.arguments := rfl
  rw [hset, PlacedCell.arguments, setCycle]
  simp only [hrow, Cell.cellOf_written h.plain, unquote_quote]

/-- Lines for cells set them one after the other. -/
theorem foldl_cycles {cells : List PlacedCell} (h : ∀ p ∈ cells, p.Writable) (b : Built)
    (number : Nat) :
    ((cells.zipIdx number).map fun p => (p.2, Directive.command "setcycle" p.1.arguments)).foldl
        (fun b (line, d) => addDirective b line d) b =
      { b with loop := { b.loop with table := b.loop.table.setCells cells } } := by
  induction cells generalizing b number with
  | nil => rfl
  | cons p cells ih =>
    obtain ⟨hp, hcells⟩ := List.forall_mem_cons.mp h
    rw [List.zipIdx_cons, List.map_cons, List.foldl_cons]
    dsimp only
    rw [addDirective_cycle hp, ih hcells]
    rfl

/-- A script of lines for cells is a loop whose table has these cells, set one after the other. -/
theorem ofScript_cycles (name : String) {cells : List PlacedCell} (h : ∀ p ∈ cells, p.Writable)
    {script : String} (hlines : lines script.toList = cells.map fun p => p.line.toList) :
    lineErrors script = [] ∧
      ofScript name script = { loop := { empty name with table := Table.setCells {} cells } } := by
  have hentries := scriptEntries_tells (fun p hp => (h p hp).tells) hlines
  let ds := (cells.zipIdx 1).map fun p => (p.2, Directive.command "setcycle" p.1.arguments)
  have hds : scriptEntries script = ds.map fun d => ⟨d.1, .ok d.2⟩ := by
    rw [hentries, List.map_map]
    rfl
  refine ⟨lineErrors_of_entries hds, ?_⟩
  rw [ofScript, directives_of_entries hds]
  exact foldl_cycles h _ 1

end Loop

namespace Table

/-- The lines of a script that gives a table cell by cell, row after row. -/
def cycleLines (t : Table) : List String :=
  t.placedCells.map PlacedCell.line

/-- A table that a script can give: it has cells, no name twice, and all its texts fit in lines. -/
structure Writable (t : Table) : Prop where
  rectangular : t.Rectangular
  columns_ne_nil : t.columns ≠ []
  columns_nodup : t.columns.Nodup
  size_pos : 0 < t.size
  size_le : t.size ≤ maxRows
  names : ∀ c ∈ t.columns, '\n' ∉ c.toList
  cells : ∀ row ∈ t.rows, ∀ x ∈ row, x.isPlain = true ∧ '\n' ∉ x.text.toList

variable {t : Table}

theorem Writable.placed (h : t.Writable) : ∀ p ∈ t.placedCells, p.Writable := by
  intro p hp
  obtain ⟨hrow, hmem⟩ := mem_placedCells.mp hp
  obtain ⟨hcolumn, hcell⟩ := List.of_mem_zip hmem
  have hlt : p.row < t.rows.size := hrow
  have hinside : p.cell ∈ t.rows[p.row] := by simpa [hlt] using hcell
  obtain ⟨hplain, htext⟩ := h.cells _ (Array.getElem_mem hlt) _ hinside
  exact ⟨hrow.trans_le h.size_le, h.names _ hcolumn, htext, hplain⟩

/-- A table is what a script of lines for its cells gives to a loop, and no line is in error. -/
theorem Writable.ofScript (h : t.Writable) (name : String) {script : String}
    (hlines : lines script.toList = t.cycleLines.map String.toList) :
    lineErrors script = [] ∧
      Loop.ofScript name script = { loop := { Loop.empty name with table := t } } := by
  have hboth : t.columns = [] ↔ t.size = 0 := iff_of_false h.columns_ne_nil h.size_pos.ne'
  rw [cycleLines, List.map_map] at hlines
  have hread := Loop.ofScript_cycles name h.placed hlines
  rwa [(setCells_placedCells_iff h.rectangular h.columns_nodup).mpr hboth] at hread

/--
A loop that is read from a script of lines for the cells of a table has this table, with the columns
and the rows in their order, whether or not the last line ends with a line feed.
-/
theorem ofScript_cycleLines (h : t.Writable) (name : String) :
    let built : Loop.Built := { loop := { Loop.empty name with table := t } }
    let script := "\n".intercalate t.cycleLines
    let closed := String.join (t.cycleLines.map (· ++ "\n"))
    (lineErrors script = [] ∧ Loop.ofScript name script = built) ∧
      lineErrors closed = [] ∧ Loop.ofScript name closed = built := by
  have hline : ∀ l ∈ t.cycleLines, IsLine l.toList ∧ l.toList ≠ [] := by
    refine List.forall_mem_map.mpr fun p hp => ⟨(h.placed p hp).tells.isLine, ?_⟩
    simp [PlacedCell.line, toList_wordLine]
  refine ⟨h.ofScript name ?_, h.ofScript name (lines_join_feed fun l hl => (hline l hl).1)⟩
  rw [toList_intercalate_feed]
  exact lines_joinLines_of_ne_nil (List.forall_mem_map.mpr hline)

/-- Names and texts with quotes, backslashes, blanks and marks that mean something elsewhere. -/
theorem ofScript_cycleLines_lookalikes :
    let t : Table := ⟨["", "a \"b\"", "=c\\"],
      #[#[.literal (.int (-5)), .literal (.str "\"5\""), .literal (.str "")],
        #[.literal (.str "'q' = 1\r"), .literal (.int 9223372036854775807),
          .literal (.str "# \\[x] é")]]⟩
    let script := "\n".intercalate t.cycleLines
    t.Writable ∧
      t.cycleLines =
        ["setcycle 0 \"\" -5", "setcycle 0 \"a \\\"b\\\"\" \"\\\"5\\\"\"",
          "setcycle 0 \"=c\\\\\" \"\"", "setcycle 1 \"\" \"'q' = 1\r\"",
          "setcycle 1 \"a \\\"b\\\"\" 9223372036854775807",
          "setcycle 1 \"=c\\\\\" \"# \\\\[x] é\""] ∧
      lineErrors script = [] ∧
      Loop.ofScript "block" script = { loop := { Loop.empty "block" with table := t } } := by
  intro t script
  have h : t.Writable := {
    rectangular := by simp [Rectangular, t]
    columns_ne_nil := by decide
    columns_nodup := by decide
    size_pos := by decide
    size_le := by decide
    names := by decide
    cells := by simp only [t]; decide +kernel }
  exact ⟨h, by decide +kernel, (ofScript_cycleLines h "block").1⟩

end Table

end TrialLoop
