import TrialLoop.Expr.Eval

namespace TrialLoop

/-- A cell of a table: a value, or a formula that is evaluated when its row is applied. -/
inductive Cell where
  | literal (v : Value)
  | formula (f : Formula)

namespace Cell

/-- A cell that was never set. -/
def unset : Cell := literal .null

instance : Inhabited Cell := ⟨unset⟩

def isEmpty : Cell → Bool
  | literal v => v.isEmpty
  | formula _ => false

def isUnset : Cell → Bool
  | literal .null => true
  | _ => false

def text : Cell → String
  | literal v => v.text
  | formula f => "=" ++ f.source

/-- Equal values or formulas with the same text. -/
def same : Cell → Cell → Bool
  | literal v, literal w => v.same w
  | formula f, formula g => f.source == g.source
  | _, _ => false

end Cell

/-- Named columns and rows of cells, of which each row has one for each column. -/
structure Table where
  columns : List String := []
  rows : Array (Array Cell) := #[]

namespace Table

/-- A table of rows that have one cell for each column. -/
def ofRows (columns : List String) (rows : Array (Array Cell)) : Except ValidationError Table :=
  match rows.findIdx? (·.size != columns.length) with
  | some i => .error (.rowWidth i (rows.getD i #[]).size columns.length)
  | none => .ok ⟨columns, rows⟩

/-- The number of rows. -/
def size (t : Table) : Nat :=
  t.rows.size

/-- The place of a column, the first one of its name. -/
def columnIndex (t : Table) (column : String) : Except ValidationError Nat :=
  match t.columns.findIdx? (· == column) with
  | some i => .ok i
  | none => .error (.unknownColumn column)

/-- The cell in a row and a column. -/
def get? (t : Table) (row : Nat) (column : String) : Option Cell := do
  let i ← t.columns.findIdx? (· == column)
  let cells ← t.rows[row]?
  cells[i]?

/-- The cells of a row that were set, with their columns. -/
def rowCells (t : Table) (row : Nat) : List (String × Cell) :=
  (t.columns.zip (t.rows.getD row #[]).toList).filter fun (_, c) => !c.isUnset

/-- With a column, which all rows leave unset if it is new, and its place. -/
def addColumn (t : Table) (column : String) : Table × Nat :=
  match t.columns.findIdx? (· == column) with
  | some i => (t, i)
  | none => (⟨t.columns ++ [column], t.rows.map (·.push .unset)⟩, t.columns.length)

/-- With unset rows up to a number of rows. -/
def growTo (t : Table) (rows : Nat) : Table :=
  let unset := Array.replicate t.columns.length Cell.unset
  { t with rows := t.rows ++ Array.replicate (rows - t.rows.size) unset }

/-- With a cell in a row and a column, which are added if they are not there. -/
def setCell (t : Table) (row : Nat) (column : String) (cell : Cell) : Table :=
  let (t, i) := t.addColumn column
  let t := t.growTo (row + 1)
  { t with rows := t.rows.modify row (·.setIfInBounds i cell) }

/-- The rows at some places, in their order; one row may be picked more than once. -/
def pickRows (t : Table) (order : Array Nat) : Table :=
  { t with rows := order.filterMap (t.rows[·]?) }

/-- The same columns and the same cells. -/
def same (t u : Table) : Bool :=
  t.columns == u.columns && t.rows.size == u.rows.size &&
    (t.rows.zip u.rows).all fun (r, s) =>
      r.size == s.size && (r.zip s).all fun (c, d) => c.same d

/-- The cells of each column. -/
def unstack (t : Table) : List (String × List Cell) :=
  t.columns.zipIdx.map fun (column, i) => (column, t.rows.toList.map (·.getD i .unset))

/-- The table with some columns, which must be equally long. -/
def stack (columns : List (String × List Cell)) : Except ValidationError Table :=
  let n := (columns.head?.map (·.2.length)).getD 0
  match columns.find? (·.2.length != n) with
  | some (column, _) => .error (.columnLength column)
  | none =>
    let cells := columns.map fun (_, cells) => cells.toArray
    .ok ⟨columns.map (·.1), Array.ofFn fun i : Fin n => (cells.map (·.getD i .unset)).toArray⟩

end Table

end TrialLoop
