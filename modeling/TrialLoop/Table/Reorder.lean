import TrialLoop.Random.Shuffle
import TrialLoop.Sorting.Adaptive
import TrialLoop.Table.Basic

namespace TrialLoop

namespace Cell

/-- Numbers come first, then other values, then formulas. -/
def sortRank : Cell → Nat
  | literal v => if v.isNumber then 0 else 1
  | formula _ => 2

/-- The order of cells when they are sorted. Numbers without an order count as equal. -/
def order : Cell → Cell → Ordering
  | literal v, literal w =>
    if v.isNumber && w.isNumber then (v.order? w).getD .eq
    else (compare (literal v).sortRank (literal w).sortRank).then (compare v.text w.text)
  | c, d => (compare c.sortRank d.sortRank).then (compare c.text d.text)

/-- A float, which need not have one place among other numbers. -/
def isFloat : Cell → Bool
  | literal (.float _) => true
  | _ => false

end Cell

namespace Table

/-- With other rows' cells in some columns: row `i` takes them from row `order[i]`. -/
def moveCells (t : Table) (columns : List Nat) (order : Array Nat) : Table :=
  { t with rows := t.rows.mapIdx fun i row =>
      columns.foldl (fun r c => r.setIfInBounds c
        ((t.rows.getD (order.getD i i) #[]).getD c .unset)) row }

/-- The places of some columns, or of all if none is named. -/
def columnSet (t : Table) (columns : List String) : Except ValidationError (List Nat) :=
  if columns = [] then .ok (List.range t.columns.length) else columns.mapM t.columnIndex

/-- The rows in another order, as a whole or in some columns only. -/
def reorder (t : Table) (columns : List String) (order : Array Nat) :
    Except ValidationError Table :=
  if columns = [] then .ok (t.pickRows order)
  else (t.columnSet columns).map (t.moveCells · order)

/-- The rows in a random order. -/
def shuffleRows (t : Table) (columns : List String) :
    StateM RandomStream (Except ValidationError Table) := do
  return t.reorder columns (← shuffle (Array.range t.size))

/-- A row with some of its cells in a random order. -/
def shuffleRow (columns : List Nat) (row : Array Cell) : StateM RandomStream (Array Cell) := do
  let cells ← shuffle (columns.map (row.getD · .unset)).toArray
  return (columns.zip cells.toList).foldl (fun r (c, cell) => r.setIfInBounds c cell) row

/-- The cells of each row in a random order, in some columns or in all. -/
def shuffleCells (t : Table) (columns : List String) :
    StateM RandomStream (Except ValidationError Table) := do
  match t.columnSet columns with
  | .error cause => return .error cause
  | .ok places => return .ok { t with rows := ← t.rows.mapM (shuffleRow places) }

/--
The places of the rows in the order of their cells in a column, rows with equal cells in the order
of their places. Floats may have no order with other numbers, and then the result depends on how
the sort goes on.
-/
def sortOrder (t : Table) (column : Nat) : Array Nat :=
  let cells := t.rows.map (·.getD column .unset)
  let before := fun i j => (cells.getD i .unset).order (cells.getD j .unset) == .lt
  let places := List.range t.size
  if cells.any Cell.isFloat then (adaptiveSort before places).toArray
  else (places.mergeSort fun i j => !before j i).toArray

/-- One column in order, while the others stay. -/
def sortColumn (t : Table) (column : String) : Except ValidationError Table := do
  let i ← t.columnIndex column
  return t.moveCells [i] (t.sortOrder i)

/-- The rows in the order of a column. -/
def sortBy (t : Table) (column : String) : Except ValidationError Table := do
  return t.pickRows (t.sortOrder (← t.columnIndex column))

/-- The rows in reverse, as a whole or in some columns only. -/
def reverse (t : Table) (columns : List String) : Except ValidationError Table :=
  t.reorder columns (Array.range t.size).reverse

/-- The rows some steps further down, the last ones at the top. -/
def roll (t : Table) (steps : Int64) (columns : List String) : Except ValidationError Table :=
  let n := t.size
  if n = 0 then .ok t
  else
    let shift := (steps.toInt % n).toNat
    t.reorder columns ((Array.range n).map fun i => (i + n - shift) % n)

end Table

end TrialLoop
