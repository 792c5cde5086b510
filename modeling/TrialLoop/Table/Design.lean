import TrialLoop.Table.Basic

namespace TrialLoop

namespace Table

/-- The cells of each column that are not empty. -/
def levels (t : Table) : List (Array Cell) :=
  t.unstack.map fun (_, cells) => (cells.filter (!·.isEmpty)).toArray

/-- The product of some numbers, if no product on the way exceeds 64 bits. -/
def boundedProduct? (numbers : List Nat) : Option Nat :=
  numbers.foldlM (fun product n => if product * n < 1 <<< 64 then some (product * n) else none) 1

/-- The row with a number of a full design. The first column changes from row to row. -/
def designRow : List (Array Cell) → Nat → List Cell
  | [], _ => []
  | cells :: rest, i => cells.getD (i % cells.size) .unset :: designRow rest (i / cells.size)

/-- All combinations of one cell of each column that is not empty. -/
def fullDesign (t : Table) : Except ValidationError Table :=
  if t.columns = [] then .ok t
  else
    match boundedProduct? (t.levels.map (·.size)) with
    | some n =>
      if n ≤ maxRows then
        .ok { t with rows := (Array.range n).map fun i => (designRow t.levels i).toArray }
      else .error .designSize
    | none => .error .designSize

/-- The number of times that a row is repeated, by its cell in a column. -/
def weightOf (column row : Nat) (cells : Array Cell) : Except ValidationError Nat :=
  let cell := cells.getD column .unset
  let weight :=
    match cell with
    | .literal v => v.int?
    | .formula _ => none
  match weight with
  | some w => if 0 ≤ w.toInt then .ok w.toInt.toNat else .error (.weight cell.text row)
  | none => .error (.weight cell.text row)

/-- The weights of some rows from a number on, after others with a total weight. -/
def weightsFrom (column : Nat) : (row total : Nat) → List (Array Cell) →
    Except ValidationError (List Nat)
  | _, _, [] => .ok []
  | row, total, cells :: rest => do
    let w ← weightOf column row cells
    if total + w ≤ maxRows then return w :: (← weightsFrom column (row + 1) (total + w) rest)
    else throw .weightedSize

/-- Each row as often as its cell in a column says. -/
def weight (t : Table) (column : String) : Except ValidationError Table := do
  let i ← t.columnIndex column
  let weights ← weightsFrom i 0 0 t.rows.toList
  return t.pickRows (weights.zipIdx.flatMap fun (w, row) => List.replicate w row).toArray

/-- The place that a bound means among some rows. Negative ones count from the end. -/
def boundIn (rows : Nat) (bound : Int64) : Nat :=
  let i := if bound.toInt < 0 then rows + bound.toInt else min bound.toInt rows
  i.toNat

/-- The rows from one bound up to another, or up to the end. -/
def slice (t : Table) (start : Int64) (stop : Option Int64) : Table :=
  let first := boundIn t.size start
  let last := (stop.map (boundIn t.size)).getD t.size
  t.pickRows (Array.range' first (last - first))

end Table

end TrialLoop
