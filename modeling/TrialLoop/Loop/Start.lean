import TrialLoop.Loop.Basic

namespace TrialLoop

namespace Loop

/-- How often the rows of a table are repeated: as a whole, and some of them once more. -/
structure Repeats where
  whole : Nat
  part : Option Nat

/-- The repeats of a number of rows, if there are not too many. -/
def repeats (rows : Nat) (v : Value) : Except ValidationError Repeats :=
  match v.float?.filter (· ≥ 0.0) with
  | none => .error (.repeatCount v.text)
  | some x =>
    if x * rows.toFloat > maxRows.toFloat then .error (.cycleCount v.text rows)
    else
      let whole := if rows = 0 then 0 else x.toUInt64.toNat
      let rest := x - whole.toFloat
      .ok ⟨whole,
        if rest > 0.0 then some (min rows (rows.toFloat * rest).toUInt64.toNat) else none⟩

/-- The items in a random order, or as they are. -/
def shuffleIf {α : Type} (random : Bool) (xs : Array α) : StateM RandomStream (Array α) :=
  if random then shuffle xs else return xs

/-- The places of the rows that a run starts from. -/
def cycleOrder (rows : Nat) (r : Repeats) (random : Bool) : StateM RandomStream (Array Nat) := do
  let whole := (Array.range (r.whole * rows)).map (· % rows)
  match r.part with
  | none => shuffleIf random whole
  | some n =>
    let chosen ← shuffleIf random (Array.range rows)
    shuffleIf random (whole ++ chosen.take n)

/-- The places of some rows, without the first ones or with them at the end. -/
def queueFrom (rows skip : Nat) (offset : Bool) : List Nat :=
  if offset then List.range' skip (rows - skip) ++ List.range skip
  else List.range' skip (rows - skip)

/-- The number of rows to skip, of which there must be as many. -/
def skipOf (rows : Nat) (v : Value) : Except ValidationError Nat :=
  match v.int? with
  | some n =>
    if 0 ≤ n.toInt ∧ n.toInt ≤ rows then .ok n.toInt.toNat else .error (.skipCount rows v.text)
  | none => .error (.skipCount rows v.text)

/-- The queue of a run with some rows. -/
def startQueue (l : Loop) (rows : Nat) : StateM Workspace (Except LoopError (List Nat)) := do
  match skipOf rows (← l.setting "skip" (.int 0)) with
  | .error cause => return .error (.validation cause)
  | .ok 0 => return .ok (List.range rows)
  | .ok skip =>
    let offset := (← l.setting "offset" (.str "no")).text == "yes"
    return .ok (queueFrom rows skip offset)

/-- A new run: repeated rows in their order, after the operations, without those to skip. -/
def start (l : Loop) (random : Bool) : StateM Workspace (Except LoopError Run) := do
  let v ← l.setting "repeat" (.int 1)
  match repeats l.table.size v with
  | .error cause => return .error (.validation cause)
  | .ok r =>
    let order ← Workspace.draw (cycleOrder l.table.size r random)
    match ← Workspace.within fun scope =>
        Operation.applyAll scope.context l.operations.toList (l.table.pickRows order) with
    | .error cause => return .error cause
    | .ok table =>
      match ← l.startQueue table.size with
      | .error cause => return .error cause
      | .ok queue =>
        Workspace.record (.queued l.name queue.length)
        return .ok ⟨table, queue, none⟩

end Loop

end TrialLoop
