import TrialLoop.Loop.Start

namespace TrialLoop

/-- What comes of a step of a loop. -/
inductive Step where
  /-- An item is to be run for a cycle, with the variables that were set for it. -/
  | run (item : String) (cycle : Nat) (applied : List (String × Value))
  /-- The loop has come to its end. -/
  | done

namespace Loop

/-- The value of a cell. Texts are interpolated and formulas evaluated. -/
def cellValue (context : Context Session) : Cell → Eval Session Value
  | .literal (.str s) => interpolate context s
  | .literal v => return v
  | .formula f => f.body.eval context

/-- Sets the variable of a cell, or unsets it if the cell has no value. -/
def applyCell (loop column : String) (cell : Cell) :
    StateM Workspace (Option (String × Value)) := do
  match ← Workspace.within fun scope => cellValue scope.context cell with
  | .ok v =>
    Workspace.set column v
    return some (column, v)
  | .error cause =>
    Workspace.record (.cellFailed loop column cell.text cause)
    Workspace.unset column
    return none

/-- Sets the variables of some cells from left to right. -/
def applyCells (loop : String) : List (String × Cell) → StateM Workspace (List (String × Value))
  | [] => return []
  | (column, cell) :: rest => do
    let applied ← applyCell loop column cell
    return applied.toList ++ (← applyCells loop rest)

/-- The current cycle of a run, if the experiment asks for it once more. -/
def repeatedCycle (r : Run) : StateM Workspace (Option Nat) := do
  let repeated ← Workspace.within fun scope => lookup scope "repeat_cycle"
  return if repeated >>= Value.int? = some 1 then r.current else none

/-- With a cycle in the queue once more, if one is to be repeated. -/
def requeue (r : Run) (random : Bool) : Option Nat → StateM Workspace Run
  | none => return r
  | some cycle => do
    Workspace.record (.repeating cycle)
    let queue ← Workspace.draw (shuffleIf random (r.queue ++ [cycle]).toArray)
    return { r with queue := queue.toList }

/-- Whether a loop is to end, by a condition that never holds if it is empty. -/
def breaks (text : String) : StateM Workspace (Except LoopError Bool) := do
  if ["never".toList, []].contains (trim text.toList) then return .ok false
  else
    (Condition.events text).forM Workspace.record
    match Condition.ofText text with
    | .error cause => return .error (.condition cause)
    | .ok .never => return .ok false
    | .ok condition =>
      return (← Workspace.within fun scope => condition.holds scope.context).mapError .eval

/-- The text of the setting that says when the loop is to end. -/
def breakText (l : Loop) (w : Workspace) : String :=
  ((Scope.raw? [l.vars, w.vars] "break_if").map Value.text).getD "never"

/-- With a cycle of a run as the current one and the rest of its queue. -/
def withCycle (l : Loop) (r : Run) (cycle : Nat) (queue : List Nat) : Loop :=
  { l with run := some { r with queue := queue, current := some cycle } }

/-- Applies a cycle, which is taken from the queue of a run. -/
def runCycle (l : Loop) (r : Run) (cycle : Nat) (queue : List Nat) :
    StateM Workspace (Except LoopError Step × Loop) := do
  let l := l.withCycle r cycle queue
  let applied ← applyCells l.name (r.table.rowCells cycle)
  Workspace.set "repeat_cycle" (.int 0)
  let text := l.breakText (← get)
  match ← breaks text with
  | .error cause => return (.error cause, l)
  | .ok true =>
    Workspace.record (.broken l.name text)
    return (.ok .done, { l with run := none })
  | .ok false =>
    let item := (← l.setting "item" (.str "")).text
    return (.ok (.run item cycle applied), l)

/-- The run under way, or a new one. -/
def currentRun (l : Loop) (random : Bool) : StateM Workspace (Except LoopError Run) :=
  match l.run with
  | some r => return .ok r
  | none => l.start random

/-- Goes on by at most one cycle. -/
def step (l : Loop) : StateM Workspace (Except LoopError Step × Loop) := do
  let random := (← l.setting "order" (.str "random")).text == "random"
  match ← l.currentRun random with
  | .error cause => return (.error cause, l)
  | .ok r =>
    let r ← requeue r random (← repeatedCycle r)
    match r.queue with
    | [] =>
      Workspace.record (.finished l.name)
      return (.ok .done, { l with run := none })
    | cycle :: queue => l.runCycle r cycle queue

end Loop

end TrialLoop
