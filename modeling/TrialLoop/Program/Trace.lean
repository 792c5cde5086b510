import TrialLoop.Loop.Step

namespace TrialLoop

/-- A cycle that was run: the item, the row, and the variables that were set for it. -/
structure Cycle where
  item : String
  row : Nat
  applied : List (String × Value)

/-- How a trace ends. -/
inductive Ending where
  /-- As many cycles were run as were asked for. -/
  | limit
  /-- The loop came to its end. -/
  | finished
  | failed (cause : LoopError)

/-- The cycles that a loop ran, how that ended, and the loop after it. -/
structure Trace where
  cycles : Array Cycle
  ending : Ending
  loop : Loop

namespace Loop

/-- The rows that are still to come in the run under way. -/
def remaining? (l : Loop) : Option (List Nat) :=
  l.run.map (·.queue)

/-- Goes on by at most some cycles, after others. -/
def goOn : (most : Nat) → Array Cycle → Loop → StateM Workspace Trace
  | 0, cycles, l => return ⟨cycles, .limit, l⟩
  | most + 1, cycles, l => do
    match ← l.step with
    | (.ok (.run item row applied), l) => goOn most (cycles.push ⟨item, row, applied⟩) l
    | (.ok .done, l) => return ⟨cycles, .finished, l⟩
    | (.error cause, l) => return ⟨cycles, .failed cause, l⟩

/--
Runs a loop to its end. Nothing asks for the same cycle again between the steps, so each cycle
after the first is one that the queue holds then, and one more step comes to the end.
-/
def runThrough (l : Loop) : StateM Workspace Trace := do
  let first ← l.goOn 1 #[]
  match first.ending with
  | .limit =>
    let left := ((first.loop.remaining?).getD []).length
    first.loop.goOn (left + 1) first.cycles
  | _ => return first

/-- Runs a loop to its end, or for some cycles at most. -/
def trace (l : Loop) : Option Nat → StateM Workspace Trace
  | some most => l.goOn most #[]
  | none => l.runThrough

end Loop

end TrialLoop
