import TrialLoop.Experiment.Basic
import TrialLoop.Program.File
import TrialLoop.Program.Trace

namespace TrialLoop

/-- Why the program fails once its arguments are clear. -/
inductive RunError where
  | file (path : String) (cause : FileError)
  | noLoop
  | noSuchLoop (name : String)
  | loop (cause : LoopError)

def RunError.message : RunError → String
  | file path cause => path ++ ": " ++ cause.message
  | noLoop => "experiment defines no loop items"
  | noSuchLoop name => "no loop named " ++ name
  | loop cause => cause.message

/-- The line for a cycle: its number, its row, and the item with the variables as a command. -/
def Cycle.line (number : Nat) (c : Cycle) : String :=
  let command : Command :=
    { name := if c.item = "" then "-" else c.item, keywords := c.applied }
  toString number ++ "\t" ++ toString c.row ++ "\t" ++ command.text

/--
What came of a run: its cycles, why it failed if it did, and what is for the log from reading the
script, from its lines that say nothing, and from the run.
-/
structure Report where
  cycles : Array Cycle := #[]
  failure : Option RunError := none
  built : List Event := []
  errors : List LoadError := []
  events : List Event := []

namespace Report

/-- The lines of the cycles, which are numbered from 1 on. -/
def lines (r : Report) : List String :=
  r.cycles.toList.zipIdx.map fun (c, i) => c.line (i + 1)

end Report

namespace Experiment

/-- The loop with a name, or the first one. -/
def chosenLoop (e : Experiment) (name : Option String) : Except RunError BuiltLoop := do
  let name ←
    match name, e.loops with
    | some name, _ => .ok name
    | none, first :: _ => .ok first.name
    | none, [] => .error .noLoop
  match e.buildLoop? name with
  | some built => .ok built
  | none => .error (.noSuchLoop name)

/-- The variables that a run starts with, and its session. -/
def workspace (e : Experiment) (seed : UInt64) : Workspace :=
  .ofSeed e.bindings seed

/-- The file of the pool that a run reads, if any. -/
def wantedFile? (e : Experiment) (name : Option String) (seed : UInt64) : Option String :=
  match e.chosenLoop name with
  | .error _ => none
  | .ok built =>
    match built.loop.sourceFile (e.workspace seed) with
    | (.ok file, _) => file
    | (.error _, _) => none

/-- A run of a loop with a pool of files, to its end or for some cycles at most. -/
def run (e : Experiment) (pool : String → Option String) (name : Option String) (seed : UInt64)
    (most : Option Nat) : Report :=
  match e.chosenLoop name with
  | .error cause => { failure := some cause }
  | .ok built =>
    match built.loop.prepare pool (e.workspace seed) with
    | (.error cause, w) =>
      { failure := some (.loop cause)
        built := built.events.toList
        errors := built.errors
        events := w.session.events.toList }
    | (.ok l, w) =>
      let (trace, w) := l.trace most w
      { cycles := trace.cycles
        failure :=
          match trace.ending with
          | .failed cause => some (.loop cause)
          | _ => none
        built := built.events.toList
        errors := built.errors
        events := w.session.events.toList }

end Experiment

end TrialLoop
