import TrialLoop.Loop.Operation
import TrialLoop.Script.Basic
import TrialLoop.Store.Workspace
import TrialLoop.Table.Csv

namespace TrialLoop

/-- A run of a loop: its rows, those still to come, and the one that was applied last. -/
structure Run where
  table : Table
  queue : List Nat
  current : Option Nat := none

/-- A loop: settings, a table of cycles, operations on it, and the run that is under way. -/
structure Loop where
  name : String
  vars : Bindings
  table : Table := {}
  operations : Array Operation := #[]
  run : Option Run := none

namespace Loop

/-- The settings of a loop that says nothing. -/
def defaults : Bindings :=
  Bindings.empty.setAll
    [("repeat", .int 1), ("order", .str "random"), ("item", .str ""), ("break_if", .str "never"),
      ("source", .str "table"), ("source_file", .str ""), ("skip", .int 0), ("offset", .str "no")]

/-- A loop without cycles. -/
def empty (name : String) : Loop :=
  { name := name, vars := defaults }

/-- A loop and what was worth a line in the log. -/
structure Built where
  loop : Loop
  events : Array Event := #[]

def Built.record (b : Built) (e : Event) : Built :=
  { b with events := b.events.push e }

/-- The cell that a text in a script stands for: a formula after an equals sign, else a value. -/
def cellOf (s : String) : Except EvalError Cell :=
  match s.toList with
  | '=' :: source => ((Formula.ofText (String.ofList source)).map .formula).mapError .grammar
  | _ => .ok (.literal (.ofText s))

/-- With the cell that the arguments of a line name: a row, a column and a text. -/
def setCycle (b : Built) (line : Nat) : List String → Built
  | row :: column :: text :: _ =>
    match (natural? row.toList).filter (· < maxRows) with
    | none => b.record (.cycleNumber b.loop.name line row)
    | some i =>
      match cellOf (unquote text) with
      | .error cause => b.record (.cellFormula b.loop.name line cause)
      | .ok cell =>
        { b with loop := { b.loop with table := b.loop.table.setCell i (unquote column) cell } }
  | _ => b.record (.incompleteCycle b.loop.name line)

/-- With what a command says. -/
def addCommand (b : Built) (line : Nat) (name : String) (arguments : List String) : Built :=
  match name with
  | "run" =>
    match arguments with
    | [] => b
    | item :: _ =>
      { b with loop := { b.loop with vars := b.loop.vars.set "item" (.str (unquote item)) } }
  | "setcycle" => setCycle b line arguments
  | _ =>
    match OperationKind.ofName? name with
    | some kind =>
      let op : Operation := ⟨kind, arguments⟩
      { b with loop := { b.loop with operations := b.loop.operations.push op } }
    | none => b.record (.ignoredCommand b.loop.name line name)

/-- With what a directive says. -/
def addDirective (b : Built) (line : Nat) : Directive → Built
  | .set name v => { b with loop := { b.loop with vars := b.loop.vars.set name v } }
  | .block name text => { b with loop := { b.loop with vars := b.loop.vars.set name (.str text) } }
  | .command name arguments => addCommand b line name arguments

/-- The loop that an item script describes. Lines that cannot be read are left out. -/
def ofScript (name script : String) : Built :=
  (directives script).foldl (fun b (line, d) => addDirective b line d) { loop := empty name }

/-- The name ends in `.csv`, in small or capital letters. -/
def isCsvName (file : String) : Bool :=
  (file.toList.reverse.take 4).map Char.toLower == ['v', 's', 'c', '.']

/-- The text of a setting, or another one if it is not set. -/
def setting (l : Loop) (name : String) (default : Value) : StateM Workspace Value :=
  Workspace.withinItem l.vars fun scope => lookupOr scope name default

/-- The file that holds the table, if the settings name one. -/
def sourceFile (l : Loop) : StateM Workspace (Except LoopError (Option String)) := do
  if (← l.setting "source" (.str "table")).text = "file" then
    let file := (← l.setting "source_file" (.str "")).text
    if isCsvName file then return .ok (some file)
    else return .error (.configuration .fileKind)
  else return .ok none

/-- With the table of a file, if its text is there. -/
def load (l : Loop) (file : String) : Option String → StateM Workspace (Except LoopError Loop)
  | none => return .error (.configuration (.noFile file))
  | some text =>
    match Table.ofCsv text with
    | .error cause => return .error (.configuration (.badFile file cause.message))
    | .ok table => do
      Workspace.record (.tableRead l.name table.size file)
      return .ok { l with table := table }

/-- With the table of its file, if it has one in a pool of files, and with no run under way. -/
def prepare (l : Loop) (pool : String → Option String) :
    StateM Workspace (Except LoopError Loop) := do
  match ← l.sourceFile with
  | .error cause => return .error cause
  | .ok none => return .ok { l with run := none }
  | .ok (some file) => return (← l.load file (pool file)).map ({ · with run := none })

end Loop

end TrialLoop
