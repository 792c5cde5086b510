import TrialLoop.Loop.Basic
import TrialLoop.Script.Dedent

namespace TrialLoop

/-- What is wrong with a line of an experiment file. -/
inductive LineProblem where
  | script (cause : CommandError)
  | topCommand (name : String)
  | definition (line : String)

def LineProblem.message : LineProblem → String
  | script cause => cause.message
  | topCommand name => "unexpected top-level command: " ++ name
  | definition line => "malformed item definition: " ++ line

/-- A line of an experiment file with what is wrong with it. -/
structure LoadError where
  line : Nat
  problem : LineProblem

def LoadError.text (e : LoadError) : String :=
  "line " ++ toString e.line ++ ": " ++ e.problem.message

/-- An item as a file defines it: the script without its indentation, and the line of its header. -/
structure Item where
  kind : String
  name : String
  script : String
  line : Nat

/-- The variables and the items of an experiment. -/
structure Experiment where
  vars : List (String × Value) := []
  items : List Item := []

/-- The lines of the front matter, which three dashes open and close. -/
def frontMatter (ls : List (List Char)) : Nat :=
  match ls with
  | [] => 0
  | first :: rest =>
    if trim first = "---".toList then
      min ls.length (2 + (rest.takeWhile fun l => trim l != "---".toList).length)
    else 0

/-- A line that defines an item. -/
def isHeader (line : List Char) : Bool :=
  "define".toList.isPrefixOf line && (line.drop 6).head?.any isBlank

/-- A line that belongs to the item defined before it: blank or indented. -/
def isBody (line : List Char) : Bool :=
  line.isEmpty || line.head?.any isBlank

/-- The kind and the name that a header gives. -/
def readHeader (line : List Char) : Except LineProblem (String × String) :=
  match words (String.ofList line) with
  | .error cause => .error (.script cause)
  | .ok [_, kind, name] => .ok (unquote kind, unquote name)
  | .ok _ => .error (.definition (String.ofList (trim line)))

/-- The parts of an experiment file: the lines outside items, the items and the bad headers. -/
structure Parts where
  /-- The lines of the file, with those of items left blank. -/
  top : List (List Char) := []
  items : List Item := []
  errors : List LoadError := []

/-- With an item or a bad header in front. -/
def Parts.define (p : Parts) (number : Nat) (header : List Char) (body : List (List Char)) :
    Parts :=
  let top := List.replicate (body.length + 1) [] ++ p.top
  match readHeader header with
  | .ok (kind, name) =>
    let script := dedent (String.ofList (joinLines body))
    { p with top := top, items := ⟨kind, name, script, number⟩ :: p.items }
  | .error problem => { p with top := top, errors := ⟨number, problem⟩ :: p.errors }

/-- The parts of the lines from a line number on. -/
def partsFrom (number : Nat) : List (List Char) → Parts
  | [] => {}
  | line :: rest =>
    if isHeader line then
      let body := rest.takeWhile isBody
      (partsFrom (number + body.length + 1) (rest.drop body.length)).define number line body
    else
      let p := partsFrom (number + 1) rest
      { p with top := line :: p.top }
  termination_by ls => ls.length
  decreasing_by all_goals simp; try omega

/-- The variable that a directive outside items sets. -/
def topVariable? : Directive → Option (String × Value)
  | .set name v => some (name, v)
  | .block name text => some (name, .str text)
  | .command .. => none

/-- The error of a directive outside items that sets no variable. -/
def topError? : Nat × Directive → Option LoadError
  | (line, .command name _) => some ⟨line, .topCommand name⟩
  | _ => none

namespace Experiment

/-- The experiment of a file and the lines that say nothing. -/
def ofText (text : String) : Experiment × List LoadError :=
  let ls := lines text.toList
  let front := frontMatter ls
  let parts := partsFrom (front + 1) (ls.drop front)
  let top := String.ofList (joinLines (List.replicate front [] ++ parts.top))
  let scriptErrors := (lineErrors top).map fun e => LoadError.mk e.line (.script e.cause)
  (⟨(directives top).filterMap (topVariable? ·.2), parts.items⟩,
    parts.errors ++ scriptErrors ++ (directives top).filterMap topError?)

/-- The first item of a name. -/
def item? (e : Experiment) (name : String) : Option Item :=
  e.items.find? (·.name == name)

/-- The items that are loops. -/
def loops (e : Experiment) : List Item :=
  e.items.filter (·.kind == "loop")

/-- The variables that the experiment starts with. -/
def bindings (e : Experiment) : Bindings :=
  Bindings.empty.setAll e.vars

/-- A loop of an experiment, with the lines of the file that say nothing. -/
structure BuiltLoop extends Loop.Built where
  errors : List LoadError

/-- The first loop of a name. -/
def buildLoop? (e : Experiment) (name : String) : Option BuiltLoop :=
  (e.loops.find? (·.name == name)).map fun item =>
    { toBuilt := Loop.ofScript item.name item.script
      errors := (lineErrors item.script).map fun err =>
        ⟨item.line + err.line, .script err.cause⟩ }

end Experiment

end TrialLoop
