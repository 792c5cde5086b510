import TrialLoop.Script.Directive
import TrialLoop.Text.Lines

namespace TrialLoop

/-- What a script says at a line: a directive, or why the line is none. -/
structure Entry where
  line : Nat
  outcome : Except CommandError Directive

/-- A line that could not be read. -/
structure LineError where
  line : Nat
  cause : CommandError

/-- A line that ends a block. -/
def endsBlock (line : List Char) : Bool :=
  trim line == "__end__".toList

/-- Blank lines and lines that start with a number sign say nothing. -/
def isSilent (line : List Char) : Bool :=
  match trim line with
  | [] => true
  | c :: _ => c == '#'

/-- The entries of the lines from a line number on. A block without an end takes all lines. -/
def entriesFrom (number : Nat) : List (List Char) → List Entry
  | [] => []
  | line :: rest =>
    if isSilent line then entriesFrom (number + 1) rest
    else
      match blockName? (trim line) with
      | some name =>
        let body := rest.takeWhile fun l => !endsBlock l
        ⟨number, .ok (.block name (String.ofList (joinLines body)))⟩ ::
          entriesFrom (number + body.length + 2) (rest.drop (body.length + 1))
      | none =>
        ⟨number, Directive.ofLine (String.ofList (trim line))⟩ :: entriesFrom (number + 1) rest
  termination_by ls => ls.length
  decreasing_by all_goals simp; try omega

/-- The entries of an item script, with line numbers from 1 on. -/
def scriptEntries (source : String) : List Entry :=
  entriesFrom 1 (lines source.toList)

/-- The directives of a script with their lines. -/
def directives (source : String) : List (Nat × Directive) :=
  (scriptEntries source).filterMap fun e => e.outcome.toOption.map (e.line, ·)

/-- The lines of a script that could not be read. -/
def lineErrors (source : String) : List LineError :=
  (scriptEntries source).filterMap fun e =>
    match e.outcome with
    | .ok _ => none
    | .error cause => some ⟨e.line, cause⟩

/-- The blocks of a script. -/
def blocks (source : String) : List (String × String) :=
  (directives source).filterMap fun (_, d) =>
    match d with
    | .block name text => some (name, text)
    | _ => none

end TrialLoop
