import TrialLoop.Command.Basic

namespace TrialLoop

/-- What one line or one block of an item script says. -/
inductive Directive where
  /-- A line `set name value`. -/
  | set (name : String) (value : Value)
  /-- The lines between `__name__` and `__end__`. -/
  | block (name : String) (text : String)
  /-- Any other command; the arguments keep their quotes. -/
  | command (name : String) (arguments : List String)

/-- The directive of a line that opens no block. -/
def Directive.ofLine (line : String) : Except CommandError Directive := do
  match ← words line with
  | [] => .error .empty
  | "set" :: _ =>
    match (← Command.read line).positional with
    | name :: value :: _ => .ok (.set name.text value)
    | _ => .error (.missingArgument "set")
  | name :: arguments => .ok (.command name arguments)

/-- The name between two underscores on both sides of a line, which opens a block. -/
def blockName? (line : List Char) : Option String :=
  match line with
  | '_' :: '_' :: rest =>
    match rest.reverse with
    | '_' :: '_' :: name =>
      let name := name.reverse
      if name = [] ∨ name = "end".toList ∨ name.any isBlank then none
      else some (String.ofList name)
    | _ => none
  | _ => none

end TrialLoop
