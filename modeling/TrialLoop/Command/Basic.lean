import TrialLoop.Command.Words
import TrialLoop.Text.Letter
import TrialLoop.Value.Basic

namespace TrialLoop

/-- A command line: a name, arguments by position and arguments by keyword. -/
structure Command where
  name : String
  positional : List Value := []
  keywords : List (String × Value) := []

/-- The key and the value of a word such as `key=value`. -/
def splitKeyword? (cs : List Char) : Option (List Char × List Char) :=
  match cs.takeWhile isNameChar, cs.dropWhile isNameChar with
  | c :: key, '=' :: value => if c.isDigit then none else some (c :: key, value)
  | _, _ => none

/-- The value of an argument: text if it is quoted, else what script text stands for. -/
def argumentValue (s : String) : Value :=
  match enclosingMark? s.toList with
  | some _ => .str (unquote s)
  | none => .ofText s

namespace Command

/-- The command with one more argument, which comes before the others of its sort. -/
def addWord (word : String) (command : Command) : Command :=
  match splitKeyword? word.toList with
  | some (key, value) =>
    let argument := (String.ofList key, argumentValue (String.ofList value))
    { command with keywords := argument :: command.keywords }
  | none => { command with positional := argumentValue word :: command.positional }

/-- The command that a line holds. -/
def read (line : String) : Except CommandError Command := do
  match ← words line with
  | [] => .error .empty
  | name :: arguments => .ok (arguments.foldr addWord { name := unquote name })

/-- The last argument with a keyword. -/
def keyword? (command : Command) (key : String) : Option Value :=
  (command.keywords.reverse.find? (·.1 == key)).map (·.2)

/-- Text that needs no quotes: ASCII letters and digits and some marks. -/
def isBareText (s : String) : Bool :=
  s != "" && s.toList.all fun c => c.isAlphanum || "_-.,:/+%@".toList.contains c

/-- An argument as a line holds it. Text is quoted if it would be read as something else. -/
def argumentText : Value → String
  | .int n => intText n.toInt
  | .float x => floatText .argument x
  | .str s => if isBareText s && (Value.readNumber? s).isNone then s else quote s
  | v => quote v.text

/-- The line that holds the command. -/
def text (command : Command) : String :=
  String.join
    (command.name :: command.positional.map (" " ++ argumentText ·) ++
      command.keywords.map fun (key, v) => " " ++ key ++ "=" ++ argumentText v)

/-- The same name and the same arguments. -/
def same (a b : Command) : Bool :=
  a.name == b.name && Value.sameItems a.positional b.positional &&
    a.keywords.map (·.1) == b.keywords.map (·.1) &&
    Value.sameItems (a.keywords.map (·.2)) (b.keywords.map (·.2))

end Command

end TrialLoop
