import TrialLoop.Text.Blank
import TrialLoop.Text.Lines

namespace TrialLoop

/-- The blanks that a line starts with. -/
def indentation (line : List Char) : List Char :=
  line.takeWhile isBlank

/-- The longest text that all of the texts start with. -/
def commonStartAll : List (List Char) → List Char
  | [] => []
  | [l] => l
  | l :: l' :: ls => commonStart l (commonStartAll (l' :: ls))

/-- The blanks that all lines start with, but for those of blanks only. -/
def commonIndent (ls : List (List Char)) : List Char :=
  commonStartAll ((ls.filter fun l => !isBlankText l).map indentation)

/-- A line without the common blanks, or without its own if it lacks them. -/
def dropIndent (indent line : List Char) : List Char :=
  if indent.isPrefixOf line then line.drop indent.length else dropBlanks line

/-- The text without the blanks that all its lines start with. -/
def dedent (source : String) : String :=
  let ls := lines source.toList
  match commonIndent ls with
  | [] => source
  | indent => String.ofList (joinLines (ls.map (dropIndent indent)))

end TrialLoop
