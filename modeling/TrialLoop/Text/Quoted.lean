namespace TrialLoop

/-- The two characters that may enclose a quoted text. -/
def isQuoteMark (c : Char) : Bool :=
  c == '"' || c == '\''

/-- Each double quote and each backslash with a backslash before it. -/
def escapeQuotes : List Char → List Char
  | [] => []
  | c :: cs => if c = '\\' ∨ c = '"' then '\\' :: c :: escapeQuotes cs else c :: escapeQuotes cs

/-- A backslash before a backslash or before the mark stands for the character after it. -/
def unescapeMark (mark : Char) : List Char → List Char
  | '\\' :: c :: cs =>
    if c = '\\' ∨ c = mark then c :: unescapeMark mark cs
    else '\\' :: unescapeMark mark (c :: cs)
  | c :: cs => c :: unescapeMark mark cs
  | [] => []

/-- The mark that encloses the text, if its first and last characters are one quote mark. -/
def enclosingMark? : List Char → Option Char
  | [] => none
  | c :: cs => if isQuoteMark c ∧ cs.getLast? = some c then some c else none

/-- The text in double quotes. -/
def quote (s : String) : String :=
  String.ofList ('"' :: escapeQuotes s.toList ++ ['"'])

/-- The text without one enclosing pair of quote marks; other text is left as it is. -/
def unquote (s : String) : String :=
  match enclosingMark? s.toList with
  | some mark => String.ofList (unescapeMark mark s.toList.tail.dropLast)
  | none => s

/-- Each backslash that stands before a backslash or a double quote is dropped. -/
def collapseEscapes (s : String) : String :=
  String.ofList (unescapeMark '"' s.toList)

end TrialLoop
