namespace TrialLoop

/-- A line, last character first, without the carriage return that ends it. -/
def dropReturn : List Char → List Char
  | '\r' :: line => line
  | line => line

/-- The lines of a text that goes on after part of a line, last character first. -/
def linesFrom : List Char → List Char → List (List Char)
  | [], [] => []
  | line, [] => [line.reverse]
  | line, c :: cs =>
    if c = '\n' then (dropReturn line).reverse :: linesFrom [] cs else linesFrom (c :: line) cs

/--
The lines of a text. A line ends at a line feed, or at a carriage return and a line feed; what
follows the last line feed is a line of its own if it is not empty.
-/
def lines (cs : List Char) : List (List Char) :=
  linesFrom [] cs

/-- The lines with one line feed between each two. -/
def joinLines : List (List Char) → List Char
  | [] => []
  | [l] => l
  | l :: l' :: ls => l ++ '\n' :: joinLines (l' :: ls)

/-- The longest text that both texts start with. -/
def commonStart : List Char → List Char → List Char
  | a :: as, b :: bs => if a = b then a :: commonStart as bs else []
  | _, _ => []

end TrialLoop
