import TrialLoop.Text.Blank
import TrialLoop.Text.Quoted

namespace TrialLoop

/-- Why a command line cannot be read. -/
inductive CommandError where
  | empty
  | unterminatedQuote (line : String)
  | missingArgument (command : String)
  deriving DecidableEq

def CommandError.message : CommandError → String
  | empty => "empty command"
  | unterminatedQuote line => "unterminated quote in: " ++ line
  | missingArgument command => command ++ ": missing argument"

/-- The word read so far, last character first, in front of the words after it. -/
def endWord (word : List Char) (words : List (List Char)) : List (List Char) :=
  if word = [] then words else word.reverse :: words

/-- A quote mark encloses text at the start of a word and after an equals sign. -/
def opensQuote (word : List Char) (c : Char) : Bool :=
  isQuoteMark c && (word.isEmpty || word.head? == some '=')

/--
The words of a line that goes on after a quote mark, if one is open, and after part of a word. A
backslash inside quotes takes the character after it along. There are none if a quote stays open.
-/
def wordsFrom : Option Char → List Char → List Char → Option (List (List Char))
  | none, word, [] => some (endWord word [])
  | some _, _, [] => none
  | some mark, word, '\\' :: c :: cs => wordsFrom (some mark) (c :: '\\' :: word) cs
  | some mark, word, c :: cs => wordsFrom (if c = mark then none else some mark) (c :: word) cs
  | none, word, c :: cs =>
    if isBlank c then (wordsFrom none [] cs).map (endWord word)
    else wordsFrom (if opensQuote word c then some c else none) (c :: word) cs

/-- The words of a line, which blanks outside quotes separate. Quotes and escapes are kept. -/
def words (line : String) : Except CommandError (List String) :=
  match wordsFrom none [] line.toList with
  | some ws => .ok (ws.map String.ofList)
  | none => .error (.unterminatedQuote line)

end TrialLoop
