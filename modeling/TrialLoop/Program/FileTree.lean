import TrialLoop.Program.File

namespace TrialLoop

/-- Files and directories in memory. -/
inductive FileTree where
  | file (bytes : ByteArray)
  | directory (entries : List (String × FileTree))
  deriving Inhabited

/-- The names that a path goes through, among them empty ones at doubled slashes. -/
def pathNames (path : String) : List String :=
  (splitAt '/' path.toList).map String.ofList
where
  splitAt (mark : Char) : List Char → List (List Char)
    | [] => [[]]
    | c :: cs =>
      if c = mark then [] :: splitAt mark cs
      else
        match splitAt mark cs with
        | [] => [[c]]
        | name :: names => (c :: name) :: names

namespace FileTree

def empty : FileTree := directory []

/-- The names and the trees of a directory. -/
def entries : FileTree → List (String × FileTree)
  | file _ => []
  | directory entries => entries

/-- What has a name in a directory. -/
def child? (t : FileTree) (name : String) : Option FileTree :=
  (t.entries.find? (·.1 == name)).map (·.2)

/-- With some bytes under names that lead through directories, which are made where missing. -/
def insert (bytes : ByteArray) : List String → FileTree → FileTree
  | [], _ => file bytes
  | name :: names, t =>
    if name = "" ∨ name = "." then insert bytes names t
    else
      let inner := insert bytes names ((t.child? name).getD empty)
      directory ((name, inner) :: t.entries.filter (·.1 != name))

/-- The most bytes of a name. -/
def longestName : Nat := 255

/-- The most bytes of a path. -/
def longestPath : Nat := 4095

/--
What some names lead to from a tree inside others, the nearest first. Above all of them is a
directory of which nothing is known.
-/
def walk (above : List FileTree) (t : FileTree) : List String → Except FileError FileTree
  | [] => .ok t
  | name :: names =>
    match t with
    | file _ => .error .notDirectory
    | directory _ =>
      if name = "" ∨ name = "." then walk above t names
      else if name = ".." then walk above.tail (above.headD empty) names
      else
        match t.child? name with
        | none => .error (if longestName < name.utf8ByteSize then .nameTooLong else .missing)
        | some inner => walk (t :: above) inner names

/-- What a path leads to. Nothing is known of the directory that paths from a slash start at. -/
def find (t : FileTree) (path : String) : Except FileError FileTree :=
  if longestPath < path.utf8ByteSize then .error .nameTooLong
  else
    match path.toList with
    | [] => .error .missing
    | '/' :: _ => walk [] empty (pathNames path)
    | _ => walk [] t (pathNames path)

/-- The text of the file that a path leads to. -/
def read (t : FileTree) (path : String) : Except FileError String := do
  match ← t.find path with
  | file bytes => textOfBytes bytes
  | directory _ => .error .isDirectory

end FileTree

end TrialLoop
