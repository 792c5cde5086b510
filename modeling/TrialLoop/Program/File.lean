namespace TrialLoop

/-- Why a path gives no text. -/
inductive FileError where
  | missing
  | isDirectory
  | notDirectory
  | nameTooLong
  | notText
  /-- Any other reason, in the words of the system. -/
  | other (reason : String)

def FileError.message : FileError → String
  | missing => "No such file or directory (os error 2)"
  | isDirectory => "Is a directory (os error 21)"
  | notDirectory => "Not a directory (os error 20)"
  | nameTooLong => "File name too long (os error 36)"
  | notText => "stream did not contain valid UTF-8"
  | other reason => reason

/-- The text of some bytes. -/
def textOfBytes (bytes : ByteArray) : Except FileError String :=
  match String.fromUTF8? bytes with
  | some text => .ok text
  | none => .error .notText

/-- Why a path is no directory, by what comes of reading it as a file. -/
def directoryError? : Except FileError String → Option FileError
  | .ok _ => some .notDirectory
  | .error .isDirectory => none
  | .error .notText => some .notDirectory
  | .error cause => some cause

/-- The directory that a path of a file lies in. -/
def parentDirectory (path : String) : String :=
  match path.toList.reverse.dropWhile (· != '/') with
  | [] => "."
  | ['/'] => "/"
  | _ :: parent => String.ofList parent.reverse

/-- The path of a file with a name, if the name says that it lies in the directory itself. -/
def pathWithin? (directory name : String) : Option String :=
  if name = "" ∨ name.toList.contains '/' then none else some (directory ++ "/" ++ name)

end TrialLoop
