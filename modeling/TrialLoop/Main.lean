import TrialLoop.Program.Basic

namespace TrialLoop

/-- Why the system does not give a file. -/
def fileError : IO.Error → FileError
  | .noFileOrDirectory .. => .missing
  | .inappropriateType _ code reason =>
    if code = 21 then .isDirectory
    else if code = 20 then .notDirectory
    else .other (reason ++ " (os error " ++ toString code ++ ")")
  | .permissionDenied _ code reason =>
    .other (reason ++ " (os error " ++ toString code ++ ")")
  | e => .other (toString e)

/-- The text of a file of the system. -/
def readFile (path : String) : IO (Except FileError String) := do
  try
    return textOfBytes (← IO.FS.readBinFile path)
  catch e =>
    return .error (fileError e)

end TrialLoop

/-- Runs a loop of an experiment and prints a line for each of its cycles. -/
def main (words : List String) : IO UInt32 := do
  let bytes ← IO.getRandomBytes 8
  let outcome ← TrialLoop.Program.run TrialLoop.readFile bytes.toUInt64LE! words
  for line in outcome.output do
    IO.println line
  for message in outcome.messages do
    IO.eprintln message
  return outcome.exit.toUInt32
