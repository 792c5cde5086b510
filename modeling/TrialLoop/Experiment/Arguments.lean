import TrialLoop.Number.Numeral

namespace TrialLoop

/-- What the command line asks for. -/
structure Arguments where
  debug : Bool := false
  seed : Option UInt64 := none
  /-- The directory of the pool of files. -/
  pool : Option String := none
  maxCycles : Option Nat := none
  file : String := ""
  loop : Option String := none

/-- Why a command line is not understood. -/
inductive UsageError where
  | missingValue (option : Char)
  | badSeed (found : String)
  | badCycles (found : String)
  | unknownOption (option : Char)
  | missingFile
  | extraArgument (found : String)

def UsageError.message : UsageError → String
  | missingValue option => "-" ++ String.singleton option ++ " requires an argument"
  | badSeed found => "invalid seed: " ++ found
  | badCycles found => "invalid cycle count: " ++ found
  | unknownOption option => "unknown option: -" ++ String.singleton option
  | missingFile => "missing experiment file"
  | extraArgument found => "unexpected argument: " ++ found

/-- How the program is to be called. -/
def usage : String :=
  "Usage: trialscript [-d] [-s<seed>] [-L<dir>] [-n<max>] <file> [<loop>]"

namespace Arguments

/-- The options that take a value. -/
def takesValue (c : Char) : Bool :=
  c == 's' || c == 'L' || c == 'n'

/-- With the value of an option. -/
def setValue (a : Arguments) (option : Char) (s : String) : Except UsageError Arguments :=
  if option = 's' then
    match natural? s.toList with
    | some n => .ok { a with seed := some (UInt64.ofNat n) }
    | none => .error (.badSeed s)
  else if option = 'n' then
    match natural? s.toList with
    | some n => .ok { a with maxCycles := some n }
    | none => .error (.badCycles s)
  else .ok { a with pool := some s }

/-- What the options of one word say. -/
inductive Cluster where
  /-- Nothing that needs another word. -/
  | closed (a : Arguments)
  /-- The value of an option, which is the next word. -/
  | wanting (a : Arguments) (option : Char)

/-- With the options of one word after its dash. -/
def readCluster (a : Arguments) : List Char → Except UsageError Cluster
  | [] => .ok (.closed a)
  | c :: cs =>
    if c = 'd' then readCluster { a with debug := true } cs
    else if takesValue c then
      if cs = [] then .ok (.wanting a c)
      else (setValue a c (String.ofList cs)).map .closed
    else .error (.unknownOption c)

/-- The options of some words, and the words that are none. Two dashes end the options. -/
def readWords (a : Arguments) : List String → Except UsageError (Arguments × List String)
  | [] => .ok (a, [])
  | word :: rest =>
    if word = "--" then .ok (a, rest)
    else
      match word.toList with
      | '-' :: c :: cs => do
        match ← readCluster a (c :: cs) with
        | .closed a => readWords a rest
        | .wanting a option =>
          match rest with
          | [] => .error (.missingValue option)
          | value :: rest => do readWords (← setValue a option value) rest
      | _ => do
        let (a, words) ← readWords a rest
        .ok (a, word :: words)

/-- What a command line asks for: options, a file and perhaps a loop. -/
def read (words : List String) : Except UsageError Arguments := do
  match ← readWords {} words with
  | (_, []) => .error .missingFile
  | (a, [file]) => .ok { a with file := file }
  | (a, [file, loop]) => .ok { a with file := file, loop := some loop }
  | (_, _ :: _ :: extra :: _) => .error (.extraArgument extra)

end Arguments

end TrialLoop
