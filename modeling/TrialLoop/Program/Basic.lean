import TrialLoop.Experiment.Arguments
import TrialLoop.Program.Report

namespace TrialLoop

/-- What the program leaves behind: its exit code, its output and its messages, line by line. -/
structure Outcome where
  exit : Nat
  output : List String := []
  messages : List String := []

namespace Outcome

/-- A command line that is not understood. -/
def misused (cause : UsageError) : Outcome :=
  { exit := 2, messages := ["trialscript: " ++ cause.message, usage] }

/-- The lines in the log about lines of a file that say nothing. -/
def warnings (file : String) (errors : List LoadError) : List String :=
  errors.map fun e => "WARN " ++ file ++ ": " ++ e.text

/-- A failure after some lines in the log. -/
def failed (log : List String) (cause : RunError) : Outcome :=
  { exit := 1, messages := log ++ ["trialscript: " ++ cause.message] }

/-- What a run leaves behind. Only warnings go to the log if no debugging is asked for. -/
def ofReport (a : Arguments) (log : List String) (r : Report) : Outcome :=
  let lines (events : List Event) : List String :=
    (events.filter fun e => a.debug || e.isWarning).map (·.logLine)
  let log := log ++ lines r.built ++ warnings a.file r.errors ++ lines r.events
  match r.failure with
  | some cause => { failed log cause with output := r.lines }
  | none => { exit := 0, output := r.lines, messages := log }

end Outcome

namespace Program

variable {m : Type → Type} [Monad m]

/-- The text of a file in the directory of the pool; files that cannot be read are not there. -/
def readPool (read : String → m (Except FileError String)) (directory name : String) :
    m (Option String) :=
  match pathWithin? directory name with
  | none => return none
  | some path => return (← read path).toOption

/-- Runs a loop of the experiment that a file holds. -/
def runFile (read : String → m (Except FileError String)) (seed : UInt64) (a : Arguments) :
    m Outcome := do
  match ← read a.file with
  | .error cause => return .failed [] (.file a.file cause)
  | .ok text =>
    let (e, errors) := Experiment.ofText text
    let log := Outcome.warnings a.file errors
    let directory := a.pool.getD (parentDirectory a.file)
    match directoryError? (← read directory) with
    | some cause => return .failed log (.file directory cause)
    | none =>
      let wanted := e.wantedFile? a.loop seed
      let found ←
        match wanted with
        | some file => readPool read directory file
        | none => pure none
      let pool := fun name => if some name = wanted then found else none
      return .ofReport a log (e.run pool a.loop seed a.maxCycles)

/--
What the program does with the words of its command line, by a way to read files and a seed to
use if none is given.
-/
def run (read : String → m (Except FileError String)) (fresh : UInt64) (words : List String) :
    m Outcome :=
  match Arguments.read words with
  | .error cause => return .misused cause
  | .ok a => runFile read (a.seed.getD fresh) a

end Program

end TrialLoop
