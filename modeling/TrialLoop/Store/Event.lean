import TrialLoop.Value.Error

namespace TrialLoop

/-- What is worth a line in the log. -/
inductive Event where
  | selfReference (name : String)
  | tooDeep (name : String)
  | notInterpolated (name : String) (cause : EvalError)
  | quoteClosed (condition : String)
  | ignoredCommand (loop : String) (line : Nat) (command : String)
  | incompleteCycle (loop : String) (line : Nat)
  | cycleNumber (loop : String) (line : Nat) (found : String)
  | cellFormula (loop : String) (line : Nat) (cause : EvalError)
  | tableRead (loop : String) (rows : Nat) (file : String)
  | repeating (cycle : Nat)
  | finished (loop : String)
  | broken (loop condition : String)
  | queued (loop : String) (cycles : Nat)
  | cellFailed (loop column cell : String) (cause : EvalError)

namespace Event

/-- Whether the event is a warning; the others help to find mistakes. -/
def isWarning : Event → Bool
  | notInterpolated .. => true
  | incompleteCycle .. => true
  | cycleNumber .. => true
  | cellFormula .. => true
  | cellFailed .. => true
  | _ => false

def message : Event → String
  | selfReference name => name ++ " refers to itself, using raw text"
  | tooDeep name => "interpolation of " ++ name ++ " too deep, using raw text"
  | notInterpolated name cause => "failed to interpolate " ++ name ++ ": " ++ cause.message
  | quoteClosed condition => "closing unterminated quote in condition: " ++ condition
  | ignoredCommand loop line command =>
    "loop " ++ loop ++ ": line " ++ toString line ++ ": ignoring " ++ command
  | incompleteCycle loop line =>
    "Incorrect setcycle command in item " ++ loop ++ " (line " ++ toString line ++ ")"
  | cycleNumber loop line found =>
    "loop " ++ loop ++ ": line " ++ toString line ++ ": bad cycle number " ++ found
  | cellFormula loop line cause =>
    "loop " ++ loop ++ ": line " ++ toString line ++ ": " ++ cause.message
  | tableRead loop rows file =>
    "loop " ++ loop ++ ": read " ++ toString rows ++ " rows from " ++ file
  | repeating cycle => "Repeating cycle: " ++ toString cycle
  | finished loop => "loop " ++ loop ++ ": finished"
  | broken loop condition => "loop " ++ loop ++ ": break-if '" ++ condition ++ "' is true"
  | queued loop cycles => "loop " ++ loop ++ ": " ++ toString cycles ++ " cycles"
  | cellFailed loop column cell cause =>
    "Failed to evaluate expression in loop item: " ++ loop ++ " (" ++ column ++ " = " ++ cell ++
      "): " ++ cause.message

/-- The line of the event in the log. -/
def logLine (e : Event) : String :=
  (if e.isWarning then "WARN " else "DEBUG ") ++ e.message

end Event

end TrialLoop
