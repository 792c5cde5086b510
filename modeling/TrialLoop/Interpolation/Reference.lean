import TrialLoop.Expr.Eval
import TrialLoop.Text.Letter

namespace TrialLoop

/--
The place of the bracket that closes an inline expression, where some characters were read before.
A backslash takes the character after it along, and brackets between quote marks do not count.
-/
def closingBracket? : (place depth : Nat) → Option Char → List Char → Option Nat
  | _, _, _, [] => none
  | place, depth, mark, '\\' :: cs =>
    match cs with
    | [] => none
    | _ :: cs => closingBracket? (place + 2) depth mark cs
  | place, depth, some mark, c :: cs =>
    closingBracket? (place + 1) depth (if c = mark then none else some mark) cs
  | place, depth, none, c :: cs =>
    if isQuoteMark c then closingBracket? (place + 1) depth (some c) cs
    else if c = '[' then closingBracket? (place + 1) (depth + 1) none cs
    else if c = ']' then
      match depth with
      | 0 => some place
      | depth + 1 => closingBracket? (place + 1) depth none cs
    else closingBracket? (place + 1) depth none cs

/-- Each backslash before a bracket is dropped. -/
def unescapeBrackets : List Char → List Char
  | '\\' :: c :: cs =>
    if c = '[' ∨ c = ']' then c :: unescapeBrackets cs else '\\' :: unescapeBrackets (c :: cs)
  | c :: cs => c :: unescapeBrackets cs
  | [] => []

/-- A value that stands for some characters of a text. -/
structure Found where
  value : Value
  /-- The number of characters after the opening bracket, with the closing one. -/
  length : Nat

variable {σ : Type}

/-- The value of an inline expression, whose text follows the opening bracket and equals sign. -/
def readInline (context : Context σ) (cs : List Char) : Eval σ (Option Found) :=
  match closingBracket? 0 0 none cs with
  | none => return none
  | some n => do
    let v ← Expr.evalText context (String.ofList (unescapeBrackets (cs.take n)))
    return some ⟨v, n + 2⟩

/-- The value of the variable with a name that was put together, if it is one. -/
def findVariable (context : Context σ) (name : List Char) (length : Nat) :
    Eval σ (Option Found) :=
  if name = [] ∨ !name.all isNameChar then return none
  else do
    match ← context.lookup (String.ofList name) with
    | some v => return some ⟨v, length⟩
    | none => return none

/--
Reads a name up to the closing bracket, after some characters of which some belong to a reference
inside the name. The value of such a reference is part of the name, whose last character comes
first.
-/
def readName (context : Context σ) (inner : List Char → Eval σ (Option Found)) :
    (name : List Char) → (length skip : Nat) → List Char → Eval σ (Option Found)
  | _, _, _, [] => return none
  | name, length, skip + 1, _ :: cs => readName context inner name (length + 1) skip cs
  | name, length, 0, c :: cs =>
    if c = ']' then findVariable context name.reverse (length + 1)
    else if c = '[' then do
      match ← inner cs with
      | some found =>
        let name := found.value.text.toList.reverse ++ name
        readName context inner name (length + 1) found.length cs
      | none => return none
    else if isNameChar c then readName context inner (c :: name) (length + 1) 0 cs
    else return none

/-- The deepest nesting of references. -/
def maxReferences : Nat := 32

/-- The value of the reference whose text follows an opening bracket, within a depth of nesting. -/
def readReference (context : Context σ) : Nat → List Char → Eval σ (Option Found)
  | 0, _ => return none
  | _ + 1, '=' :: cs => readInline context cs
  | depth + 1, cs => readName context (readReference context depth) [] 0 0 cs

/-- An opening bracket comes next, or one with a backslash before it. -/
def bracketFollows : List Char → Bool
  | '[' :: _ => true
  | '\\' :: '[' :: _ => true
  | _ => false

/--
The text with the values of its references, after what was written before, last character first,
and after some characters that belong to a reference. A backslash before an opening bracket takes
away its meaning, and of two such backslashes one is kept.
-/
def fillText (context : Context σ) :
    (out : List Char) → (skip : Nat) → List Char → Eval σ String
  | out, _, [] => return String.ofList out.reverse
  | out, skip + 1, _ :: cs => fillText context out skip cs
  | out, 0, c :: cs =>
    if c = '\\' ∧ bracketFollows cs then fillText context (cs.take 1 ++ out) 1 cs
    else if c = '[' then do
      match ← readReference context maxReferences cs with
      | some found =>
        fillText context (found.value.text.toList.reverse ++ out) found.length cs
      | none => fillText context ('[' :: out) 0 cs
    else fillText context (c :: out) 0 cs

/--
The value of a text with references. A text that is one reference has its value, and any other is a
text again.
-/
def interpolate (context : Context σ) (text : String) : Eval σ Value :=
  match text.toList with
  | '[' :: cs => do
    match ← readReference context maxReferences cs with
    | some found =>
      if found.length = cs.length then return found.value
      else return .str (← fillText context found.value.text.toList.reverse found.length cs)
    | none => return .str (← fillText context ['['] 0 cs)
  | cs => return .str (← fillText context [] 0 cs)

end TrialLoop
