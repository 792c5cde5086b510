import TrialLoop.Function.Basic
import TrialLoop.Interpolation.Reference
import TrialLoop.Store.Bindings
import TrialLoop.Store.Event

namespace TrialLoop

/-- What a run draws from and writes to. -/
structure Session where
  random : RandomStream
  events : Array Event := #[]

/-- The session of a seed. -/
def Session.ofSeed (seed : UInt64) : Session :=
  { random := .ofSeed seed }

def Session.record (s : Session) (e : Event) : Session :=
  { s with events := s.events.push e }

/-- Draws from the random stream of the session. -/
def Session.draw {α : Type} (m : StateM RandomStream α) : StateM Session α := fun s =>
  let (a, random) := m s.random
  (a, { s with random := random })

/-- The most variables whose texts are interpolated inside each other. -/
def maxDepth : Nat := 32

/-- The most variables whose texts are interpolated for one. -/
def maxWork : Nat := 10000

/-- The session while one variable is looked up. -/
structure Lookup where
  session : Session
  /-- How many texts may still be interpolated. -/
  budget : Nat

def Lookup.record (e : Event) : StateM Lookup Unit :=
  modify fun s => { s with session := s.session.record e }

/-- The result of a function while a variable is looked up. -/
def Lookup.call (name : String) (arguments : List Value) : Eval Lookup Value := fun s =>
  let (result, session) := Session.draw (callFunction name arguments) s.session
  (result, { s with session := session })

/-- The text of a value that has an opening bracket, which is to be interpolated. -/
def Value.reference? : Value → Option String
  | str s => if s.toList.contains '[' then some s else none
  | _ => none

/--
The value of a variable inside others, the innermost first, with room for some more. Its text is
interpolated, unless it is one of the others, the room or the budget is used up, or this fails.
-/
def lookupWithin (scope : Scope) :
    (room : Nat) → (within : List String) → String → StateM Lookup (Option Value)
  | room, within, name =>
    match scope.raw? name with
    | none => return none
    | some raw =>
      match raw.reference? with
      | none => return some raw
      | some text => do
        if within.contains name then
          Lookup.record (.selfReference name)
          return some raw
        match room with
        | 0 =>
          Lookup.record (.tooDeep name)
          return some raw
        | room + 1 =>
          if (← get).budget = 0 then
            Lookup.record (.tooDeep name)
            return some raw
          modify fun s => { s with budget := s.budget - 1 }
          match ← interpolate ⟨lookupWithin scope room (name :: within), Lookup.call⟩ text with
          | .ok v => return some v
          | .error cause =>
            Lookup.record (.notInterpolated name cause)
            return some raw

/-- The value of a variable, interpolated. -/
def lookup (scope : Scope) (name : String) : StateM Session (Option Value) := fun s =>
  let (v, after) := lookupWithin scope maxDepth [] name ⟨s, maxWork⟩
  (v, after.session)

/-- The context in which the texts and formulas of a scope are evaluated. -/
def Scope.context (scope : Scope) : Context Session where
  lookup := lookup scope
  call name arguments := Session.draw (callFunction name arguments)

/-- The value of a variable, or another one if there is none. -/
def lookupOr (scope : Scope) (name : String) (default : Value) : StateM Session Value := do
  return (← lookup scope name).getD default

end TrialLoop
