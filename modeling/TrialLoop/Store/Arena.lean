import TrialLoop.Store.Bindings

namespace TrialLoop

/-- A store of variables, which may fall back on an older one. -/
structure Store where
  bindings : Bindings := .empty
  parent : Option Nat := none
  /-- How many handles keep the store alive; those that fall back on it do not. -/
  handles : Nat := 1

/-- All stores that there ever were, numbered by age. Those without a handle are gone. -/
structure Arena where
  stores : Array (Option Store) := #[]

namespace Arena

/-- A store that is alive. -/
def get? (a : Arena) (id : Nat) : Option Store :=
  a.stores[id]?.join

/-- With one more store, and its number. -/
def create (a : Arena) (parent : Option Nat) : Arena × Nat :=
  (⟨a.stores.push (some { parent := parent })⟩, a.stores.size)

/-- With a change of a store that is alive. -/
def modify (a : Arena) (id : Nat) (f : Store → Option Store) : Arena :=
  ⟨a.stores.modify id (· >>= f)⟩

/-- With one more handle on a store. -/
def retain (a : Arena) (id : Nat) : Arena :=
  a.modify id fun s => some { s with handles := s.handles + 1 }

/-- With one handle less on a store, which is gone with its last one. -/
def release (a : Arena) (id : Nat) : Arena :=
  a.modify id fun s => if s.handles ≤ 1 then none else some { s with handles := s.handles - 1 }

def set (a : Arena) (id : Nat) (name : String) (v : Value) : Arena :=
  a.modify id fun s => some { s with bindings := s.bindings.set name v }

def unset (a : Arena) (id : Nat) (name : String) : Arena :=
  a.modify id fun s => some { s with bindings := s.bindings.erase name }

/-- The bindings of a store, of the older store that it falls back on, and so on while they live. -/
def scope (a : Arena) (id : Nat) : Scope :=
  match a.get? id with
  | none => []
  | some s =>
    match s.parent with
    | none => [s.bindings]
    | some parent => s.bindings :: (if parent < id then a.scope parent else [])

/-- The bindings of a store itself. -/
def bindings (a : Arena) (id : Nat) : Bindings :=
  ((a.get? id).map (·.bindings)).getD .empty

end Arena

end TrialLoop
