import TrialLoop.Value.Basic

namespace TrialLoop

/-- Variables with their values, each at most once. -/
structure Bindings where
  entries : List (String × Value) := []
  nodup : (entries.map (·.1)).Nodup := by simp

namespace Bindings

def empty : Bindings := {}

instance : Inhabited Bindings := ⟨empty⟩

/-- The value of a variable. -/
def get? (b : Bindings) (name : String) : Option Value :=
  (b.entries.find? (·.1 == name)).map (·.2)

def has (b : Bindings) (name : String) : Bool :=
  b.entries.any (·.1 == name)

/-- Without a variable. -/
def erase (b : Bindings) (name : String) : Bindings where
  entries := b.entries.filter (·.1 != name)
  nodup := b.nodup.sublist (List.filter_sublist.map _)

theorem not_mem_erase (b : Bindings) (name : String) :
    name ∉ (b.erase name).entries.map (·.1) := by
  simp [erase]

/-- With a value for a variable, in place of any it had. -/
def set (b : Bindings) (name : String) (v : Value) : Bindings where
  entries := (name, v) :: (b.erase name).entries
  nodup := List.nodup_cons.mpr ⟨b.not_mem_erase name, (b.erase name).nodup⟩

theorem get?_erase (b : Bindings) (name other : String) :
    (b.erase name).get? other = if other = name then none else b.get? other := by
  simp only [get?, erase, List.find?_filter]
  split
  next h =>
    subst h
    have hnone : b.entries.find? (fun e => decide ((e.1 != other) = true ∧ (e.1 == other) = true)) =
        none := List.find?_eq_none.mpr (by simp)
    rw [hnone]
    rfl
  next h =>
    congr 2
    funext e
    by_cases he : e.1 = other
    · simp [he, h]
    · simp [he]

theorem get?_set (b : Bindings) (name other : String) (v : Value) :
    (b.set name v).get? other = if other = name then some v else b.get? other := by
  by_cases h : other = name
  · subst h
    simp [get?, set]
  · have herase := b.get?_erase name other
    rw [if_neg h] at herase ⊢
    rw [← herase]
    simp [get?, set, Ne.symm h]

/-- With the values of some variables, of which the last of one name counts. -/
def setAll (b : Bindings) (entries : List (String × Value)) : Bindings :=
  entries.foldl (fun b (name, v) => b.set name v) b

def size (b : Bindings) : Nat :=
  b.entries.length

/-- The names of the variables in order. -/
def names (b : Bindings) : List String :=
  (b.entries.map (·.1)).mergeSort fun a b => a ≤ b

end Bindings

/-- Bindings of which the first that has a variable decides its value. -/
abbrev Scope := List Bindings

/-- The value of a variable as it was set. -/
def Scope.raw? (scope : Scope) (name : String) : Option Value :=
  scope.findSome? (·.get? name)

end TrialLoop
