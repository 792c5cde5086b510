namespace TrialLoop

/-- Texts of files by name, each name at most once. -/
structure FilePool where
  files : List (String × String) := []
  nodup : (files.map (·.1)).Nodup := by simp

namespace FilePool

def empty : FilePool := {}

instance : Inhabited FilePool := ⟨empty⟩

/-- The text of a file. -/
def get? (p : FilePool) (name : String) : Option String :=
  (p.files.find? (·.1 == name)).map (·.2)

def contains (p : FilePool) (name : String) : Bool :=
  p.files.any (·.1 == name)

/-- With a file in place of any of its name. -/
def insert (p : FilePool) (name text : String) : FilePool where
  files := (name, text) :: p.files.filter (·.1 != name)
  nodup := by
    refine List.nodup_cons.mpr ⟨by simp, p.nodup.sublist (List.filter_sublist.map _)⟩

def size (p : FilePool) : Nat :=
  p.files.length

def isEmpty (p : FilePool) : Bool :=
  p.files.isEmpty

end FilePool

end TrialLoop
