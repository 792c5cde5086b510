import TrialLoop.Table.Reorder
import Mathlib.Data.List.Nodup

namespace TrialLoop

namespace Table

variable {t : Table} {columns : List String} {c : String}

theorem findIdx?_of_mem (h : c ∈ t.columns) :
    t.columns.findIdx? (· == c) = some (t.columns.idxOf c) :=
  List.findIdx?_eq_some_of_exists ⟨c, h, beq_self_eq_true c⟩

theorem findIdx?_of_unknown (h : c ∉ t.columns) : t.columns.findIdx? (· == c) = none := by
  rw [List.findIdx?_eq_none_iff]
  exact fun d hd => beq_false_of_ne fun he => h (he ▸ hd)

theorem columnIndex_of_mem (h : c ∈ t.columns) : t.columnIndex c = .ok (t.columns.idxOf c) := by
  rw [columnIndex, findIdx?_of_mem h]

theorem columnIndex_of_unknown (h : c ∉ t.columns) :
    t.columnIndex c = .error (.unknownColumn c) := by
  rw [columnIndex, findIdx?_of_unknown h]

theorem columnIndex_lt {place : Nat} (h : t.columnIndex c = .ok place) :
    place < t.columns.length := by
  by_cases hc : c ∈ t.columns
  · rw [columnIndex_of_mem hc, Except.ok.injEq] at h
    exact h ▸ List.idxOf_lt_length_iff.mpr hc
  · rw [columnIndex_of_unknown hc] at h
    cases h

theorem mapM_columnIndex_of_mem (h : ∀ c ∈ columns, c ∈ t.columns) :
    columns.mapM t.columnIndex = .ok (columns.map t.columns.idxOf) := by
  induction columns with
  | nil => rfl
  | cons c columns ih =>
    obtain ⟨hc, hrest⟩ := List.forall_mem_cons.mp h
    rw [List.mapM_cons, columnIndex_of_mem hc, ih hrest]
    rfl

/-- The first of some names that is no column. -/
def unknown? (t : Table) (columns : List String) : Option String :=
  columns.find? (!t.columns.contains ·)

theorem exists_unknown (h : ∃ c ∈ columns, c ∉ t.columns) : ∃ c, t.unknown? columns = some c := by
  obtain ⟨c, hc, hnot⟩ := h
  exact Option.isSome_iff_exists.mp (List.find?_isSome.mpr ⟨c, hc, by simpa using hnot⟩)

/-- The names are looked up from left to right, so that the first unknown one is reported. -/
theorem mapM_columnIndex_of_unknown (h : t.unknown? columns = some c) :
    columns.mapM t.columnIndex = .error (.unknownColumn c) := by
  induction columns with
  | nil => cases h
  | cons d columns ih =>
    rw [unknown?, List.find?_cons] at h
    rw [List.mapM_cons]
    by_cases hd : d ∈ t.columns
    · have hrest : t.unknown? columns = some c := by simpa [unknown?, hd] using h
      rw [columnIndex_of_mem hd, ih hrest]
      rfl
    · obtain rfl : d = c := by simpa [hd] using h
      rw [columnIndex_of_unknown hd]
      rfl

theorem columnSet_of_unknown (h : t.unknown? columns = some c) :
    t.columnSet columns = .error (.unknownColumn c) := by
  have hne : columns ≠ [] := by
    rintro rfl
    cases h
  rw [columnSet, if_neg hne, mapM_columnIndex_of_unknown h]

/-- The places of some columns, or of all if none is named. -/
def listedPlaces (t : Table) (columns : List String) : List Nat :=
  if columns = [] then List.range t.columns.length else columns.map t.columns.idxOf

theorem columnSet_of_mem (h : ∀ c ∈ columns, c ∈ t.columns) :
    t.columnSet columns = .ok (t.listedPlaces columns) := by
  unfold columnSet listedPlaces
  split
  next => rfl
  next => exact mapM_columnIndex_of_mem h

theorem listedPlaces_lt (h : ∀ c ∈ columns, c ∈ t.columns) :
    ∀ place ∈ t.listedPlaces columns, place < t.columns.length := by
  unfold listedPlaces
  split
  next => exact fun place => List.mem_range.mp
  next =>
    rw [List.forall_mem_map]
    exact fun c hc => List.idxOf_lt_length_iff.mpr (h c hc)

/-- Different names list different places. -/
theorem listedPlaces_distinct_iff (h : ∀ c ∈ columns, c ∈ t.columns) :
    ((t.listedPlaces columns).Nodup ∨
      ∀ p ∈ t.listedPlaces columns, ∀ q ∈ t.listedPlaces columns, p = q) ↔
      columns.Nodup ∨ ∀ c ∈ columns, ∀ d ∈ columns, c = d := by
  unfold listedPlaces
  split
  next hnone =>
    subst hnone
    exact iff_of_true (.inl List.nodup_range) (.inl List.nodup_nil)
  next =>
    have hinj : ∀ c ∈ columns, ∀ d ∈ columns, t.columns.idxOf c = t.columns.idxOf d → c = d :=
      fun c hc d _ => (List.idxOf_inj (h c hc)).mp
    simp only [List.forall_mem_map]
    refine or_congr ⟨List.Nodup.of_map _, List.Nodup.map_on hinj⟩ ⟨?_, ?_⟩
    · exact fun hsame c hc d hd => hinj c hc d hd (hsame c hc d hd)
    · exact fun hsame c hc d hd => congrArg (List.idxOf · t.columns) (hsame c hc d hd)

end Table

end TrialLoop
