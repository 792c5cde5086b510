import TrialLoop.Proofs.Table.Rectangular
import Mathlib.Data.List.Duplicate

namespace TrialLoop

/-- A row with cells put at some places, one after the other. -/
def putCells (row : Array Cell) (cells : List (Nat × Cell)) : Array Cell :=
  cells.foldl (fun r (place, cell) => r.setIfInBounds place cell) row

/-- The cells of a row at some places. -/
def gathered (places : List Nat) (row : Array Cell) : List Cell :=
  places.map (row.getD · .unset)

theorem putCells_cons (row : Array Cell) (place : Nat) (cell : Cell) (cells : List (Nat × Cell)) :
    putCells row ((place, cell) :: cells) = putCells (row.setIfInBounds place cell) cells := rfl

theorem putCells_append (row : Array Cell) (first second : List (Nat × Cell)) :
    putCells row (first ++ second) = putCells (putCells row first) second :=
  List.foldl_append

theorem size_putCells (row : Array Cell) (cells : List (Nat × Cell)) :
    (putCells row cells).size = row.size :=
  Table.size_foldl_setIfInBounds _ _ cells row

theorem getElem?_putCells_of_not_mem {place : Nat} {cells : List (Nat × Cell)}
    (h : place ∉ cells.map Prod.fst) (row : Array Cell) :
    (putCells row cells)[place]? = row[place]? := by
  induction cells generalizing row with
  | nil => rfl
  | cons entry cells ih =>
    rw [List.map_cons, List.mem_cons, not_or] at h
    rw [putCells_cons, ih h.2, Array.getElem?_setIfInBounds_ne (Ne.symm h.1)]

/-- A place has the one cell that is put there, however often it is. -/
theorem getElem?_putCells {row : Array Cell} {place : Nat} (hplace : place < row.size) {cell : Cell}
    {cells : List (Nat × Cell)} (hcells : ∀ entry ∈ cells, entry.1 = place → entry.2 = cell)
    (h : place ∈ cells.map Prod.fst ∨ row[place]? = some cell) :
    (putCells row cells)[place]? = some cell := by
  induction cells generalizing row with
  | nil => exact h.resolve_left List.not_mem_nil
  | cons entry cells ih =>
    obtain ⟨other, new⟩ := entry
    obtain ⟨hnew, hrest⟩ := List.forall_mem_cons.mp hcells
    rw [putCells_cons]
    refine ih (by simpa using hplace) hrest ?_
    by_cases hp : other = place
    · subst hp
      rw [Array.getElem?_setIfInBounds_self_of_lt hplace]
      exact .inr (congrArg some (hnew rfl))
    · rw [Array.getElem?_setIfInBounds_ne hp]
      exact h.imp_left fun hmem => (List.mem_cons.mp hmem).resolve_left (Ne.symm hp)

theorem getElem?_getD {row : Array Cell} {place : Nat} (h : place < row.size) :
    row[place]? = some (row.getD place .unset) := by
  simp [Array.getD_eq_getD_getElem?, h]

/-- The cells of a row and one that is put into it are those of the new row and the one before. -/
theorem setIfInBounds_perm {row : Array Cell} {place : Nat} (h : place < row.size) (cell : Cell) :
    (row.getD place .unset :: (row.setIfInBounds place cell).toList).Perm
      (cell :: row.toList) := by
  have hplace : place < row.toList.length := h
  have hold : row.getD place .unset = row.toList[place] := by
    simp [Array.getD_eq_getD_getElem?, h]
  rw [Array.toList_setIfInBounds, hold]
  exact ((List.set_perm_cons_eraseIdx hplace cell).cons _).trans
    ((List.Perm.swap _ _ _).trans ((List.getElem_cons_eraseIdx_perm hplace).cons _))

/-- Cells that are put at different places change places with those that were there. -/
theorem putCells_exchange {row : Array Cell} {places : List Nat} {cells : List Cell}
    (hlength : cells.length = places.length) (hnodup : places.Nodup)
    (hplaces : ∀ place ∈ places, place < row.size) :
    (gathered places row ++ (putCells row (places.zip cells)).toList).Perm
      (cells ++ row.toList) := by
  induction places generalizing row cells with
  | nil =>
    obtain rfl := List.eq_nil_of_length_eq_zero hlength
    exact .refl _
  | cons place places ih =>
    obtain ⟨cell, cells, rfl⟩ := List.exists_cons_of_length_eq_add_one hlength
    obtain ⟨hplace, hrest⟩ := List.forall_mem_cons.mp hplaces
    obtain ⟨hnot, hnodup⟩ := List.nodup_cons.mp hnodup
    have hsame : gathered places (row.setIfInBounds place cell) = gathered places row := by
      refine List.map_congr_left fun other hother => ?_
      have hne : place ≠ other := fun he => hnot (he ▸ hother)
      rw [Array.getD_eq_getD_getElem?, Array.getElem?_setIfInBounds_ne hne,
        ← Array.getD_eq_getD_getElem?]
    have hlater := @ih (row.setIfInBounds place cell) cells (Nat.succ.inj hlength) hnodup
      (by simpa using hrest)
    rw [hsame] at hlater
    rw [List.zip_cons_cons, putCells_cons, gathered, List.map_cons, List.cons_append]
    refine (hlater.cons _).trans ?_
    refine List.perm_middle.symm.trans ?_
    exact ((setIfInBounds_perm hplace cell).append_left cells).trans List.perm_middle

/-- At different places, cells in another order leave the row with the cells that it had. -/
theorem putCells_perm_of_nodup {row : Array Cell} {places : List Nat} {cells : List Cell}
    (hcells : cells.Perm (gathered places row)) (hnodup : places.Nodup)
    (hplaces : ∀ place ∈ places, place < row.size) :
    (putCells row (places.zip cells)).Perm row := by
  have hexchange := putCells_exchange (by simpa [gathered] using hcells.length_eq) hnodup hplaces
  exact Array.perm_iff_toList_perm.mpr
    ((List.perm_append_left_iff _).mp (hexchange.trans (hcells.append_right _)))

/-- Cells that are put where they are leave the row as it is. -/
theorem putCells_eq_self {row : Array Cell} {cells : List (Nat × Cell)}
    (h : ∀ entry ∈ cells, row[entry.1]? = some entry.2) : putCells row cells = row := by
  refine Array.ext (size_putCells row cells) fun place _ hplace => ?_
  refine Option.some.inj ?_
  rw [← Array.getElem?_eq_getElem, ← Array.getElem?_eq_getElem hplace]
  refine (getElem?_putCells hplace ?_ (.inr (Array.getElem?_eq_getElem hplace))).trans
    (Array.getElem?_eq_getElem hplace).symm
  rintro ⟨_, cell⟩ hmem rfl
  have hcell := h _ hmem
  rw [Array.getElem?_eq_getElem hplace] at hcell
  exact (Option.some.inj hcell).symm

/-- Some places with the cells of a row that are there. -/
def ownCells (row : Array Cell) (places : List Nat) : List (Nat × Cell) :=
  places.map fun place => (place, row.getD place .unset)

theorem fst_ownCells (row : Array Cell) (places : List Nat) :
    (ownCells row places).map Prod.fst = places := by
  rw [ownCells, List.map_map]
  exact List.map_id places

theorem snd_ownCells (row : Array Cell) (places : List Nat) :
    (ownCells row places).map Prod.snd = gathered places row := by
  rw [ownCells, List.map_map]
  rfl

theorem own_of_mem {row : Array Cell} {places : List Nat} {entry : Nat × Cell}
    (h : entry ∈ ownCells row places) : entry.2 = row.getD entry.1 .unset := by
  obtain ⟨place, -, rfl⟩ := List.mem_map.mp h
  rfl

theorem exchange_perm {α : Type} (x y : α) (l m : List α) :
    (x :: (l ++ y :: m)).Perm (y :: (l ++ x :: m)) := by
  have hfront (x y : α) : (x :: (l ++ y :: m)).Perm (x :: y :: (l ++ m)) :=
    List.perm_middle.cons x
  exact (hfront x y).trans ((List.Perm.swap y x _).trans (hfront y x).symm)

theorem exists_last {α : Type} {a : α} {l : List α} (h : a ∈ l) :
    ∃ first second, l = first ++ a :: second ∧ a ∉ second := by
  obtain ⟨before, behind, hl, hnot⟩ := List.eq_append_cons_of_mem (List.mem_reverse.mpr h)
  refine ⟨behind.reverse, before.reverse, ?_, by simpa using hnot⟩
  rw [← List.reverse_reverse l, hl]
  simp

/-- Some places with the cells that are there, but for two places that have each other's cell. -/
def exchangedCells (row : Array Cell) (front : List Nat) (p : Nat) (middle : List Nat) (q : Nat)
    (back : List Nat) : List (Nat × Cell) :=
  ownCells row front ++ (p, row.getD q .unset) ::
    (ownCells row middle ++ (q, row.getD p .unset) :: ownCells row back)

/-- The last cell for one place is that of another, which gets its own cell back later. -/
structure Doubles (row : Array Cell) (twice lost : Nat) (cells : List (Nat × Cell)) : Prop where
  lost_last : ∃ first second, cells = first ++ (lost, row.getD twice .unset) :: second ∧
    lost ∉ second.map Prod.fst
  twice_again : ∃ first cell second, cells = first ++ (twice, cell) :: second ∧
    twice ∈ second.map Prod.fst ∧
      ∀ entry ∈ second, entry.1 = twice → entry.2 = row.getD twice .unset
  own : ∀ entry ∈ cells, entry.1 ≠ twice → entry.1 ≠ lost → entry.2 = row.getD entry.1 .unset

theorem Doubles.putCells_eq {row : Array Cell} {twice lost : Nat} {cells : List (Nat × Cell)}
    (h : Doubles row twice lost cells) :
    putCells row cells = row.setIfInBounds lost (row.getD twice .unset) := by
  refine Array.ext_getElem? fun place => ?_
  by_cases hplace : place < row.size
  · by_cases hlost : place = lost
    · subst hlost
      obtain ⟨first, second, rfl, hlast⟩ := h.lost_last
      rw [Array.getElem?_setIfInBounds_self_of_lt hplace, putCells_append, putCells_cons,
        getElem?_putCells_of_not_mem hlast,
        Array.getElem?_setIfInBounds_self_of_lt (by rwa [size_putCells])]
    · rw [Array.getElem?_setIfInBounds_ne (Ne.symm hlost), getElem?_getD hplace]
      by_cases htwice : place = twice
      · subst htwice
        obtain ⟨first, cell, second, rfl, hagain, hown⟩ := h.twice_again
        rw [putCells_append, putCells_cons]
        exact getElem?_putCells (by simpa [size_putCells] using hplace) hown (.inl hagain)
      · refine getElem?_putCells hplace ?_ (.inr (getElem?_getD hplace))
        rintro ⟨_, cell⟩ hmem rfl
        exact h.own _ hmem htwice hlost
  · simp [hplace, size_putCells]

section Exchanging

variable {row : Array Cell} {front middle back : List Nat} {p q twice lost : Nat}

theorem fst_exchangedCells :
    (exchangedCells row front p middle q back).map Prod.fst =
      front ++ p :: (middle ++ q :: back) := by
  simp [exchangedCells, fst_ownCells]

theorem snd_exchangedCells_perm :
    ((exchangedCells row front p middle q back).map Prod.snd).Perm
      (gathered (front ++ p :: (middle ++ q :: back)) row) := by
  simp only [exchangedCells, List.map_append, List.map_cons, snd_ownCells, gathered]
  exact (exchange_perm _ _ _ _).append_left _

theorem own_of_mem_exchangedCells {entry : Nat × Cell}
    (h : entry ∈ exchangedCells row front p middle q back) (hp : entry.1 ≠ p) (hq : entry.1 ≠ q) :
    entry.2 = row.getD entry.1 .unset := by
  simp only [exchangedCells, List.mem_append, List.mem_cons] at h
  rcases h with h | rfl | h | rfl | h
  · exact own_of_mem h
  · exact absurd rfl hp
  · exact own_of_mem h
  · exact absurd rfl hq
  · exact own_of_mem h

/-- The place that is lost comes last, and the other one is named again on the way or behind. -/
theorem doubles_of_lost_behind (hlost : lost ∉ back) (hagain : twice ∈ middle ++ lost :: back) :
    Doubles row twice lost (exchangedCells row front twice middle lost back) where
  lost_last := ⟨ownCells row front ++ (twice, row.getD lost .unset) :: ownCells row middle,
    ownCells row back, by simp [exchangedCells], by rwa [fst_ownCells]⟩
  twice_again := by
    refine ⟨_, _, _, rfl, by simpa [fst_ownCells] using hagain, fun entry hentry he => ?_⟩
    rcases List.mem_append.mp hentry with h | h
    · rw [own_of_mem h, he]
    · rcases List.mem_cons.mp h with rfl | h
      · rfl
      · rw [own_of_mem h, he]
  own _ := own_of_mem_exchangedCells

/-- The place that is lost comes first, and the other one is named again behind the exchange. -/
theorem doubles_of_lost_before (hne : lost ≠ twice) (hmiddle : lost ∉ middle) (hback : lost ∉ back)
    (hagain : twice ∈ back) :
    Doubles row twice lost (exchangedCells row front lost middle twice back) where
  lost_last := ⟨ownCells row front, _, rfl, by simp [fst_ownCells, hmiddle, hne, hback]⟩
  twice_again := by
    refine ⟨ownCells row front ++ (lost, row.getD twice .unset) :: ownCells row middle,
      row.getD lost .unset, ownCells row back, by simp [exchangedCells], by rwa [fst_ownCells],
      fun entry hentry he => ?_⟩
    rw [own_of_mem hentry, he]
  own _ hentry htwice hlost := own_of_mem_exchangedCells hentry hlost htwice

end Exchanging

/--
If one place is named twice and another one is named too, some order of the cells doubles the cell
of the one and loses that of the other.
-/
theorem exists_doubling {places : List Nat} {twice lost : Nat} (htwice : places.Duplicate twice)
    (hlost : lost ∈ places) (hne : lost ≠ twice) (row : Array Cell) :
    ∃ cells : List Cell, cells.Perm (gathered places row) ∧
      putCells row (places.zip cells) = row.setIfInBounds lost (row.getD twice .unset) := by
  -- It is enough to exchange the cells of the first of the one place and the last of the other.
  obtain ⟨front, rest, rfl, hfront⟩ := List.eq_append_cons_of_mem htwice.mem
  have hagain : twice ∈ rest := by
    have hcount := List.duplicate_iff_two_le_count.mp htwice
    rw [List.count_append, List.count_eq_zero_of_not_mem hfront, List.count_cons_self] at hcount
    exact List.count_pos_iff.mp (by omega)
  by_cases hlater : lost ∈ rest
  · obtain ⟨middle, back, rfl, hback⟩ := exists_last hlater
    refine ⟨_, snd_exchangedCells_perm, ?_⟩
    rw [← List.zip_of_prod fst_exchangedCells rfl,
      (doubles_of_lost_behind hback hagain).putCells_eq]
  · have hbefore : lost ∈ front := by simpa [hlater, hne] using hlost
    obtain ⟨front, middle, rfl, hmiddle⟩ := exists_last hbefore
    rw [List.append_assoc, List.cons_append]
    refine ⟨_, snd_exchangedCells_perm, ?_⟩
    rw [← List.zip_of_prod fst_exchangedCells rfl,
      (doubles_of_lost_before hne hmiddle hlater hagain).putCells_eq]

theorem putCells_eq_self_of_same {row : Array Cell} {places : List Nat} {cells : List Cell}
    (hcells : cells.Perm (gathered places row)) (hsame : ∀ p ∈ places, ∀ q ∈ places, p = q)
    (hplaces : ∀ place ∈ places, place < row.size) :
    putCells row (places.zip cells) = row := by
  refine putCells_eq_self fun entry hentry => ?_
  obtain ⟨hplace, hcell⟩ := List.of_mem_zip hentry
  obtain ⟨place, hmem, hown⟩ := List.mem_map.mp (hcells.subset hcell)
  rw [← hown, hsame place hmem entry.1 hplace]
  exact getElem?_getD (hplaces _ hplace)

/--
Cells that are gathered and put back in some order always leave a row with the cells that it had
exactly if no place is named twice, or no two places are named.
-/
theorem putCells_perm_iff {places : List Nat} {width : Nat}
    (hplaces : ∀ place ∈ places, place < width) :
    (∀ row : Array Cell, row.size = width → ∀ cells : List Cell,
      cells.Perm (gathered places row) → (putCells row (places.zip cells)).Perm row) ↔
      places.Nodup ∨ ∀ p ∈ places, ∀ q ∈ places, p = q := by
  constructor
  · intro hkept
    by_contra hnot
    obtain ⟨hnodup, hdiffer⟩ := not_or.mp hnot
    obtain ⟨twice, htwice⟩ := List.exists_duplicate_iff_not_nodup.mpr hnodup
    obtain ⟨lost, hlost, hne⟩ : ∃ lost ∈ places, lost ≠ twice := by
      by_contra hall
      push Not at hall
      exact hdiffer fun p hp q hq => (hall p hp).trans (hall q hq).symm
    -- A cell that stands only where it is lost.
    let mark : Cell := .literal (.bool true)
    let row := (Array.replicate width Cell.unset).setIfInBounds lost mark
    obtain ⟨cells, hcells, hput⟩ := exists_doubling htwice hlost hne row
    have hperm := hkept row (by simp [row]) cells hcells
    have hother : row.getD twice .unset = .unset := by
      rw [Array.getD_eq_getD_getElem?, Array.getElem?_setIfInBounds_ne hne]
      by_cases hwide : twice < width <;> simp [hwide]
    have hwide : lost < (Array.replicate width Cell.unset).size := by simpa using hplaces _ hlost
    have hmark : mark ∈ row :=
      Array.mem_of_getElem? (Array.getElem?_setIfInBounds_self_of_lt hwide)
    rw [hput, hother, Array.setIfInBounds_setIfInBounds] at hperm
    obtain ⟨i, hi, hget⟩ := Array.mem_iff_getElem.mp (hperm.mem_iff.mpr hmark)
    rw [Array.getElem_setIfInBounds (by simpa using hi), Array.getElem_replicate, ite_self] at hget
    exact Bool.false_ne_true (congrArg Cell.isUnset hget).symm
  · rintro (hnodup | hsame) row rfl cells hcells
    · exact putCells_perm_of_nodup hcells hnodup hplaces
    · rw [putCells_eq_self_of_same hcells hsame hplaces]

end TrialLoop
