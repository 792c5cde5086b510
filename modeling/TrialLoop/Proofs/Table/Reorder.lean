import TrialLoop.Proofs.Table.Cells
import TrialLoop.Proofs.Table.Columns
import TrialLoop.Proofs.Table.Rectangular
import Mathlib.Data.Fintype.EquivFin
import Mathlib.Data.Nat.ModEq

namespace TrialLoop

/-- An order that names each of some rows once is a permutation of their places. -/
theorem exists_perm_of_order {order : Array Nat} {n : Nat}
    (h : order.toList.Perm (List.range n)) :
    ∃ σ : Equiv.Perm (Fin n), ∀ i : Fin n, order[i.val]? = some (σ i).val := by
  obtain rfl : n = order.size := by simpa using h.length_eq.symm
  have hlt : ∀ i : Fin order.size, order[i] < order.size := by
    intro i
    exact List.mem_range.mp (h.subset (Array.getElem_mem_toList i.isLt))
  have hinj : Function.Injective
      fun i : Fin order.size => (⟨order[i], hlt i⟩ : Fin order.size) := by
    intro i j hij
    have hnodup : order.toList.Nodup := h.nodup_iff.mpr List.nodup_range
    exact Fin.ext (hnodup.getElem_inj_iff.mp (congrArg Fin.val hij))
  exact ⟨.ofBijective _ hinj.bijective_of_finite, fun i => Array.getElem?_eq_getElem i.isLt⟩

namespace Table

/-- A name lists the first column that has it, and no name at all lists every column. -/
def Listed (t : Table) (columns : List String) (place : Nat) : Prop :=
  columns = [] ∨ ∃ c ∈ columns, t.columnIndex c = .ok place

/-- The rows of a table in another order, in the listed columns only. -/
structure Moved (t u : Table) (columns : List String) (σ : Equiv.Perm (Fin t.size)) : Prop where
  columns_eq : u.columns = t.columns
  size_eq : u.size = t.size
  listed : ∀ (i : Fin t.size) (place : Nat), t.Listed columns place →
    u.cellAt? i place = t.cellAt? (σ i) place
  others : ∀ (i : Fin t.size) (place : Nat), ¬ t.Listed columns place →
    u.cellAt? i place = t.cellAt? i place

/-- The places of columns that are there are those that the names list. -/
theorem exists_columnSet {t : Table} {columns : List String} (h : ∀ c ∈ columns, c ∈ t.columns) :
    ∃ places, columns.mapM t.columnIndex = .ok places ∧
      ∀ place, place ∈ places ↔ ∃ c ∈ columns, t.columnIndex c = .ok place := by
  refine ⟨_, mapM_columnIndex_of_mem h, fun place => ?_⟩
  rw [List.mem_map]
  refine exists_congr fun c => and_congr_right fun hc => ?_
  rw [columnIndex_of_mem (h c hc), Except.ok.injEq]

/-- Cells that are put into a row are there in the end, as they all come from one other row. -/
theorem getElem?_foldl_setIfInBounds {row source : Array Cell} (h : source.size = row.size)
    (places : List Nat) (place : Nat) :
    (places.foldl (fun r c => r.setIfInBounds c (source.getD c .unset)) row)[place]? =
      if place ∈ places then source[place]? else row[place]? := by
  induction places generalizing row with
  | nil => simp
  | cons c places ih =>
    rw [List.foldl_cons, ih (by simpa using h), Array.getElem?_setIfInBounds]
    by_cases hlater : place ∈ places
    · rw [if_pos hlater, if_pos (List.mem_cons_of_mem c hlater)]
    · by_cases hc : place = c
      · subst hc
        rw [if_neg hlater, if_pos rfl, if_pos List.mem_cons_self, ← h]
        split
        next hp => simp [hp]
        next hp => simp [hp]
      · rw [if_neg hlater, if_neg (Ne.symm hc), if_neg (by simp [hc, hlater])]

theorem cellAt?_moveCells {t : Table} (ht : t.Rectangular) {order : Array Nat} {i row : Nat}
    (hi : i < t.size) (hrow : row < t.size) (ho : order[i]? = some row) (places : List Nat)
    (place : Nat) :
    (t.moveCells places order).cellAt? i place =
      if place ∈ places then t.cellAt? row place else t.cellAt? i place := by
  have hold : t.rows[i]? = some t.rows[i] := Array.getElem?_eq_getElem hi
  have hsource : t.rows[row]? = some t.rows[row] := Array.getElem?_eq_getElem hrow
  have hsizes : t.rows[row].size = t.rows[i].size :=
    (ht _ (Array.getElem_mem hrow)).trans (ht _ (Array.getElem_mem hi)).symm
  have hmoved : (t.moveCells places order).rows[i]? = some (places.foldl (fun r c =>
      r.setIfInBounds c (t.rows[row].getD c .unset)) t.rows[i]) := by
    rw [moveCells, Array.getElem?_mapIdx, hold]
    simp [Array.getD_eq_getD_getElem?, ho, hsource]
  rw [cellAt?_of_row hmoved, cellAt?_of_row hold, cellAt?_of_row hsource,
    getElem?_foldl_setIfInBounds hsizes]

theorem reorder_moved {t : Table} (ht : t.Rectangular) {columns : List String}
    (hcolumns : ∀ c ∈ columns, c ∈ t.columns) {order : Array Nat} {σ : Equiv.Perm (Fin t.size)}
    (hsize : order.size = t.size) (hσ : ∀ i : Fin t.size, order[i.val]? = some (σ i).val) :
    ∃ u, t.reorder columns order = .ok u ∧ t.Moved u columns σ := by
  by_cases hc : columns = []
  · have hall : ∀ row ∈ order, row < t.size := by
      intro row hrow
      obtain ⟨i, hi, rfl⟩ := Array.mem_iff_getElem.mp hrow
      have hget := hσ ⟨i, hsize ▸ hi⟩
      rw [Array.getElem?_eq_getElem hi, Option.some.injEq] at hget
      rw [hget]
      exact (σ _).isLt
    refine ⟨t.pickRows order, by rw [reorder, if_pos hc], rfl, ?_, ?_, ?_⟩
    · exact (size_pickRows hall).trans hsize
    · exact fun i place _ => cellAt?_pickRows hall (hσ i) place
    · exact fun i place hnot => absurd (.inl hc) hnot
  · obtain ⟨places, hplaces, hmem⟩ := exists_columnSet hcolumns
    have hlisted (place : Nat) : t.Listed columns place ↔ place ∈ places := by
      rw [hmem, Listed, or_iff_right hc]
    refine ⟨t.moveCells places order, ?_, rfl, by simp [moveCells, size], ?_, ?_⟩
    · rw [reorder, if_neg hc, columnSet, if_neg hc, hplaces]
      rfl
    · intro i place hl
      rw [cellAt?_moveCells ht i.isLt (σ i).isLt (hσ i), if_pos ((hlisted place).mp hl)]
    · intro i place hl
      rw [cellAt?_moveCells ht i.isLt (σ i).isLt (hσ i), if_neg (mt (hlisted place).mpr hl)]

/-- Rows that are moved, as a whole or in part, leave each column with the cells it had. -/
theorem Moved.cellsOf_perm {t u : Table} {columns : List String} {σ : Equiv.Perm (Fin t.size)}
    (h : t.Moved u columns σ) (place : Nat) : (u.cellsOf place).Perm (t.cellsOf place) := by
  rw [cellsOf_eq h.size_eq, cellsOf_eq rfl]
  by_cases hl : t.Listed columns place
  · have hcells : (List.finRange t.size).filterMap (fun i => u.cellAt? i.val place) =
        ((List.finRange t.size).map σ).filterMap fun i => t.cellAt? i.val place := by
      rw [List.filterMap_map]
      exact List.filterMap_congr fun i _ => h.listed i place hl
    rw [hcells]
    exact σ.map_finRange_perm.filterMap _
  · have hcells : (List.finRange t.size).filterMap (fun i => u.cellAt? i.val place) =
        (List.finRange t.size).filterMap fun i => t.cellAt? i.val place :=
      List.filterMap_congr fun i _ => h.others i place hl
    rw [hcells]

end Table

/-- What can be done with the order of rows: chance decides, it is reversed, or they move down. -/
inductive Rearrangement where
  | shuffle (s : RandomStream)
  | reverse
  | roll (steps : Int64)

namespace Rearrangement

/-- The row that each row is replaced by, among some rows. -/
def order (r : Rearrangement) (n : Nat) : Array Nat :=
  match r with
  | shuffle s => (TrialLoop.shuffle (Array.range n) s).1
  | reverse => (Array.range n).reverse
  | roll steps => (Array.range n).map fun i => (i + n - (steps.toInt % n).toNat) % n

/-- The table with its rows rearranged, as a whole or in some columns only. -/
def apply (r : Rearrangement) (t : Table) (columns : List String) :
    Except ValidationError Table :=
  match r with
  | shuffle s => (t.shuffleRows columns s).1
  | reverse => t.reverse columns
  | roll steps => t.roll steps columns

theorem rolled_perm {n shift : Nat} (h : shift < n) :
    ((List.range n).map fun i => (i + n - shift) % n).Perm (List.range n) := by
  have hinj : ∀ i ∈ List.range n, ∀ j ∈ List.range n,
      (i + n - shift) % n = (j + n - shift) % n → i = j := by
    intro i hi j hj hij
    rw [Nat.add_sub_assoc h.le, Nat.add_sub_assoc h.le] at hij
    exact (Nat.ModEq.add_right_cancel' (n - shift) hij).eq_of_lt_of_lt (List.mem_range.mp hi)
      (List.mem_range.mp hj)
  have hnodup := List.Nodup.map_on hinj List.nodup_range
  refine (List.subperm_of_subset hnodup ?_).perm_of_length_le (by simp)
  intro i hi
  obtain ⟨j, -, rfl⟩ := List.mem_map.mp hi
  exact List.mem_range.mpr (Nat.mod_lt _ (by omega))

theorem order_perm (r : Rearrangement) (n : Nat) : (r.order n).toList.Perm (List.range n) := by
  cases r with
  | shuffle s => simpa [order] using (shuffle_perm (Array.range n) s).toList
  | reverse => simp [order, List.reverse_perm]
  | roll steps =>
    rcases n.eq_zero_or_pos with rfl | hn
    · simp [order]
    · have hshift : (steps.toInt % n).toNat < n := by
        have hlt := Int.emod_lt_of_pos steps.toInt (Int.natCast_pos.mpr hn)
        omega
      simpa [order] using rolled_perm hshift

theorem size_order (r : Rearrangement) (n : Nat) : (r.order n).size = n := by
  simpa using (r.order_perm n).length_eq

theorem apply_moved (r : Rearrangement) {t : Table} (ht : t.Rectangular) {columns : List String}
    (hcolumns : ∀ c ∈ columns, c ∈ t.columns) {σ : Equiv.Perm (Fin t.size)}
    (hσ : ∀ i : Fin t.size, (r.order t.size)[i.val]? = some (σ i).val) :
    ∃ u, r.apply t columns = .ok u ∧ t.Moved u columns σ := by
  have hmoved := Table.reorder_moved ht hcolumns (r.size_order t.size) hσ
  cases r with
  | shuffle s => exact hmoved
  | reverse => exact hmoved
  | roll steps =>
    by_cases hn : t.size = 0
    · have hnone : Fin t.size → False := fun i => absurd i.isLt (by omega)
      exact ⟨t, by rw [apply, Table.roll, if_pos hn], rfl, rfl, fun i => (hnone i).elim,
        fun i => (hnone i).elim⟩
    · rw [apply, Table.roll, if_neg hn]
      exact hmoved

theorem apply_keeps (r : Rearrangement) {t u : Table} {columns : List String}
    (h : r.apply t columns = .ok u) : t.Keeps u := by
  cases r with
  | shuffle s => exact Table.shuffleRows_keeps h
  | reverse => exact Table.reverse_keeps h
  | roll steps => exact Table.roll_keeps h

/--
Each way to rearrange some rows is one permutation of their places, whatever the table holds and
whichever columns are named: the listed columns are permuted by it, or all if none is named, and
the others stay. So no cell of a column is lost, and cells of one row that are moved stay together.
-/
theorem rearranged_by_one_permutation (r : Rearrangement) (n : Nat) :
    ∃ σ : Equiv.Perm (Fin n), ∀ (t : Table) (columns : List String),
      t.Rectangular → t.size = n → (∀ c ∈ columns, c ∈ t.columns) →
      ∃ u, r.apply t columns = .ok u ∧ u.columns = t.columns ∧ u.size = n ∧ u.Rectangular ∧
        (∀ (i : Fin n) (place : Nat), t.Listed columns place →
          u.cellAt? i place = t.cellAt? (σ i) place) ∧
        (∀ (i : Fin n) (place : Nat), ¬ t.Listed columns place →
          u.cellAt? i place = t.cellAt? i place) ∧
        ∀ place, (u.cellsOf place).Perm (t.cellsOf place) := by
  obtain ⟨σ, hσ⟩ := exists_perm_of_order (r.order_perm n)
  refine ⟨σ, ?_⟩
  rintro t columns ht rfl hcolumns
  obtain ⟨u, hu, hmoved⟩ := r.apply_moved ht hcolumns hσ
  exact ⟨u, hu, hmoved.columns_eq, hmoved.size_eq, (r.apply_keeps hu).rectangular ht, hmoved.listed,
    hmoved.others, hmoved.cellsOf_perm⟩

/-- The least shift of all moves a column that is named twice one row down. -/
theorem rearranged_by_one_permutation_leastShift :
    ∃ (σ : Equiv.Perm (Fin 3)) (t u : Table), t.Rectangular ∧ t.size = 3 ∧
      (∀ c ∈ ["w", "w"], c ∈ t.columns) ∧
      (roll Int64.minValue).apply t ["w", "w"] = .ok u ∧
      (u.cellsOf 1).map Cell.text = ["c", "a", "b"] ∧
      (∀ i : Fin 3, u.cellAt? i 1 = t.cellAt? (σ i) 1) ∧
      (∀ i : Fin 3, u.cellAt? i 0 = t.cellAt? i 0) := by
  let t : Table := ⟨["n", "w"], #[#[.literal (.int 1), .literal (.str "a")],
    #[.literal (.int 2), .literal (.str "b")], #[.literal (.int 3), .literal (.str "c")]]⟩
  have hrect : t.Rectangular := by simp [Table.Rectangular, t]
  have hcolumns : ∀ c ∈ ["w", "w"], c ∈ t.columns := by decide
  obtain ⟨u, hu, hcells⟩ : ∃ u, (roll Int64.minValue).apply t ["w", "w"] = .ok u ∧
      (u.cellsOf 1).map Cell.text = ["c", "a", "b"] := ok_of_map (by decide +kernel)
  obtain ⟨σ, hσ⟩ := rearranged_by_one_permutation (roll Int64.minValue) 3
  obtain ⟨u', hu', -, -, -, hlisted, hothers, -⟩ := hσ t ["w", "w"] hrect rfl hcolumns
  obtain rfl := Except.ok.inj (hu.symm.trans hu')
  have hindex : t.columnIndex "w" = .ok 1 := rfl
  refine ⟨σ, t, u, hrect, rfl, hcolumns, hu, hcells, fun i => ?_, fun i => ?_⟩
  · exact hlisted i 1 (.inr ⟨"w", List.mem_cons_self, hindex⟩)
  · refine hothers i 0 ?_
    simp [Table.Listed, hindex]

end Rearrangement

end TrialLoop
