import TrialLoop.Proofs.Except
import TrialLoop.Proofs.Table.Cells
import TrialLoop.Table.Design
import Mathlib

namespace TrialLoop

namespace Table

variable {t : Table} {column : String} {place : Nat}

/-- The cell of a row at a place is a value that stands for a whole number, zero or above. -/
def HasWeight (place : Nat) (cells : Array Cell) (w : Int64) : Prop :=
  ∃ v, cells[place]? = some (.literal v) ∧ v.int? = some w ∧ 0 ≤ w.toInt

theorem HasWeight.nonneg {cells : Array Cell} {w : Int64} (h : HasWeight place cells w) :
    0 ≤ w.toInt := by
  obtain ⟨-, -, -, hpos⟩ := h
  exact hpos

/-- The weights of some rows, one for each of them. -/
abbrev Weighted (place : Nat) (rows : List (Array Cell)) (weights : List Int64) : Prop :=
  List.Forall₂ (HasWeight place) rows weights

/-- The exact total of some weights. -/
def totalWeight (weights : List Int64) : Int :=
  (weights.map Int64.toInt).sum

theorem totalWeight_cons (w : Int64) (weights : List Int64) :
    totalWeight (w :: weights) = w.toInt + totalWeight weights := by
  rw [totalWeight, List.map_cons, List.sum_cons, ← totalWeight]

theorem totalWeight_nonneg {weights : List Int64} (h : ∀ w ∈ weights, 0 ≤ w.toInt) :
    0 ≤ totalWeight weights := by
  induction weights with
  | nil => exact Int.le_refl 0
  | cons w weights ih =>
    obtain ⟨hw, hrest⟩ := List.forall_mem_cons.mp h
    have hmore := ih hrest
    rw [totalWeight_cons]
    omega

theorem Weighted.nonneg {rows : List (Array Cell)} {weights : List Int64}
    (h : Weighted place rows weights) : ∀ w ∈ weights, 0 ≤ w.toInt := by
  induction h with
  | nil => exact fun w hw => absurd hw List.not_mem_nil
  | cons hw _ ih => exact List.forall_mem_cons.mpr ⟨hw.nonneg, ih⟩

theorem weightOf_eq_ok_iff {cells : Array Cell} {row n : Nat} :
    weightOf place row cells = .ok n ↔ ∃ w, HasWeight place cells w ∧ w.toInt.toNat = n := by
  have hcell : ∀ v, cells.getD place .unset = .literal v → v.int?.isSome →
      cells[place]? = some (.literal v) := by
    intro v hv hint
    rw [Array.getD_eq_getD_getElem?] at hv
    cases hc : cells[place]? with
    | some c => rw [hc] at hv; exact congrArg some hv
    | none =>
      -- a cell that is missing counts as unset, which is no number
      rw [hc] at hv
      cases hv
      cases hint
  constructor
  · intro h
    unfold weightOf at h
    dsimp only at h
    split at h
    next w hw =>
      split at h
      next hpos =>
        split at hw
        next v hv =>
          exact ⟨w, ⟨v, hcell v hv (by rw [hw]; rfl), hw, hpos⟩, Except.ok.inj h⟩
        next => cases hw
      next => cases h
    next => cases h
  · rintro ⟨w, ⟨v, hv, hw, hpos⟩, rfl⟩
    have hget : cells.getD place .unset = .literal v := by
      rw [Array.getD_eq_getD_getElem?, hv]
      rfl
    simp only [weightOf, hget, hw, if_pos hpos]

/-- The weights are accepted one after the other exactly if their total is within the bound. -/
theorem weightsFrom_eq_ok_iff {rows : List (Array Cell)} {row total : Nat} {counts : List Nat}
    (ht : total ≤ maxRows) :
    weightsFrom place row total rows = .ok counts ↔
      ∃ weights, Weighted place rows weights ∧ total + totalWeight weights ≤ maxRows ∧
        counts = weights.map (·.toInt.toNat) := by
  induction rows generalizing row total counts with
  | nil =>
    constructor
    · intro h
      exact ⟨[], .nil, by simpa [totalWeight] using ht, (Except.ok.inj h).symm⟩
    · rintro ⟨weights, hw, -, rfl⟩
      cases hw
      rfl
  | cons cells rows ih =>
    constructor
    · intro h
      obtain ⟨n, hn, h⟩ := bind_eq_ok h
      obtain ⟨w, hw, rfl⟩ := weightOf_eq_ok_iff.mp hn
      split at h
      next hle =>
        obtain ⟨more, hmore, h⟩ := bind_eq_ok h
        obtain ⟨weights, hweights, hsum, rfl⟩ := (ih hle).mp hmore
        have hpos := hw.nonneg
        refine ⟨w :: weights, .cons hw hweights, ?_, (Except.ok.inj h).symm⟩
        rw [totalWeight_cons]
        omega
      next => cases h
    · rintro ⟨weights, hweights, hsum, rfl⟩
      obtain ⟨w, weights, hw, hrest, rfl⟩ := List.forall₂_cons_left_iff.mp hweights
      have hpos := hw.nonneg
      have hnonneg := totalWeight_nonneg (Weighted.nonneg hrest)
      rw [totalWeight_cons] at hsum
      have hle : total + w.toInt.toNat ≤ maxRows := by omega
      have hmore : weightsFrom place (row + 1) (total + w.toInt.toNat) rows =
          .ok (weights.map (·.toInt.toNat)) := (ih hle).mpr ⟨weights, hrest, by omega, rfl⟩
      rw [weightsFrom, weightOf_eq_ok_iff.mpr ⟨w, hw, rfl⟩]
      show (if total + w.toInt.toNat ≤ maxRows then _ else _) = _
      rw [if_pos hle, hmore]
      rfl

/-- Each row as often as its own weight says, in the order of the rows. -/
def repeatRows (t : Table) (weights : List Int64) : Table :=
  { t with rows := ((t.rows.toList.zip weights).flatMap fun (cells, w) =>
      List.replicate w.toInt.toNat cells).toArray }

/-- The places of rows, each as often as its weight says, pick these rows as often. -/
theorem filterMap_repeated (before rows : List (Array Cell)) (weights : List Int64)
    (h : rows.length = weights.length) :
    (((weights.map (·.toInt.toNat)).zipIdx before.length).flatMap fun (n, row) =>
        List.replicate n row).filterMap ((before ++ rows)[·]?) =
      (rows.zip weights).flatMap fun (cells, w) => List.replicate w.toInt.toNat cells := by
  induction rows generalizing before weights with
  | nil =>
    obtain rfl := List.length_eq_zero_iff.mp h.symm
    rfl
  | cons cells rows ih =>
    cases weights with
    | nil => cases h
    | cons w weights =>
      have hrest := ih (before ++ [cells]) weights (Nat.succ.inj h)
      have hhere : (before ++ cells :: rows)[before.length]? = some cells := by simp
      rw [List.append_assoc, List.singleton_append, List.length_append, List.length_singleton]
        at hrest
      rw [List.map_cons, List.zipIdx_cons, List.flatMap_cons, List.filterMap_append, hrest,
        List.filterMap_replicate, hhere, List.zip_cons_cons, List.flatMap_cons]

theorem pickRows_repeated {weights : List Int64} (h : Weighted place t.rows.toList weights) :
    t.pickRows ((weights.map (·.toInt.toNat)).zipIdx.flatMap fun (n, row) =>
      List.replicate n row).toArray = t.repeatRows weights := by
  have hrows := filterMap_repeated [] t.rows.toList weights h.length_eq
  simp only [List.nil_append, List.length_nil, Array.getElem?_toList] at hrows
  rw [pickRows, repeatRows, ← hrows, ← List.filterMap_toArray]

theorem weight_eq_ok_iff (h : t.columnIndex column = .ok place) {u : Table} :
    t.weight column = .ok u ↔
      ∃ weights, Weighted place t.rows.toList weights ∧ totalWeight weights ≤ maxRows ∧
        u = t.repeatRows weights := by
  have hcounts (counts : List Nat) : weightsFrom place 0 0 t.rows.toList = .ok counts ↔
      ∃ weights, Weighted place t.rows.toList weights ∧ totalWeight weights ≤ maxRows ∧
        counts = weights.map (·.toInt.toNat) := by
    rw [weightsFrom_eq_ok_iff (Nat.zero_le maxRows)]
    simp
  constructor
  · intro hu
    obtain ⟨i, hi, hu⟩ := bind_eq_ok hu
    obtain rfl := Except.ok.inj (h.symm.trans hi)
    obtain ⟨counts, hok, hu⟩ := bind_eq_ok hu
    obtain ⟨weights, hweights, hsum, rfl⟩ := (hcounts counts).mp hok
    refine ⟨weights, hweights, hsum, ?_⟩
    rw [← pickRows_repeated hweights]
    exact (Except.ok.inj hu).symm
  · rintro ⟨weights, hweights, hsum, rfl⟩
    have hok := (hcounts _).mpr ⟨weights, hweights, hsum, rfl⟩
    rw [weight, h, ← pickRows_repeated hweights]
    show (weightsFrom place 0 0 t.rows.toList >>= _) = _
    rw [hok]
    rfl

/-- Weights that are accepted are added up in words of 64 bits as they are among the integers. -/
theorem totalWeight_words {weights : List Int64} (h : ∀ w ∈ weights, 0 ≤ w.toInt)
    (hsum : totalWeight weights < 2 ^ 64) :
    ((weights.map Int64.toUInt64).sum.toNat : Int) = totalWeight weights := by
  induction weights with
  | nil => rfl
  | cons w weights ih =>
    obtain ⟨hw, hrest⟩ := List.forall_mem_cons.mp h
    have hword : (w.toUInt64.toNat : Int) = w.toInt := by
      have hcases := BitVec.toInt_eq_toNat_cond w.toBitVec
      have hbits : w.toBitVec.toInt = w.toInt := rfl
      have hnat : w.toBitVec.toNat = w.toUInt64.toNat := rfl
      have hlt := w.toUInt64.toNat_lt
      split at hcases <;> omega
    have hnonneg := totalWeight_nonneg hrest
    rw [totalWeight_cons] at hsum
    have hmore := ih hrest (by omega)
    rw [totalWeight_cons, List.map_cons, List.sum_cons, UInt64.toNat_add]
    omega

/--
Rows are repeated exactly if each has a weight and the total is within the bound, and then each
stands as often as its own weight says. A total in words of 64 bits is the exact one up to the row
with which it exceeds the bound, whatever the weight of that row is.
-/
theorem weight_repeats_rows (h : t.columnIndex column = .ok place) :
    (∀ u, t.weight column = .ok u ↔
      ∃ weights, Weighted place t.rows.toList weights ∧ totalWeight weights ≤ maxRows ∧
        u = t.repeatRows weights) ∧
    ∀ (k : Nat) (weights : List Int64) (w : Int64),
      Weighted place (t.rows.toList.take k) (weights ++ [w]) → totalWeight weights ≤ maxRows →
      (((weights ++ [w]).map Int64.toUInt64).sum.toNat : Int) = totalWeight (weights ++ [w]) := by
  refine ⟨fun u => weight_eq_ok_iff h, fun k weights w hweights hsum => ?_⟩
  have hlast : totalWeight (weights ++ [w]) = totalWeight weights + w.toInt := by
    simp [totalWeight]
  have hbound : (maxRows : Int) = 2 ^ 24 := rfl
  have hword := w.toInt_lt
  exact totalWeight_words (Weighted.nonneg hweights) (by omega)

/-- Weights as an integer, a truth value and texts, of which one is zero. -/
theorem weight_repeats_rows_views :
    ∃ t u : Table, t.columnIndex "w" = .ok 0 ∧ t.weight "w" = .ok u ∧
      (u.cellsOf 1).map Cell.text = ["a", "a", "c", "d", "d", "d"] ∧
      ∃ weights, Weighted 0 t.rows.toList weights ∧ totalWeight weights ≤ maxRows ∧
        u = t.repeatRows weights := by
  let t : Table := ⟨["w", "x"], #[#[.literal (.int 2), .literal (.str "a")],
    #[.literal (.str "0"), .literal (.str "b")], #[.literal (.bool true), .literal (.str "c")],
    #[.literal (.str "+3"), .literal (.str "d")]]⟩
  obtain ⟨u, hu, hcells⟩ : ∃ u, t.weight "w" = .ok u ∧
      (u.cellsOf 1).map Cell.text = ["a", "a", "c", "d", "d", "d"] := ok_of_map (by cbv)
  have hplace : t.columnIndex "w" = .ok 0 := rfl
  obtain ⟨hall, -⟩ := weight_repeats_rows hplace
  exact ⟨t, u, hplace, hu, hcells, (hall u).mp hu⟩

end Table

end TrialLoop
