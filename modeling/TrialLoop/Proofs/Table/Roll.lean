import TrialLoop.Proofs.Table.Reorder

namespace TrialLoop

/-- The row that comes to a place when some rows are moved down by some steps. -/
def rolledFrom (n : Nat) (steps : Int) (i : Nat) : Nat :=
  ((i - steps) % n).toNat

theorem rolledFrom_lt {n : Nat} (hn : 0 < n) (steps : Int) (i : Nat) :
    rolledFrom n steps i < n := by
  have hlt := Int.emod_lt_of_pos (i - steps) (Int.natCast_pos.mpr hn)
  unfold rolledFrom
  omega

theorem rolledFrom_rolledFrom {n : Nat} (hn : 0 < n) (a b : Int) (i : Nat) :
    rolledFrom n a (rolledFrom n b i) = rolledFrom n (a + b) i := by
  have hpos := Int.emod_nonneg (i - b) (Int.natCast_ne_zero.mpr hn.ne')
  unfold rolledFrom
  rw [Int.toNat_of_nonneg hpos, Int.emod_sub_emod, Int.sub_sub, Int.add_comm b a]

/-- All steps through the rows bring each row back to its place. -/
theorem rolledFrom_of_dvd {n i : Nat} (hi : i < n) {steps : Int} (h : (n : Int) ∣ steps) :
    rolledFrom n steps i = i := by
  have hstay : (i - steps : Int) % n = i := by
    rw [Int.sub_emod, Int.emod_eq_zero_of_dvd h, Int.sub_zero, Int.emod_emod_of_dvd _ dvd_rfl]
    exact Int.emod_eq_of_lt (Int.natCast_nonneg i) (Int.ofNat_lt.mpr hi)
  rw [rolledFrom, hstay, Int.toNat_natCast]

theorem shift_bounds {n : Nat} (hn : 0 < n) (steps : Int) : 0 ≤ steps % n ∧ steps % n < n :=
  ⟨Int.emod_nonneg _ (Int.natCast_ne_zero.mpr hn.ne'),
    Int.emod_lt_of_pos _ (Int.natCast_pos.mpr hn)⟩

/-- With the steps reduced first, the place is found without a negative number on the way. -/
theorem rolledFrom_eq {n : Nat} (hn : 0 < n) (steps : Int) (i : Nat) :
    rolledFrom n steps i = (i + n - (steps % n).toNat) % n := by
  obtain ⟨hnonneg, hlt⟩ := shift_bounds hn steps
  have hcast : ((i + n - (steps % n).toNat : Nat) : Int) = i + n - steps % n := by omega
  apply Int.ofNat_inj.mp
  rw [rolledFrom, Int.toNat_of_nonneg (shift_bounds hn _).1, Int.natCast_emod, hcast,
    Int.sub_emod_emod, add_sub_right_comm, Int.add_emod_right]

namespace Table

/-- The rows of a table moved down by some steps, in the listed columns only. -/
structure Rolled (t u : Table) (columns : List String) (steps : Int) : Prop where
  columns_eq : u.columns = t.columns
  size_eq : u.size = t.size
  listed : ∀ i < t.size, ∀ place, t.Listed columns place →
    u.cellAt? i place = t.cellAt? (rolledFrom t.size steps i) place
  others : ∀ i < t.size, ∀ place, ¬ t.Listed columns place →
    u.cellAt? i place = t.cellAt? i place

theorem listed_congr {t u : Table} (h : u.columns = t.columns) (columns : List String)
    (place : Nat) : u.Listed columns place ↔ t.Listed columns place := by
  simp only [Listed, columnIndex, h]

theorem Rolled.trans {t u v : Table} {columns : List String} {a b : Int}
    (hu : t.Rolled u columns a) (hv : u.Rolled v columns b) : t.Rolled v columns (a + b) where
  columns_eq := hv.columns_eq.trans hu.columns_eq
  size_eq := hv.size_eq.trans hu.size_eq
  listed i hi place hl := by
    have hpos : 0 < t.size := Nat.zero_lt_of_lt hi
    rw [hv.listed i (hu.size_eq ▸ hi) place ((listed_congr hu.columns_eq _ _).mpr hl),
      hu.size_eq, hu.listed _ (rolledFrom_lt hpos b i) place hl, rolledFrom_rolledFrom hpos]
  others i hi place hl := by
    rw [hv.others i (hu.size_eq ▸ hi) place (mt (listed_congr hu.columns_eq _ _).mp hl),
      hu.others i hi place hl]

/-- There is only one way to move the rows down by a number of steps. -/
theorem Rolled.unique {t u v : Table} {columns : List String} {steps : Int}
    (hu : t.Rolled u columns steps) (hv : t.Rolled v columns steps) : u = v := by
  refine eq_of_cellAt? (hu.columns_eq.trans hv.columns_eq.symm)
    (hu.size_eq.trans hv.size_eq.symm) fun i hi place => ?_
  have hi : i < t.size := hv.size_eq ▸ hi
  by_cases hl : t.Listed columns place
  · rw [hu.listed i hi place hl, hv.listed i hi place hl]
  · rw [hu.others i hi place hl, hv.others i hi place hl]

theorem rolled_of_dvd (t : Table) (columns : List String) {steps : Int}
    (h : (t.size : Int) ∣ steps) : t.Rolled t columns steps where
  columns_eq := rfl
  size_eq := rfl
  listed i hi place _ := by rw [rolledFrom_of_dvd hi h]
  others _ _ _ _ := rfl

theorem roll_rolled {t : Table} (ht : t.Rectangular) {columns : List String}
    (hcolumns : ∀ c ∈ columns, c ∈ t.columns) (steps : Int64) :
    ∃ u, t.roll steps columns = .ok u ∧ t.Rolled u columns steps.toInt := by
  obtain ⟨σ, hσ⟩ := exists_perm_of_order ((Rearrangement.roll steps).order_perm t.size)
  obtain ⟨u, hu, hmoved⟩ := (Rearrangement.roll steps).apply_moved ht hcolumns hσ
  have hplace (i : Fin t.size) : (σ i).val = rolledFrom t.size steps.toInt i := by
    have hi := hσ i
    simp only [Rearrangement.order, Array.getElem?_map, Array.getElem?_range, i.isLt, if_true,
      Option.map_some, Option.some.injEq] at hi
    rw [rolledFrom_eq i.pos, ← hi]
  refine ⟨u, hu, hmoved.columns_eq, hmoved.size_eq, fun i hi place hl => ?_, fun i hi => ?_⟩
  · rw [hmoved.listed ⟨i, hi⟩ place hl, hplace]
  · exact hmoved.others ⟨i, hi⟩

theorem roll_roll {t : Table} (ht : t.Rectangular) {columns : List String}
    (hcolumns : ∀ c ∈ columns, c ∈ t.columns) {a b c : Int64} (hc : c.toInt = a.toInt + b.toInt) :
    (t.roll a columns >>= fun u => u.roll b columns) = t.roll c columns := by
  obtain ⟨u, hu, hfirst⟩ := roll_rolled ht hcolumns a
  have hcolumns' : ∀ c ∈ columns, c ∈ u.columns := hfirst.columns_eq ▸ hcolumns
  obtain ⟨v, hv, hsecond⟩ := roll_rolled ((roll_keeps hu).rectangular ht) hcolumns' b
  obtain ⟨w, hw, hboth⟩ := roll_rolled ht hcolumns c
  rw [hc] at hboth
  calc (t.roll a columns >>= fun u => u.roll b columns)
      = u.roll b columns := by rw [hu]; rfl
    _ = .ok v := hv
    _ = .ok w := congrArg Except.ok ((hfirst.trans hsecond).unique hboth)
    _ = t.roll c columns := hw.symm

theorem roll_of_dvd {t : Table} (ht : t.Rectangular) {columns : List String}
    (hcolumns : ∀ c ∈ columns, c ∈ t.columns) {steps : Int64}
    (h : (t.size : Int) ∣ steps.toInt) : t.roll steps columns = .ok t := by
  obtain ⟨u, hu, hrolled⟩ := roll_rolled ht hcolumns steps
  rw [hu, hrolled.unique (t.rolled_of_dvd columns h)]

/-- The place of each row is found in words of 64 bits: no number on the way leaves its range. -/
theorem order_roll_words {n : Nat} (hn : n < 2 ^ 63) (steps : Int64) {i : Nat} (hi : i < n) :
    (0 ≤ steps.toInt % n ∧ steps.toInt % n < n) ∧ i + n < 2 ^ 64 ∧
      (steps.toInt % n).toNat ≤ i + n ∧
      ((Rearrangement.roll steps).order n)[i]? = some (rolledFrom n steps.toInt i) ∧
      rolledFrom n steps.toInt i < n := by
  have hpos : 0 < n := Nat.zero_lt_of_lt hi
  have hshift := shift_bounds hpos steps.toInt
  refine ⟨hshift, by omega, by omega, ?_, rolledFrom_lt hpos _ i⟩
  rw [rolledFrom_eq hpos]
  simp [Rearrangement.order, hi]

/--
Moving rows down is an action of the integers: steps add up, all steps through the rows do
nothing, and so steps back undo steps. The places are found in words of 64 bits, in which no
number on the way leaves its range, whatever the steps are.
-/
theorem roll_acts {t : Table} (ht : t.Rectangular) {columns : List String}
    (hcolumns : ∀ c ∈ columns, c ∈ t.columns) :
    (∀ a : Int64, ∃ u, t.roll a columns = .ok u ∧ t.Rolled u columns a.toInt) ∧
    (∀ a b c : Int64, c.toInt = a.toInt + b.toInt →
      (t.roll a columns >>= fun u => u.roll b columns) = t.roll c columns) ∧
    (∀ (c : Int64) (k : Int), c.toInt = k * t.size → t.roll c columns = .ok t) ∧
    (∀ a b : Int64, b.toInt = -a.toInt →
      (t.roll a columns >>= fun u => u.roll b columns) = .ok t) ∧
    (t.size < 2 ^ 63 → ∀ (a : Int64) (i : Nat), i < t.size →
      (0 ≤ a.toInt % t.size ∧ a.toInt % t.size < t.size) ∧ i + t.size < 2 ^ 64 ∧
      (a.toInt % t.size).toNat ≤ i + t.size ∧
      ((Rearrangement.roll a).order t.size)[i]? = some (rolledFrom t.size a.toInt i) ∧
      rolledFrom t.size a.toInt i < t.size) := by
  refine ⟨roll_rolled ht hcolumns, fun a b c => roll_roll ht hcolumns, ?_, ?_,
    fun hn a i => order_roll_words hn a⟩
  · intro c k hc
    exact roll_of_dvd ht hcolumns (hc ▸ dvd_mul_left _ _)
  · intro a b hb
    have hzero : (0 : Int64).toInt = a.toInt + b.toInt := by rw [hb, add_neg_cancel]; rfl
    rw [roll_roll ht hcolumns hzero]
    exact roll_of_dvd ht hcolumns (dvd_zero _)

/-- The least and the greatest shift move three rows one step up, in a column named twice. -/
theorem roll_acts_extremes :
    ∃ t u : Table, t.Rectangular ∧ t.size = 3 ∧ (∀ c ∈ ["w", "w"], c ∈ t.columns) ∧
      (t.roll Int64.minValue ["w", "w"] >>= fun u => u.roll Int64.maxValue ["w", "w"]) = .ok u ∧
      t.roll (-1) ["w", "w"] = .ok u ∧ (u.cellsOf 1).map Cell.text = ["b", "c", "a"] ∧
      t.roll (-9223372036854775806) ["w", "w"] = .ok t := by
  let t : Table := ⟨["n", "w"], #[#[.literal (.int 1), .literal (.str "a")],
    #[.literal (.int 2), .literal (.str "b")], #[.literal (.int 3), .literal (.str "c")]]⟩
  have hrect : t.Rectangular := by simp [Rectangular, t]
  have hcolumns : ∀ c ∈ ["w", "w"], c ∈ t.columns := by decide
  obtain ⟨u, hu, hcells⟩ : ∃ u, t.roll (-1) ["w", "w"] = .ok u ∧
      (u.cellsOf 1).map Cell.text = ["b", "c", "a"] := ok_of_map (by decide +kernel)
  obtain ⟨-, hadd, hthrough, -⟩ := roll_acts hrect hcolumns
  refine ⟨t, u, hrect, rfl, hcolumns, ?_, hu, hcells, ?_⟩
  · exact (hadd Int64.minValue Int64.maxValue (-1) (by decide)).trans hu
  · exact hthrough (-9223372036854775806) (-3074457345618258602) (by decide +kernel)

end Table

end TrialLoop
