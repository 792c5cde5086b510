import TrialLoop.Proofs.Except
import TrialLoop.Proofs.Loop.Turn
import Mathlib.Algebra.BigOperators.Group.List.Basic
import Mathlib.Data.Finset.Card
import Mathlib.Data.List.Rotate

namespace TrialLoop

namespace Loop

/-- Each of some places as often as all others, but for a part that is there once more. -/
structure Fair (places whole part : Nat) (order : List Nat) : Prop where
  lt : ∀ k ∈ order, k < places
  count : ∀ k < places, order.count k = whole ∨ order.count k = whole + 1
  onceMore : ((Finset.range places).filter fun k => order.count k = whole + 1).card = part

/-- Some rounds over all places. -/
def rounds (places whole : Nat) : List Nat :=
  (List.replicate whole (List.range places)).flatten

theorem map_mod_eq_rounds (places whole : Nat) :
    (List.range (whole * places)).map (· % places) = rounds places whole := by
  induction whole with
  | zero => simp [rounds]
  | succ whole ih =>
    have hround : (List.range places).map (· % places) = List.range places := by
      conv_rhs => rw [← List.map_id (List.range places)]
      exact List.map_congr_left fun k hk => Nat.mod_eq_of_lt (List.mem_range.mp hk)
    rw [Nat.succ_mul, Nat.add_comm, List.range_add, List.map_append, List.map_map, hround, rounds,
      List.replicate_succ, List.flatten_cons, ← rounds, ← ih]
    congr 1
    exact List.map_congr_left fun k _ => Nat.add_mod_left places k

theorem count_rounds {places k : Nat} (h : k < places) (whole : Nat) :
    (rounds places whole).count k = whole := by
  have hone : (List.range places).count k = 1 :=
    List.count_eq_one_of_mem List.nodup_range (List.mem_range.mpr h)
  rw [rounds, List.count_flatten, List.map_replicate, hone, List.sum_replicate]
  simp

/-- Rounds over all places and a choice of some are fair in any order. -/
theorem fair_of_perm {places whole : Nat} {chosen order : List Nat} (hn : chosen.Nodup)
    (hlt : ∀ k ∈ chosen, k < places) (hp : order.Perm (rounds places whole ++ chosen)) :
    Fair places whole chosen.length order := by
  have hcount : ∀ k < places, order.count k = whole + chosen.count k := by
    intro k hk
    rw [hp.count_eq, List.count_append, count_rounds hk]
  refine ⟨?_, ?_, ?_⟩
  · intro k hk
    rcases List.mem_append.mp (hp.subset hk) with hk | hk
    · obtain ⟨round, hround, hk⟩ := List.mem_flatten.mp hk
      rw [(List.mem_replicate.mp hround).2] at hk
      exact List.mem_range.mp hk
    · exact hlt k hk
  · intro k hk
    rw [hcount k hk, hn.count]
    split
    next => exact .inr rfl
    next => exact .inl rfl
  · have hchosen : (Finset.range places).filter (fun k => order.count k = whole + 1) =
        chosen.toFinset := by
      ext k
      rw [Finset.mem_filter, Finset.mem_range, List.mem_toFinset]
      constructor
      · rintro ⟨hk, hmore⟩
        rw [hcount k hk] at hmore
        exact List.count_pos_iff.mp (by omega)
      · intro hk
        have hone := List.count_eq_one_of_mem hn hk
        exact ⟨hlt k hk, by rw [hcount k (hlt k hk), hone]⟩
    rw [hchosen, List.toFinset_card_of_nodup hn]

/-- Rows are not repeated if there are none, and no more rows once more than there are. -/
theorem repeats_bounds {rows : Nat} {v : Value} {r : Repeats} (h : repeats rows v = .ok r) :
    (rows = 0 → r.whole = 0) ∧ r.part.getD 0 ≤ rows := by
  unfold repeats at h
  split at h
  next => cases h
  next x _ =>
    split at h
    next => cases h
    next =>
      obtain rfl := Except.ok.inj h
      have hpart : ∀ (more : Prop) [Decidable more] (n : Nat),
          (if more then some (min rows n) else none).getD 0 ≤ rows := by
        intro more _ n
        split
        next => exact Nat.min_le_left rows n
        next => exact Nat.zero_le rows
      exact ⟨fun hrows => if_pos hrows, hpart _ _⟩

/-- The cycles are put in order after some rows for the part have been chosen in an order too. -/
theorem cycleOrder_eq (rows : Nat) (r : Repeats) (random : Bool) (s : RandomStream) :
    ∃ (chosen : List Nat) (cycles : Array Nat) (s' : RandomStream),
      chosen.Perm (List.range rows) ∧ (random = false → chosen = List.range rows) ∧
      cycles.toList = rounds rows r.whole ++ chosen.take (r.part.getD 0) ∧
      cycleOrder rows r random s = shuffleIf random cycles s' := by
  have hwhole : ((Array.range (r.whole * rows)).map (· % rows)).toList = rounds rows r.whole := by
    rw [Array.toList_map, Array.toList_range, map_mod_eq_rounds]
  rcases hpart : r.part with _ | part
  · refine ⟨List.range rows, (Array.range (r.whole * rows)).map (· % rows), s, .refl _,
      fun _ => rfl, ?_, by simp only [cycleOrder, hpart]⟩
    rw [hwhole, Option.getD_none, List.take_zero, List.append_nil]
  · rcases hc : shuffleIf random (Array.range rows) s with ⟨chosen, s'⟩
    refine ⟨chosen.toList, (Array.range (r.whole * rows)).map (· % rows) ++ chosen.take part, s',
      ?_, ?_, ?_, by simp only [cycleOrder, hpart, bind, StateT.bind, hc]⟩
    · simpa [hc] using (shuffleIf_perm random (Array.range rows) s).toList
    · rintro rfl
      cases hc
      exact Array.toList_range
    · rw [Array.toList_append, hwhole, Option.getD_some]
      simp

theorem cycleOrder_fair {rows : Nat} {r : Repeats} (hr : r.part.getD 0 ≤ rows) (random : Bool)
    (s : RandomStream) :
    Fair rows r.whole (r.part.getD 0) (cycleOrder rows r random s).1.toList := by
  obtain ⟨chosen, cycles, s', hchosen, -, hcycles, horder⟩ := cycleOrder_eq rows r random s
  have hlength : (chosen.take (r.part.getD 0)).length = r.part.getD 0 := by
    rw [List.length_take, hchosen.length_eq, List.length_range, Nat.min_eq_left hr]
  have hnodup : (chosen.take (r.part.getD 0)).Nodup :=
    (hchosen.nodup_iff.mpr List.nodup_range).sublist (List.take_sublist _ _)
  have hlt : ∀ k ∈ chosen.take (r.part.getD 0), k < rows := fun k hk =>
    List.mem_range.mp (hchosen.subset (List.mem_of_mem_take hk))
  have hperm := (shuffleIf_perm random cycles s').toList
  rw [hcycles] at hperm
  have hfair := fair_of_perm hnodup hlt hperm
  rw [hlength] at hfair
  rw [horder]
  exact hfair

theorem cycleOrder_of_not_random {rows : Nat} {r : Repeats} (hr : r.part.getD 0 ≤ rows)
    (s : RandomStream) :
    (cycleOrder rows r false s).1.toList = rounds rows r.whole ++ List.range (r.part.getD 0) := by
  obtain ⟨chosen, cycles, s', -, hplain, hcycles, horder⟩ := cycleOrder_eq rows r false s
  rw [hplain rfl, List.take_range, Nat.min_eq_left hr] at hcycles
  rw [horder]
  exact hcycles

theorem queueFrom_zero (rows : Nat) (offset : Bool) :
    queueFrom rows 0 offset = List.range rows := by
  cases offset <;> simp [queueFrom, List.range_eq_range']

/-- A queue with an offset is a rotation of its rows, and one without is what the skip leaves. -/
theorem queueFrom_eq {rows skip : Nat} (h : skip ≤ rows) (offset : Bool) :
    queueFrom rows skip offset =
      if offset then (List.range rows).rotate skip else (List.range rows).drop skip := by
  have hdrop : List.range' skip (rows - skip) = (List.range rows).drop skip := by
    simp [List.range_eq_range', List.drop_range']
  cases offset with
  | false => exact hdrop
  | true =>
    rw [if_pos rfl, List.rotate_eq_drop_append_take (by simpa using h), ← hdrop, List.take_range,
      Nat.min_eq_left h]
    rfl

/-- What the operations of a loop make of its rows in an order. -/
def operate (l : Loop) (order : Array Nat) : StateM Workspace (Except LoopError Table) :=
  Workspace.within fun scope =>
    Operation.applyAll scope.context l.operations.toList (l.table.pickRows order)

theorem startQueue_of_setting {l : Loop} {rows : Nat} {w w' : Workspace} {skip : Value}
    (h : l.setting "skip" (.int 0) w = (skip, w')) :
    (l.startQueue rows w).1 = ((skipOf rows skip).mapError .validation).map fun k =>
      queueFrom rows k ((l.setting "offset" (.str "no") w').1.text == "yes") := by
  unfold startQueue
  simp only [bind, StateT.bind, h]
  rcases hs : skipOf rows skip with cause | _ | k
  · rfl
  · -- The offset is not read if nothing is skipped, and would make no difference.
    exact congrArg Except.ok (queueFrom_zero rows _).symm
  · rfl

theorem start_of_operate {l : Loop} {random : Bool} {w w₁ w₂ w₃ : Workspace} {v : Value}
    {r : Repeats} {order : Array Nat} {table : Table}
    (hv : l.setting "repeat" (.int 1) w = (v, w₁)) (hr : repeats l.table.size v = .ok r)
    (ho : Workspace.draw (cycleOrder l.table.size r random) w₁ = (order, w₂))
    (ht : l.operate order w₂ = (.ok table, w₃)) :
    (l.start random w).1 =
      (l.startQueue table.size w₃).1.map fun queue => ⟨table, queue, none⟩ := by
  unfold operate at ht
  unfold start
  simp only [bind, StateT.bind, hv, hr, ho, ht]
  rcases l.startQueue table.size w₃ with ⟨cause | queue, w₄⟩
  · rfl
  · rfl

theorem skipOf_eq_ok {rows k : Nat} {v : Value} (hv : v.int?.map Int64.toInt = some (k : Int))
    (hk : k ≤ rows) : skipOf rows v = .ok k := by
  obtain ⟨n, hn, hnk⟩ := Option.map_eq_some_iff.mp hv
  have hbounds : 0 ≤ n.toInt ∧ n.toInt ≤ rows := by omega
  simp only [skipOf, hn, if_pos hbounds]
  rw [hnk, Int.toNat_natCast]

theorem skipOf_eq_error {rows : Nat} {v : Value}
    (h : ¬ ∃ k : Nat, v.int?.map Int64.toInt = some (k : Int) ∧ k ≤ rows) :
    skipOf rows v = .error (.skipCount rows v.text) := by
  unfold skipOf
  split
  next n hn =>
    split
    next hb =>
      have hint : v.int?.map Int64.toInt = some (n.toInt.toNat : Int) := by
        rw [hn, Int.toNat_of_nonneg hb.1]
        rfl
      exact absurd ⟨n.toInt.toNat, hint, by omega⟩ h
    next => rfl
  next => rfl

/--
A new run has each row as often as any other, but for those that are repeated once more, and in an
order that is not random it goes through the table round by round. After the operations it fails
unless the rows to skip are there; else they are left out, or put to the end with an offset.
-/
theorem start_uses_rows_fairly {l : Loop} {random : Bool} {w w₁ w₂ : Workspace} {v : Value}
    {r : Repeats} {order : Array Nat}
    (hv : l.setting "repeat" (.int 1) w = (v, w₁)) (hr : repeats l.table.size v = .ok r)
    (ho : Workspace.draw (cycleOrder l.table.size r random) w₁ = (order, w₂)) :
    (l.table.size = 0 → r.whole = 0) ∧ r.part.getD 0 ≤ l.table.size ∧
    Fair l.table.size r.whole (r.part.getD 0) order.toList ∧
    (random = false →
      order.toList = rounds l.table.size r.whole ++ List.range (r.part.getD 0)) ∧
    ∀ {table : Table} {w₃ w₄ : Workspace} {skip : Value},
      l.operate order w₂ = (.ok table, w₃) → l.setting "skip" (.int 0) w₃ = (skip, w₄) →
      ((¬ ∃ k : Nat, skip.int?.map Int64.toInt = some (k : Int) ∧ k ≤ table.size) →
        (l.start random w).1 = .error (.validation (.skipCount table.size skip.text))) ∧
      ∀ k : Nat, skip.int?.map Int64.toInt = some (k : Int) → k ≤ table.size →
        ∃ queue, (l.start random w).1 = .ok ⟨table, queue, none⟩ ∧
          ((l.setting "offset" (.str "no") w₄).1.text = "yes" →
            queue = List.range' k (table.size - k) ++ List.range k ∧
            queue = (List.range table.size).rotate k) ∧
          ((l.setting "offset" (.str "no") w₄).1.text ≠ "yes" →
            queue = List.range' k (table.size - k) ∧
            queue = (List.range table.size).drop k) := by
  obtain ⟨hwhole, hpart⟩ := repeats_bounds hr
  obtain rfl : (cycleOrder l.table.size r random w₁.session.random).1 = order :=
    congrArg Prod.fst ho
  refine ⟨hwhole, hpart, cycleOrder_fair hpart random _, ?_, ?_⟩
  · rintro rfl
    exact cycleOrder_of_not_random hpart _
  intro table w₃ w₄ skip ht hs
  rw [start_of_operate hv hr ho ht, startQueue_of_setting hs]
  constructor
  · intro hskip
    rw [skipOf_eq_error hskip]
    rfl
  · intro k hk hle
    rw [skipOf_eq_ok hk hle]
    refine ⟨_, rfl, fun hoffset => ?_, fun hoffset => ?_⟩
    · have hyes := queueFrom_eq hle true
      rw [hoffset]
      exact ⟨rfl, hyes⟩
    · have hno := queueFrom_eq hle false
      rw [beq_eq_false_iff_ne.mpr hoffset]
      exact ⟨rfl, hno⟩

/-- Three rows one and a half times in a random order, reversed, and with the first cycle last. -/
def halfMore : Loop where
  name := "block"
  vars := defaults.setAll [("repeat", .float 1.5), ("skip", .int 1), ("offset", .str "yes")]
  table := ⟨["n"], #[#[.literal (.int 1)], #[.literal (.int 2)], #[.literal (.int 3)]]⟩
  operations := #[⟨.reverse, []⟩]

/-- One of three rows is there twice, and the queue of the four cycles starts with the second. -/
theorem start_uses_rows_fairly_halfMore :
    ∃ (w₁ w₂ w₃ w₄ : Workspace) (v skip : Value) (r : Repeats) (order : Array Nat) (table : Table),
      halfMore.setting "repeat" (.int 1) (.ofSeed .empty 7) = (v, w₁) ∧
      repeats halfMore.table.size v = .ok r ∧
      Workspace.draw (cycleOrder halfMore.table.size r true) w₁ = (order, w₂) ∧
      halfMore.operate order w₂ = (.ok table, w₃) ∧
      halfMore.setting "skip" (.int 0) w₃ = (skip, w₄) ∧
      Fair 3 1 1 order.toList ∧
      (halfMore.start true (.ofSeed .empty 7)).1 = .ok ⟨table, [1, 2, 3, 0], none⟩ := by
  let w : Workspace := .ofSeed .empty 7
  let p₁ := halfMore.setting "repeat" (.int 1) w
  let p₂ := Workspace.draw (cycleOrder halfMore.table.size ⟨1, some 1⟩ true) p₁.2
  let p₃ := halfMore.operate p₂.1 p₂.2
  let p₄ := halfMore.setting "skip" (.int 0) p₃.2
  obtain ⟨⟨whole, part⟩, hr, hcounts⟩ : ∃ r, repeats halfMore.table.size p₁.1 = .ok r ∧
      (r.whole, r.part) = (1, some 1) := ok_of_map (by decide +kernel)
  cases hcounts
  obtain ⟨table, hmade, hsize⟩ : ∃ table, p₃.1 = .ok table ∧ table.size = 4 :=
    ok_of_map (by decide +kernel)
  have hv : halfMore.setting "repeat" (.int 1) w = (p₁.1, p₁.2) := Prod.mk.eta.symm
  have ho : Workspace.draw (cycleOrder halfMore.table.size ⟨1, some 1⟩ true) p₁.2 = (p₂.1, p₂.2) :=
    Prod.mk.eta.symm
  have ht : halfMore.operate p₂.1 p₂.2 = (.ok table, p₃.2) :=
    Prod.ext hmade (Eq.refl p₃.2)
  have hs : halfMore.setting "skip" (.int 0) p₃.2 = (p₄.1, p₄.2) := Prod.mk.eta.symm
  obtain ⟨-, -, hfair, -, hstart⟩ := start_uses_rows_fairly hv hr ho
  obtain ⟨queue, hqueue, hyes, -⟩ := (hstart ht hs).2 1 (by decide +kernel) (by omega)
  obtain ⟨rfl, -⟩ := hyes (by decide +kernel)
  rw [hsize] at hqueue
  exact ⟨p₁.2, p₂.2, p₃.2, p₄.2, p₁.1, p₄.1, _, p₂.1, table, hv, hr, ho, ht, hs, hfair, hqueue⟩

end Loop

end TrialLoop
