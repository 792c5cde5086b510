import TrialLoop.Sorting.Adaptive
import Mathlib.Algebra.Order.Group.Multiset
import Mathlib.Tactic.Abel

namespace TrialLoop

variable {α : Type}

theorem mergeForward_perm (before : α → α → Bool) (left right : List α) :
    (mergeForward before left right).Perm (left ++ right) :=
  List.merge_perm_append _

theorem mergeBackward_perm (before : α → α → Bool) (left right : List α) :
    (mergeBackward before left right).Perm (left ++ right) := by
  refine (List.reverse_perm _).trans ((List.merge_perm_append _).trans ?_)
  rw [← List.reverse_append]
  exact List.reverse_perm _

theorem countLeft_le (before : α → α → Bool) (n : Nat) (left right : List α) :
    countLeft before n left right ≤ n := by
  fun_induction countLeft before n left right with
  | case1 n x xs y ys h ih => omega
  | case2 n x xs y ys h ih => omega
  | case3 n xs => omega
  | case4 => omega

/-- The first items of a merge are the first ones of each list, as many as were counted. -/
theorem take_mergeForward_perm (before : α → α → Bool) (n : Nat) (left right : List α) :
    ((mergeForward before left right).take n).Perm
      (left.take (countLeft before n left right) ++
        right.take (n - countLeft before n left right)) := by
  unfold mergeForward
  fun_induction countLeft before n left right with
  | case1 n x xs y ys h ih =>
    have hk := countLeft_le before n (x :: xs) ys
    rw [List.cons_merge_cons, if_neg (by simp [h]), List.take_succ_cons, Nat.succ_sub hk,
      List.take_succ_cons]
    exact (ih.cons y).trans List.perm_middle.symm
  | case2 n x xs y ys h ih =>
    rw [List.cons_merge_cons, if_pos (by simpa using h), List.take_succ_cons,
      Nat.succ_sub_succ, List.take_succ_cons]
    exact ih.cons x
  | case3 n xs =>
    rw [List.merge_right, List.take_nil, List.append_nil, List.take_eq_take_min]
  | case4 n left right hright hboth =>
    rcases left with _ | ⟨x, xs⟩
    · rw [List.nil_merge]
      exact .refl _
    · rcases right with _ | ⟨y, ys⟩
      · exact (hright rfl).elim
      · cases n with
        | zero => exact .refl _
        | succ n => exact (hboth n x xs y ys rfl rfl rfl).elim

/-- The last items of a merge are the last ones of each list. -/
theorem drop_mergeBackward_perm (before : α → α → Bool) {n : Nat} {left right : List α}
    (h : n ≤ left.length + right.length) :
    ((mergeBackward before left right).drop (left.length + right.length - n)).Perm
      (left.drop (left.length - countLeftBackward before n left right) ++
        right.drop (right.length - (n - countLeftBackward before n left right))) := by
  have hlength : (right.reverse.merge left.reverse fun y x => !before y x).length =
      left.length + right.length := by
    simp [Nat.add_comm]
  have hle := countLeft_le (fun x y => before y x) n right.reverse left.reverse
  have htake := take_mergeForward_perm (fun x y => before y x) n right.reverse left.reverse
  have hn : left.length + right.length - (left.length + right.length - n) = n := by omega
  have hk : n - (n - countLeft (fun x y => before y x) n right.reverse left.reverse) =
      countLeft (fun x y => before y x) n right.reverse left.reverse := by omega
  rw [mergeBackward, List.drop_reverse, hlength, hn, countLeftBackward, hk]
  refine (List.reverse_perm _).trans (htake.trans ?_)
  rw [List.take_reverse, List.take_reverse, ← List.reverse_append]
  exact List.reverse_perm _

theorem take_drop_drop (xs : List α) (m n : Nat) :
    xs.take m ++ ((xs.drop m).take n ++ xs.drop (m + n)) = xs := by
  rw [← List.drop_drop, List.take_append_drop, List.take_append_drop]

theorem mergeEnds_perm (before : α → α → Bool) (left right : List α) :
    (mergeEnds before left right).Perm (left ++ right) := by
  unfold mergeEnds
  dsimp only
  split
  next h =>
    have hhead := take_mergeForward_perm before left.length left right
    have htail := @drop_mergeBackward_perm _ before left.length left right (by omega)
    have hk := countLeft_le before left.length left right
    rw [Nat.add_sub_cancel_left] at htail
    revert h hhead htail hk
    generalize countLeft before left.length left right = first
    generalize countLeftBackward before left.length left right = last
    intro h hhead htail hk
    -- What neither end has taken lies between their parts of each list.
    have hleft := take_drop_drop left first (left.length - first - last)
    have hright := take_drop_drop right (left.length - first)
      (right.length - (left.length - first) - (left.length - last))
    rw [show first + (left.length - first - last) = left.length - last by omega] at hleft
    rw [show left.length - first + (right.length - (left.length - first) - (left.length - last)) =
      right.length - (left.length - last) by omega] at hright
    refine ((hhead.append_right _).append htail).trans ?_
    conv_rhs => rw [← hleft, ← hright]
    simp only [← Multiset.coe_eq_coe, ← Multiset.coe_add]
    abel
  next => exact mergeForward_perm before left right

theorem sortFour_perm (before : α → α → Bool) (p q r s : α) :
    (sortFour before p q r s).Perm [p, q, r, s] := by
  unfold sortFour
  dsimp only
  split_ifs <;>
    simp only [← Multiset.coe_eq_coe, ← Multiset.cons_coe, ← Multiset.singleton_add] <;> abel

theorem sortUpToFour_perm (before : α → α → Bool) (xs : List α) :
    (sortUpToFour before xs).Perm xs := by
  unfold sortUpToFour
  split
  next p q r s => exact sortFour_perm before p q r s
  next => exact insertionSort_perm before xs

theorem take_drop_perm {xs ys zs : List α} {n : Nat} (hy : ys.Perm (xs.take n))
    (hz : zs.Perm (xs.drop n)) : (ys ++ zs).Perm xs := by
  have h := hy.append hz
  rwa [List.take_append_drop] at h

theorem sortEight_perm (before : α → α → Bool) (xs : List α) :
    (sortEight before xs).Perm xs :=
  (mergeEnds_perm before _ _).trans
    (take_drop_perm (sortUpToFour_perm before _) (sortUpToFour_perm before _))

theorem insertAll_drop_perm (before : α → α → Bool) {xs sorted : List α} {n : Nat}
    (h : sorted.Perm (xs.take n)) : (insertAll before sorted (xs.drop n)).Perm xs :=
  (insertAll_perm before sorted _).trans
    (List.perm_append_comm.trans (take_drop_perm h (.refl _)))

theorem sortHalf_perm (before : α → α → Bool) (count : Nat) (half : List α) :
    (sortHalf before count half).Perm half := by
  unfold sortHalf
  split
  next => exact insertAll_drop_perm before (sortEight_perm before _)
  next =>
    split
    next => exact insertAll_drop_perm before (sortUpToFour_perm before _)
    next => exact insertionSort_perm before half

theorem shortSort_perm (before : α → α → Bool) (xs : List α) :
    (shortSort before xs).Perm xs := by
  unfold shortSort
  split
  next => exact .refl _
  next =>
    rw [List.splitAt_eq]
    exact (mergeEnds_perm before _ _).trans
      (take_drop_perm (sortHalf_perm before _ _) (sortHalf_perm before _ _))

theorem chainLength_pos (related : α → α → Bool) (x : α) (xs : List α) :
    0 < chainLength related (x :: xs) := by
  cases xs with
  | nil => exact Nat.one_pos
  | cons y ys =>
    rw [chainLength]
    split <;> omega

/-- The first stretch is some first items, and it is not empty. -/
theorem firstStretch_spec (before : α → α → Bool) (least : Nat) (eager : Bool) (x : α)
    (xs : List α) :
    ∃ n, 0 < n ∧ (firstStretch before least eager (x :: xs)).items.length = n ∧
      (firstStretch before least eager (x :: xs)).items.Perm ((x :: xs).take n) := by
  -- Whatever the stretch is made from, a rearrangement of first items has their number.
  have hspec : ∀ {n : Nat} {items : List α}, 0 < n → items.Perm ((x :: xs).take n) →
      ∃ n, 0 < n ∧ items.length = n ∧ items.Perm ((x :: xs).take n) := by
    intro n items hn hp
    have hlength : items.length = min n (x :: xs).length := by
      rw [hp.length_eq, List.length_take]
    refine ⟨items.length, ?_, rfl, ?_⟩
    · rw [hlength, List.length_cons]
      omega
    · rwa [hlength, ← List.take_eq_take_min]
  have hfalling := chainLength_pos (fun y z => before z y) x xs
  have hrising := chainLength_pos (fun y z => !before z y) x xs
  unfold firstStretch
  dsimp only
  split
  next => exact hspec hfalling (List.reverse_perm _)
  next hshort =>
    split
    next => exact hspec hrising (.refl _)
    next =>
      split
      next => exact hspec (by decide) (shortSort_perm before _)
      next => exact hspec (by omega) (.refl _)

/-- All items of some stretches. -/
def stretchItems (stretches : List (Stretch α)) : List α :=
  stretches.flatMap (·.items)

theorem cutStretches_perm (before : α → α → Bool) (least : Nat) (eager : Bool) (xs : List α) :
    (stretchItems (cutStretches before least eager xs)).Perm xs := by
  fun_induction cutStretches before least eager xs with
  | case1 => exact .refl _
  | case2 x xs stretch ih =>
    obtain ⟨n, hn, hlength, hitems⟩ := firstStretch_spec before least eager x xs
    have hrest : xs.drop (stretch.items.length - 1) = (x :: xs).drop n := by
      obtain ⟨m, rfl⟩ := Nat.exists_eq_succ_of_ne_zero (Nat.pos_iff_ne_zero.mp hn)
      rw [hlength]
      rfl
    refine take_drop_perm hitems ?_
    rw [← hrest]
    exact ih

section Joining

variable {before : α → α → Bool} {sort : List α → List α} {join : Stretch α → Stretch α → Stretch α}

theorem mergeShorter_perm (before : α → α → Bool) (left right : List α) :
    (mergeShorter before left right).Perm (left ++ right) := by
  unfold mergeShorter
  split
  next => exact mergeForward_perm before left right
  next => exact mergeBackward_perm before left right

theorem Stretch.inOrder_perm (hsort : ∀ xs, (sort xs).Perm xs) (s : Stretch α) :
    (s.inOrder sort).Perm s.items := by
  unfold Stretch.inOrder
  split
  next => exact .refl _
  next => exact hsort s.items

theorem Stretch.join_perm (hsort : ∀ xs, (sort xs).Perm xs) (limit : Nat)
    (left right : Stretch α) :
    (Stretch.join before sort limit left right).items.Perm (left.items ++ right.items) := by
  unfold Stretch.join
  split
  next =>
    exact (mergeShorter_perm before _ _).trans
      ((left.inOrder_perm hsort).append (right.inOrder_perm hsort))
  next => exact .refl _

/-- Joining moves items from the stretches before to the stretch, and loses none. -/
theorem joinDeeper_perm
    (hjoin : ∀ left right, (join left right).items.Perm (left.items ++ right.items))
    (depth : Nat) (s : Stretch α) (earlier : List (Stretch α × Nat)) :
    ((joinDeeper join depth s earlier).1.items ++
      stretchItems ((joinDeeper join depth s earlier).2.map (·.1))).Perm
        (s.items ++ stretchItems (earlier.map (·.1))) := by
  fun_induction joinDeeper join depth s earlier with
  | case1 s => exact .refl _
  | case2 s left leftDepth earlier h ih =>
    refine ih.trans (((hjoin left s).append_right _).trans ?_)
    simp only [stretchItems, List.map_cons, List.flatMap_cons, ← Multiset.coe_eq_coe,
      ← Multiset.coe_add]
    abel
  | case3 s left leftDepth earlier h => exact .refl _

theorem joinDeeper_zero (s : Stretch α) (earlier : List (Stretch α × Nat)) :
    (joinDeeper join 0 s earlier).2 = [] := by
  induction earlier generalizing s with
  | nil => rfl
  | cons e earlier ih =>
    obtain ⟨left, leftDepth⟩ := e
    rw [joinDeeper, if_pos (Nat.zero_le _)]
    exact ih _

theorem joinStretches_perm
    (hjoin : ∀ left right, (join left right).items.Perm (left.items ++ right.items))
    (count start : Nat) (s : Stretch α) (earlier : List (Stretch α × Nat))
    (rest : List (Stretch α)) :
    (joinStretches join count start s earlier rest).items.Perm
      (s.items ++ stretchItems (earlier.map (·.1)) ++ stretchItems rest) := by
  induction rest generalizing start s earlier with
  | nil =>
    have h := joinDeeper_perm hjoin 0 s earlier
    rw [joinDeeper_zero] at h
    simpa [stretchItems, joinStretches] using h
  | cons next rest ih =>
    have h := joinDeeper_perm hjoin (meetingDepth count start (start + s.items.length)
      (start + s.items.length + next.items.length)) s earlier
    rw [joinStretches]
    refine (ih _ _ _).trans ?_
    simp only [stretchItems, List.map_cons, List.flatMap_cons, ← Multiset.coe_eq_coe,
      ← Multiset.coe_add] at h ⊢
    rw [← h]
    abel

theorem sortStretches_perm (hsort : ∀ xs, (sort xs).Perm xs) (count : Nat)
    (stretches : List (Stretch α)) :
    (sortStretches before sort count stretches).Perm (stretchItems stretches) := by
  cases stretches with
  | nil => exact .refl _
  | cons s rest =>
    have hjoin := @Stretch.join_perm _ before _ hsort (joinLimit count)
    have h := joinStretches_perm hjoin count 0 s [] rest
    rw [List.map_nil] at h
    refine (Stretch.inOrder_perm hsort _).trans (h.trans ?_)
    simp [stretchItems]

end Joining

theorem stretchSort_perm (before : α → α → Bool) (xs : List α) :
    (stretchSort before xs).Perm xs :=
  (sortStretches_perm (fun _ => .refl _) _ _).trans (cutStretches_perm before _ true xs)

/-- Items that are divided by what they are to one of them are all there. -/
theorem divide_perm (p : α → Bool) (earlier later : List α) (pivot : α) :
    (earlier.filter p ++ later.filter p ++
      (earlier.filter (!p ·) ++ pivot :: later.filter (!p ·))).Perm (earlier ++ pivot :: later) := by
  have hearlier := List.filter_append_perm p earlier
  have hlater := List.filter_append_perm p later
  simp only [← Multiset.coe_eq_coe, ← Multiset.coe_add, ← Multiset.cons_coe,
    ← Multiset.singleton_add] at hearlier hlater ⊢
  rw [← hearlier, ← hlater]
  abel

theorem quickSort_perm (before : α → α → Bool) (divisions : Nat) (divider : Option α)
    (xs : List α) : (quickSort before divisions divider xs).Perm xs := by
  induction divisions generalizing divider xs with
  | zero =>
    rw [quickSort]
    split
    next => exact shortSort_perm before xs
    next => exact stretchSort_perm before xs
  | succ divisions ih =>
    rw [quickSort]
    split
    next => exact shortSort_perm before xs
    next =>
      rw [List.splitAt_eq]
      split
      next => exact .refl _
      next earlier pivot later hsplit =>
        obtain ⟨rfl, hlater⟩ := Prod.mk.inj hsplit
        have hxs : xs.take (pivotPlace before xs.toArray) ++ pivot :: later = xs := by
          rw [← hlater, List.take_append_drop]
        conv_rhs => rw [← hxs]
        dsimp only
        split
        next =>
          exact ((ih _ _).append_left _).trans
            (List.perm_append_comm.trans (divide_perm (before pivot ·) _ _ _))
        next => exact ((ih _ _).append (ih _ _)).trans (divide_perm (before · pivot) _ _ _)

theorem divideSort_perm (before : α → α → Bool) (xs : List α) :
    (divideSort before xs).Perm xs :=
  quickSort_perm before _ none xs

/-- Whatever the comparison says, sorting loses no item and doubles none. -/
theorem adaptiveSort_perm (before : α → α → Bool) (xs : List α) :
    (adaptiveSort before xs).Perm xs := by
  unfold adaptiveSort
  split
  next => exact insertionSort_perm before xs
  next =>
    split
    next => exact stretchSort_perm before xs
    next =>
      exact (sortStretches_perm (divideSort_perm before) _ _).trans
        (cutStretches_perm before _ false xs)

end TrialLoop
