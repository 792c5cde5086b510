import TrialLoop.Loop.Start
import Mathlib.Data.List.Perm.Basic

namespace TrialLoop

variable {α : Type}

theorem swapIfInBounds_perm (xs : Array α) (i j : Nat) : (xs.swapIfInBounds i j).Perm xs := by
  rw [Array.swapIfInBounds_def]
  split
  next hi =>
    split
    next hj => exact Array.swap_perm hi hj
    next => exact Array.Perm.refl xs
  next => exact Array.Perm.refl xs

theorem shuffleFrom_perm (n : Nat) (xs : Array α) (s : RandomStream) :
    (shuffleFrom n xs s).1.Perm xs := by
  induction n generalizing xs s with
  | zero => exact Array.Perm.refl xs
  | succ i ih =>
    -- The number drawn says which item is swapped, and any swap keeps the items.
    have hstep : shuffleFrom (i + 1) xs s =
        shuffleFrom i (xs.swapIfInBounds (i + 1) (RandomStream.below (i + 2) s).1)
          (RandomStream.below (i + 2) s).2 := rfl
    rw [hstep]
    exact (ih _ _).trans (swapIfInBounds_perm xs _ _)

/-- Whatever the stream holds, a shuffle neither loses nor repeats an item. -/
theorem shuffle_perm (xs : Array α) (s : RandomStream) : (shuffle xs s).1.Perm xs :=
  shuffleFrom_perm _ xs s

theorem shuffleIf_perm (random : Bool) (xs : Array α) (s : RandomStream) :
    (Loop.shuffleIf random xs s).1.Perm xs := by
  cases random with
  | false => exact Array.Perm.refl xs
  | true => exact shuffle_perm xs s

end TrialLoop
