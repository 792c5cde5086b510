import TrialLoop.Sorting.Stretch

namespace TrialLoop

variable {α : Type}

/-- The one of three places whose item is neither first nor last. -/
def middlePlace (before : Nat → Nat → Bool) (a b c : Nat) : Nat :=
  if before a b == before a c then if before b c != before a b then c else b
  else a

/-- The middle of three places, each of which is the middle one of its surroundings. -/
def spreadPlace (before : Nat → Nat → Bool) (n a b c : Nat) : Nat :=
  if h : 8 ≤ n then
    let m := n / 8
    let near := fun p => spreadPlace before m p (p + 4 * m) (p + 7 * m)
    middlePlace before (near a) (near b) (near c)
  else middlePlace before a b c
termination_by n

/-- The place of the item by which others are divided. -/
def pivotPlace (before : α → α → Bool) (xs : Array α) : Nat :=
  let m := xs.size / 8
  let earlier := fun i j => match xs[i]?, xs[j]? with
    | some x, some y => before x y
    | _, _ => false
  spreadPlace earlier m 0 (4 * m) (7 * m)

/--
The items in order: those before one of them, and the others. If none is before it, or it equals
the one that divided the items on the left, those that equal it are taken first. After too many
divisions the rest is sorted by stretches.
-/
def quickSort (before : α → α → Bool) : (divisions : Nat) → Option α → List α → List α
  | 0, _, xs => if xs.length ≤ shortLength then shortSort before xs else stretchSort before xs
  | divisions + 1, divider, xs =>
    if xs.length ≤ shortLength then shortSort before xs
    else
      match xs.splitAt (pivotPlace before xs.toArray) with
      | (_, []) => xs
      | (earlier, pivot :: later) =>
        let less := earlier.filter (before · pivot) ++ later.filter (before · pivot)
        if less.isEmpty || divider.any (!before · pivot) then
          earlier.filter (!before pivot ·) ++ pivot :: later.filter (!before pivot ·)
            ++ quickSort before divisions none
              (earlier.filter (before pivot ·) ++ later.filter (before pivot ·))
        else
          quickSort before divisions divider less
            ++ quickSort before divisions (some pivot)
              (earlier.filter (!before · pivot) ++ pivot :: later.filter (!before · pivot))

/-- The items in order, with as many divisions as a good choice of dividers needs twice over. -/
def divideSort (before : α → α → Bool) (xs : List α) : List α :=
  quickSort before (2 * (xs.length ||| 1).log2) none xs

/--
The items in order, of which those stay in place that need not come before each other. Few items
are inserted one by one, and some are sorted by short stretches. Of many items the stretches that
are in order are kept, and the others are divided. If the order is none, as with floats that have
no place among other numbers, the result is some arrangement of the items.
-/
def adaptiveSort (before : α → α → Bool) (xs : List α) : List α :=
  if xs.length ≤ 20 then insertionSort before xs
  else if xs.length ≤ 2 * shortLength then stretchSort before xs
  else
    sortStretches before (divideSort before) xs.length
      (cutStretches before (leastStretch xs.length) false xs)

end TrialLoop
