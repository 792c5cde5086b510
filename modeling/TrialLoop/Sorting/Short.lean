import TrialLoop.Sorting.Insertion

namespace TrialLoop

variable {α : Type}

/-- Two sorted lists as one. An item of the second comes first only if it has to. -/
def mergeForward (before : α → α → Bool) (left right : List α) : List α :=
  left.merge right fun x y => !before y x

/-- Two sorted lists as one, put together from the end. -/
def mergeBackward (before : α → α → Bool) (left right : List α) : List α :=
  (right.reverse.merge left.reverse fun y x => !before y x).reverse

/-- How many of the first items of two merged lists are from the left one. -/
def countLeft (before : α → α → Bool) : Nat → List α → List α → Nat
  | n + 1, x :: xs, y :: ys =>
    if before y x then countLeft before n (x :: xs) ys else countLeft before n xs (y :: ys) + 1
  | n, xs, [] => min n xs.length
  | _, _, _ => 0

/-- How many of the last items of two merged lists are from the left one. -/
def countLeftBackward (before : α → α → Bool) (n : Nat) (left right : List α) : Nat :=
  n - countLeft (fun x y => before y x) n right.reverse left.reverse

/--
Two sorted lists of almost the same length as one, put together from both ends at once. What
neither end has taken stands in the middle. If both ends take the same item, the order is no order,
and the lists are merged from the front.
-/
def mergeEnds (before : α → α → Bool) (left right : List α) : List α :=
  let half := left.length
  let first := countLeft before half left right
  let last := countLeftBackward before half left right
  if first + last ≤ left.length ∧ (half - first) + (half - last) ≤ right.length then
    (mergeForward before left right).take half
      ++ ((left.drop first).take (left.length - first - last)
        ++ (right.drop (half - first)).take (right.length - (half - first) - (half - last)))
      ++ (mergeBackward before left right).drop (right.length)
  else mergeForward before left right

/--
Four items in order. Each two are compared first; the lesser of the firsts and the greater of the
seconds are the ends, and the other two are compared last.
-/
def sortFour (before : α → α → Bool) (p q r s : α) : List α :=
  let (a, b) := if before q p then (q, p) else (p, q)
  let (c, d) := if before s r then (s, r) else (r, s)
  let swapFirst := before c a
  let swapLast := before d b
  let first := if swapFirst then c else a
  let last := if swapLast then b else d
  let left := if swapFirst then a else if swapLast then c else b
  let right := if swapLast then d else if swapFirst then b else c
  if before right left then [first, right, left, last] else [first, left, right, last]

/-- Four items in order, and other numbers of items by insertion. -/
def sortUpToFour (before : α → α → Bool) : List α → List α
  | [p, q, r, s] => sortFour before p q r s
  | xs => insertionSort before xs

/-- Eight items in order. -/
def sortEight (before : α → α → Bool) (xs : List α) : List α :=
  mergeEnds before (sortUpToFour before (xs.take 4)) (sortUpToFour before (xs.drop 4))

/-- Half of some items in order. The more items there are, the more of them are not inserted. -/
def sortHalf (before : α → α → Bool) (count : Nat) (half : List α) : List α :=
  if 16 ≤ count then insertAll before (sortEight before (half.take 8)) (half.drop 8)
  else if 8 ≤ count then insertAll before (sortUpToFour before (half.take 4)) (half.drop 4)
  else insertionSort before half

/-- The most items that are sorted at once. -/
def shortLength : Nat := 32

/-- Few items in order: both halves are sorted and then merged. -/
def shortSort (before : α → α → Bool) (xs : List α) : List α :=
  if xs.length < 2 then xs
  else
    let (left, right) := xs.splitAt (xs.length / 2)
    mergeEnds before (sortHalf before xs.length left) (sortHalf before xs.length right)

end TrialLoop
