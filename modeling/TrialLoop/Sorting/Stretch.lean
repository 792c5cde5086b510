import TrialLoop.Sorting.Short

namespace TrialLoop

variable {α : Type}

/-- Items next to each other, which may be known to be in order. -/
structure Stretch (α : Type) where
  items : List α
  sorted : Bool

/-- The number of first items each of which is related to the next. -/
def chainLength (related : α → α → Bool) : List α → Nat
  | [] => 0
  | [_] => 1
  | x :: y :: rest => if related x y then chainLength related (y :: rest) + 1 else 1

/--
The first stretch of some items. Items that are in order, or in strictly reverse order, are one if
there are enough of them; else a part is cut off, and sorted if this is asked for.
-/
def firstStretch (before : α → α → Bool) (least : Nat) (eager : Bool) (xs : List α) :
    Stretch α :=
  let falling := chainLength (fun x y => before y x) xs
  let rising := chainLength (fun x y => !before y x) xs
  if least ≤ falling then ⟨(xs.take falling).reverse, true⟩
  else if least ≤ rising then ⟨xs.take rising, true⟩
  else if eager then ⟨shortSort before (xs.take shortLength), true⟩
  else ⟨xs.take least, false⟩

/-- The stretches of some items. -/
def cutStretches (before : α → α → Bool) (least : Nat) (eager : Bool) :
    List α → List (Stretch α)
  | [] => []
  | x :: xs =>
    let stretch := firstStretch before least eager (x :: xs)
    stretch :: cutStretches before least eager (xs.drop (stretch.items.length - 1))
termination_by xs => xs.length
decreasing_by simp only [List.length_drop, List.length_cons]; omega

/-- A number near the square root. -/
def nearRoot (n : Nat) : Nat :=
  let shift := (1 + n.log2) / 2
  (1 <<< shift + n >>> shift) / 2

/-- The least length of a stretch that is left as it is. -/
def leastStretch (count : Nat) : Nat :=
  if count ≤ 64 * 64 then min (count - count / 2) 64 else nearRoot count

/-- Two sorted lists as one, put together from the side of the shorter list. -/
def mergeShorter (before : α → α → Bool) (left right : List α) : List α :=
  if left.length ≤ right.length then mergeForward before left right
  else mergeBackward before left right

/-- The items of a stretch in order, by a sort for those that are not known to be. -/
def Stretch.inOrder (sort : List α → List α) (s : Stretch α) : List α :=
  if s.sorted then s.items else sort s.items

/-- The most items that stretches which are not in order are joined to. -/
def joinLimit (count : Nat) : Nat :=
  max (count - count / 2) (min count 1000000)

/-- Two stretches as one. Two that are not in order stay so unless they are too long. -/
def Stretch.join (before : α → α → Bool) (sort : List α → List α) (limit : Nat)
    (left right : Stretch α) : Stretch α :=
  if left.sorted || right.sorted || limit < left.items.length + right.items.length then
    ⟨mergeShorter before (left.inOrder sort) (right.inOrder sort), true⟩
  else ⟨left.items ++ right.items, false⟩

/--
How deep the node of a tree is at which two stretches meet: the number of binary digits in which
their middles agree as parts of all items.
-/
def meetingDepth (count start middle stop : Nat) : Nat :=
  let scale := (1 <<< 62 + count - 1) / count
  63 - (scale * (start + middle) ^^^ scale * (middle + stop)).log2

/-- A stretch joined with those before it that meet the next ones at least at a depth. -/
def joinDeeper (join : Stretch α → Stretch α → Stretch α) (depth : Nat) :
    Stretch α → List (Stretch α × Nat) → Stretch α × List (Stretch α × Nat)
  | s, [] => (s, [])
  | s, (left, leftDepth) :: earlier =>
    if depth ≤ leftDepth then joinDeeper join depth (join left s) earlier
    else (s, (left, leftDepth) :: earlier)

/-- All stretches as one, joined along a tree. The first of those not seen starts at a place. -/
def joinStretches (join : Stretch α → Stretch α → Stretch α) (count : Nat) :
    (start : Nat) → Stretch α → List (Stretch α × Nat) → List (Stretch α) → Stretch α
  | _, s, earlier, [] => (joinDeeper join 0 s earlier).1
  | start, s, earlier, next :: rest =>
    let middle := start + s.items.length
    let depth := meetingDepth count start middle (middle + next.items.length)
    let (joined, others) := joinDeeper join depth s earlier
    joinStretches join count middle next ((joined, depth) :: others) rest

/-- The items of some stretches in order, by a sort for stretches that are not. -/
def sortStretches (before : α → α → Bool) (sort : List α → List α) (count : Nat) :
    List (Stretch α) → List α
  | [] => []
  | s :: rest =>
    (joinStretches (Stretch.join before sort (joinLimit count)) count 0 s [] rest).inOrder sort

/-- The items in order, by stretches that are sorted at once. -/
def stretchSort (before : α → α → Bool) (xs : List α) : List α :=
  sortStretches before id xs.length (cutStretches before (leastStretch xs.length) true xs)

end TrialLoop
