namespace TrialLoop

variable {α : Type}

/-- A sorted list, last item first, with one more item behind all that it need not come before. -/
def insertLast (before : α → α → Bool) (x : α) : List α → List α
  | [] => [x]
  | y :: ys => if before x y then y :: insertLast before x ys else x :: y :: ys

/-- A sorted list with more items put in, one after the other. -/
def insertAll (before : α → α → Bool) (sorted more : List α) : List α :=
  (more.foldl (fun done x => insertLast before x done) sorted.reverse).reverse

/-- The items in order, put in one after the other. -/
def insertionSort (before : α → α → Bool) (xs : List α) : List α :=
  insertAll before [] xs

theorem insertLast_perm (before : α → α → Bool) (x : α) (ys : List α) :
    (insertLast before x ys).Perm (x :: ys) := by
  induction ys with
  | nil => exact .refl _
  | cons y ys ih =>
    unfold insertLast
    split
    · exact (ih.cons y).trans (.swap x y ys)
    · exact .refl _

theorem insertAll_perm (before : α → α → Bool) (sorted more : List α) :
    (insertAll before sorted more).Perm (more ++ sorted) := by
  have h : ∀ done : List α,
      (more.foldl (fun done x => insertLast before x done) done).Perm (more ++ done) := by
    induction more with
    | nil => exact fun _ => .refl _
    | cons x more ih =>
      intro done
      exact (ih _).trans (((insertLast_perm before x done).append_left more).trans
        List.perm_middle)
  exact (List.reverse_perm _).trans ((h _).trans ((List.reverse_perm sorted).append_left more))

theorem insertionSort_perm (before : α → α → Bool) (xs : List α) :
    (insertionSort before xs).Perm xs := by
  have h := insertAll_perm before [] xs
  rwa [List.append_nil] at h

end TrialLoop
