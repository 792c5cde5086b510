import TrialLoop.Experiment.Basic
import TrialLoop.Proofs.Script.Entries

namespace TrialLoop

theorem partsFrom_plain {line : List Char} (h : isHeader line = false) (number : Nat)
    (rest : List (List Char)) :
    partsFrom number (line :: rest) =
      { partsFrom (number + 1) rest with top := line :: (partsFrom (number + 1) rest).top } := by
  rw [partsFrom, if_neg (by simp [h])]

/-- An item has all lines up to one that is neither blank nor indented. -/
theorem partsFrom_item {header : List Char} (h : isHeader header = true) {body : List (List Char)}
    (hbody : ∀ l ∈ body, isBody l = true) {rest : List (List Char)}
    (hrest : ∀ l ∈ rest.head?, isBody l = false) (number : Nat) :
    partsFrom number (header :: (body ++ rest)) =
      (partsFrom (number + body.length + 1) rest).define number header body := by
  have htake := (takeWhile_run hbody rest hrest).1
  rw [partsFrom, if_pos h]
  simp only [htake, List.drop_left]

theorem partsFrom_nil (number : Nat) : partsFrom number [] = {} := by
  rw [partsFrom]

theorem Parts.top_define (p : Parts) (number : Nat) (header : List Char)
    (body : List (List Char)) :
    (p.define number header body).top = List.replicate (body.length + 1) [] ++ p.top := by
  rw [Parts.define]
  split <;> rfl

/-- Lines that define nothing stay where they are. -/
theorem partsFrom_append {ls : List (List Char)} (h : ∀ l ∈ ls, isHeader l = false) (number : Nat)
    (rest : List (List Char)) :
    partsFrom number (ls ++ rest) =
      { partsFrom (number + ls.length) rest with
        top := ls ++ (partsFrom (number + ls.length) rest).top } := by
  induction ls generalizing number with
  | nil => rfl
  | cons l ls ih =>
    obtain ⟨hl, hls⟩ := List.forall_mem_cons.mp h
    rw [List.cons_append, partsFrom_plain hl, ih hls, List.length_cons, Nat.add_assoc,
      Nat.add_comm 1]
    rfl

/-- Lines are none, or start with a line that defines nothing, or with an item and its body. -/
theorem partsFrom_induction {P : Nat → List (List Char) → Prop} (nil : ∀ number, P number [])
    (plain : ∀ number line rest, isHeader line = false → P (number + 1) rest →
      P number (line :: rest))
    (item : ∀ number header body rest, isHeader header = true → (∀ l ∈ body, isBody l = true) →
      (∀ l ∈ rest.head?, isBody l = false) → P (number + body.length + 1) rest →
      P number (header :: (body ++ rest)))
    (number : Nat) (ls : List (List Char)) : P number ls := by
  induction number, ls using partsFrom.induct with
  | case1 number => exact nil number
  | case2 number line rest h body ih =>
    have hdrop : rest.drop body.length = rest.dropWhile isBody :=
      (congrArg (List.drop _) List.takeWhile_append_dropWhile.symm).trans List.drop_left
    have hbody : ∀ l ∈ body, isBody l = true := List.all_eq_true.mp List.all_takeWhile
    have hrest : ∀ l ∈ (rest.dropWhile isBody).head?, isBody l = false := by
      intro l hl
      have hnot := List.head?_dropWhile_not isBody rest
      rw [hl] at hnot
      exact hnot
    rw [hdrop] at ih
    have hitem := item number line body _ h hbody hrest ih
    rwa [List.takeWhile_append_dropWhile] at hitem
  | case3 number line rest h ih => exact plain number line rest (by simpa using h) ih

/-- A line that belongs to no item comes after the others outside items. -/
theorem partsFrom_concat {last : List Char} (hheader : isHeader last = false)
    (hbody : isBody last = false) (number : Nat) (ls : List (List Char)) :
    partsFrom number (ls ++ [last]) =
      { partsFrom number ls with top := (partsFrom number ls).top ++ [last] } := by
  induction number, ls using partsFrom_induction with
  | nil number =>
    rw [List.nil_append, partsFrom_plain hheader, partsFrom_nil, partsFrom_nil]
    rfl
  | plain number line rest h ih =>
    rw [List.cons_append, partsFrom_plain h, partsFrom_plain h, ih]
    rfl
  | item number header body rest h hlines hrest ih =>
    have hnext : ∀ l ∈ (rest ++ [last]).head?, isBody l = false := by
      cases rest with
      | nil =>
        intro l hl
        cases hl
        exact hbody
      | cons l rest => exact hrest
    rw [List.cons_append, List.append_assoc, partsFrom_item h hlines hnext, ih,
      partsFrom_item h hlines hrest]
    unfold Parts.define
    split <;> simp

/-- The lines outside items are lines of the file or are left blank. -/
theorem mem_top_partsFrom {l : List Char} {number : Nat} {ls : List (List Char)}
    (h : l ∈ (partsFrom number ls).top) : l ∈ ls ∨ l = [] := by
  induction number, ls using partsFrom_induction with
  | nil number => simp [partsFrom_nil] at h
  | plain number line rest hline ih =>
    rw [partsFrom_plain hline] at h
    rcases List.mem_cons.mp h with rfl | h
    · exact .inl List.mem_cons_self
    · exact (ih h).imp_left (List.mem_cons_of_mem line)
  | item number header body rest hheader hlines hrest ih =>
    rw [partsFrom_item hheader hlines hrest, Parts.top_define] at h
    rcases List.mem_append.mp h with h | h
    · exact .inr (List.mem_replicate.mp h).2
    · exact (ih h).imp_left fun h => List.mem_cons_of_mem header (List.mem_append_right body h)

/-- Lines define nothing exactly if none of them is a header. -/
theorem partsFrom_defines_nothing_iff (number : Nat) (ls : List (List Char)) :
    ((partsFrom number ls).items = [] ∧ (partsFrom number ls).errors = []) ↔
      ∀ l ∈ ls, isHeader l = false := by
  induction number, ls using partsFrom_induction with
  | nil number => simp [partsFrom_nil]
  | plain number line rest h ih =>
    rw [partsFrom_plain h]
    simp [h, ih]
  | item number header body rest h hlines hrest ih =>
    have hdefined : ¬∀ l ∈ header :: (body ++ rest), isHeader l = false := fun hall => by
      simpa [h] using hall header List.mem_cons_self
    refine iff_of_false ?_ hdefined
    rw [partsFrom_item h hlines hrest, Parts.define]
    split <;> simp

theorem frontMatter_eq_zero {ls : List (List Char)} (h : ∀ l ∈ ls.head?, trim l ≠ "---".toList) :
    frontMatter ls = 0 := by
  cases ls with
  | nil => rfl
  | cons first rest => exact if_neg (h first rfl)

/-- A file without front matter whose lines outside items are all directives. -/
theorem Experiment.ofText_of_entries {text : String} {ls : List (List Char)}
    (hlines : lines text.toList = ls) (hfront : frontMatter ls = 0) {ds : List (Nat × Directive)}
    (hentries : scriptEntries (String.ofList (joinLines (partsFrom 1 ls).top)) =
      ds.map fun d => ⟨d.1, .ok d.2⟩) :
    ofText text = (⟨ds.filterMap (topVariable? ·.2), (partsFrom 1 ls).items⟩,
      (partsFrom 1 ls).errors ++ ds.filterMap topError?) := by
  unfold ofText
  simp only [hlines, hfront, List.drop_zero, List.replicate_zero, List.nil_append, Nat.zero_add,
    directives_of_entries hentries, lineErrors_of_entries hentries, List.map_nil, List.append_nil]

end TrialLoop
