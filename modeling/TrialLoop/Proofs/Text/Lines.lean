import TrialLoop.Text.Lines

namespace TrialLoop

/-- The characters stay one line of a text with a line feed after them. -/
structure IsLine (l : List Char) : Prop where
  feed : '\n' ∉ l
  last : l.getLast? ≠ some '\r'

instance (l : List Char) : Decidable (IsLine l) :=
  decidable_of_iff ('\n' ∉ l ∧ l.getLast? ≠ some '\r') ⟨fun h => ⟨h.1, h.2⟩, fun h => ⟨h.1, h.2⟩⟩

theorem isLine_nil : IsLine [] := ⟨by simp, by simp⟩

theorem isLine_of_not_mem {l : List Char} (h : '\n' ∉ l) (h' : '\r' ∉ l) : IsLine l :=
  ⟨h, fun hl => h' (List.mem_of_getLast? hl)⟩

theorem IsLine.cons {c : Char} {l : List Char} (h : IsLine l) (hc : c ≠ '\n') (hc' : c ≠ '\r') :
    IsLine (c :: l) := by
  refine ⟨?_, ?_⟩
  · simp [Ne.symm hc, h.feed]
  · cases l with
    | nil => simpa using hc'
    | cons d l => simpa using h.last

/-- The line of all characters up to a line feed. -/
theorem linesFrom_append {l : List Char} (h : '\n' ∉ l) (line rest : List Char) :
    linesFrom line (l ++ rest) = linesFrom (l.reverse ++ line) rest := by
  induction l generalizing line with
  | nil => rfl
  | cons c l ih =>
    simp only [List.mem_cons, not_or] at h
    have hstep : linesFrom line (c :: (l ++ rest)) = linesFrom (c :: line) (l ++ rest) := by
      rw [linesFrom.eq_def]
      simp [Ne.symm h.1]
    rw [List.cons_append, hstep, ih h.2, List.reverse_cons, List.append_assoc,
      List.singleton_append]

theorem dropReturn_eq_self {l : List Char} (h : l.head? ≠ some '\r') : dropReturn l = l := by
  unfold dropReturn
  split
  next => exact absurd rfl h
  next => rfl

theorem linesFrom_feed (line rest : List Char) :
    linesFrom line ('\n' :: rest) = (dropReturn line).reverse :: lines rest := by
  cases line <;> rfl

theorem lines_cons {l : List Char} (h : IsLine l) (rest : List Char) :
    lines (l ++ '\n' :: rest) = l :: lines rest := by
  have hreturn : dropReturn l.reverse = l.reverse :=
    dropReturn_eq_self (by rw [List.head?_reverse]; exact h.last)
  rw [lines, linesFrom_append h.feed, List.append_nil, linesFrom_feed, hreturn,
    List.reverse_reverse]

/-- Characters without a line feed are one line, if there are any. -/
theorem lines_of_not_mem {l : List Char} (h : '\n' ∉ l) :
    lines l = if l = [] then [] else [l] := by
  have hend := linesFrom_append h [] []
  rw [List.append_nil, List.append_nil] at hend
  rw [lines, hend]
  split
  next hnil => rw [hnil]; rfl
  next hne =>
    cases hr : l.reverse with
    | nil => exact absurd (List.reverse_eq_nil_iff.mp hr) hne
    | cons c cs =>
      show [(c :: cs).reverse] = [l]
      rw [← hr, List.reverse_reverse]

theorem linesFrom_append_feed (line cs rest : List Char) :
    linesFrom line (cs ++ '\n' :: rest) = linesFrom line (cs ++ ['\n']) ++ lines rest := by
  induction cs generalizing line with
  | nil =>
    rw [List.nil_append, List.nil_append, linesFrom_feed, linesFrom_feed]
    rfl
  | cons c cs ih =>
    simp only [List.cons_append, linesFrom]
    split
    · rw [ih, List.cons_append]
    · exact ih (c :: line)

/-- What follows a line feed is split into lines on its own. -/
theorem lines_append_of_feed {cs : List Char} (h : ∀ c ∈ cs.getLast?, c = '\n')
    (rest : List Char) : lines (cs ++ rest) = lines cs ++ lines rest := by
  rcases List.eq_nil_or_concat cs with rfl | ⟨init, c, rfl⟩
  · rfl
  · rw [List.concat_eq_append] at h ⊢
    obtain rfl : c = '\n' := h c (by simp)
    rw [List.append_assoc, List.singleton_append]
    exact linesFrom_append_feed [] init rest

/-- Lines with a line feed after each of them are the lines that come first. -/
theorem lines_append {ls : List (List Char)} (h : ∀ l ∈ ls, IsLine l) (rest : List Char) :
    lines (ls.flatMap (· ++ ['\n']) ++ rest) = ls ++ lines rest := by
  induction ls with
  | nil => rfl
  | cons l ls ih =>
    obtain ⟨hl, hls⟩ := List.forall_mem_cons.mp h
    rw [List.flatMap_cons, List.append_assoc, List.append_assoc, List.singleton_append,
      lines_cons hl, ih hls]
    rfl

theorem joinLines_concat (ls : List (List Char)) (l : List Char) :
    joinLines (ls ++ [l]) = ls.flatMap (· ++ ['\n']) ++ l := by
  induction ls with
  | nil => rfl
  | cons first ls ih =>
    obtain ⟨next, more, hmore⟩ := List.exists_cons_of_ne_nil (List.append_ne_nil_of_right_ne_nil ls
      (List.cons_ne_nil l []))
    rw [List.cons_append, hmore, joinLines, ← hmore, ih, List.flatMap_cons]
    simp

/-- What is joined from lines has these lines, but for a last one that is empty. -/
theorem lines_joinLines {ls : List (List Char)} {l : List Char} (h : ∀ l ∈ ls, IsLine l)
    (hl : '\n' ∉ l) :
    lines (joinLines (ls ++ [l])) = if l = [] then ls else ls ++ [l] := by
  rw [joinLines_concat, lines_append h, lines_of_not_mem hl]
  split <;> simp

theorem lines_joinLines_of_ne_nil {ls : List (List Char)} (h : ∀ l ∈ ls, IsLine l ∧ l ≠ []) :
    lines (joinLines ls) = ls := by
  rcases List.eq_nil_or_concat ls with rfl | ⟨init, l, rfl⟩
  · rfl
  · rw [List.concat_eq_append] at h ⊢
    obtain ⟨hl, hne⟩ := h l (by simp)
    rw [lines_joinLines (fun x hx => (h x (by simp [hx])).1) hl.feed, if_neg hne]

/-- Empty lines at the end stay lines, but for the last one. -/
theorem lines_joinLines_replicate {ls : List (List Char)} (h : ∀ l ∈ ls, IsLine l ∧ l ≠ [])
    (n : Nat) :
    lines (joinLines (ls ++ List.replicate n [])) = ls ++ List.replicate (n - 1) [] := by
  cases n with
  | zero => simpa using lines_joinLines_of_ne_nil h
  | succ n =>
    have hlines : ∀ l ∈ ls ++ List.replicate n [], IsLine l := by
      intro l hl
      rcases List.mem_append.mp hl with hl | hl
      · exact (h l hl).1
      · rw [(List.mem_replicate.mp hl).2]
        exact isLine_nil
    rw [List.replicate_succ', ← List.append_assoc, lines_joinLines hlines (by simp), if_pos rfl,
      Nat.add_sub_cancel]

theorem joinLines_eq_intercalate (ls : List (List Char)) :
    joinLines ls = ['\n'].intercalate ls := by
  induction ls using joinLines.induct with
  | case1 => exact List.intercalate_nil.symm
  | case2 l => exact List.intercalate_singleton.symm
  | case3 l l' ls ih =>
    rw [joinLines, ih, List.intercalate_cons_cons, List.append_assoc, List.singleton_append]

theorem toList_intercalate_feed (ls : List String) :
    ("\n".intercalate ls).toList = joinLines (ls.map String.toList) := by
  rw [joinLines_eq_intercalate, String.toList_intercalate]
  rfl

/-- Texts with a line feed after each of them are the lines of what they make up. -/
theorem lines_join_feed {ls : List String} (h : ∀ l ∈ ls, IsLine l.toList) :
    lines (String.join (ls.map (· ++ "\n"))).toList = ls.map String.toList := by
  have htext : (String.join (ls.map (· ++ "\n"))).toList =
      (ls.map String.toList).flatMap (· ++ ['\n']) ++ [] := by
    simp [String.toList_join, List.flatMap_map]
  rw [htext, lines_append (List.forall_mem_map.mpr h)]
  exact List.append_nil _

/-- Every text is joined from lines, which have no characters but those of the text. -/
theorem exists_joinLines (cs : List Char) :
    ∃ ls l, cs = joinLines (ls ++ [l]) ∧ ∀ x ∈ ls ++ [l], '\n' ∉ x ∧ x ⊆ cs := by
  simp only [joinLines_concat]
  induction cs with
  | nil => exact ⟨[], [], rfl, by simp⟩
  | cons c cs ih =>
    obtain ⟨ls, l, hjoin, hls⟩ := ih
    have hmore : ∀ x ∈ ls ++ [l], '\n' ∉ x ∧ x ⊆ c :: cs := fun x hx =>
      ⟨(hls x hx).1, List.subset_cons_of_subset c (hls x hx).2⟩
    by_cases hc : c = '\n'
    · subst hc
      exact ⟨[] :: ls, l, by simp [hjoin], List.forall_mem_cons.mpr ⟨by simp, hmore⟩⟩
    have hlonger : ∀ x, '\n' ∉ x ∧ x ⊆ c :: cs → '\n' ∉ c :: x ∧ c :: x ⊆ c :: cs := fun x hx =>
      ⟨by simp [Ne.symm hc, hx.1], List.cons_subset.mpr ⟨List.mem_cons_self, hx.2⟩⟩
    cases ls with
    | nil => exact ⟨[], c :: l, by simp [hjoin], by simpa using hlonger l (hmore l (by simp))⟩
    | cons x ls =>
      obtain ⟨hx, hrest⟩ := List.forall_mem_cons.mp hmore
      exact ⟨(c :: x) :: ls, l, by simp [hjoin], List.forall_mem_cons.mpr ⟨hlonger x hx, hrest⟩⟩

/-- A text before a line feed is joined from its lines, if no carriage return is in it. -/
theorem lines_feed {cs : List Char} (h : '\r' ∉ cs) :
    joinLines (lines (cs ++ ['\n'])) = cs ∧ (∀ l ∈ lines (cs ++ ['\n']), IsLine l) ∧
      ∀ rest, lines (cs ++ '\n' :: rest) = lines (cs ++ ['\n']) ++ lines rest := by
  obtain ⟨ls, l, hjoin, hls⟩ := exists_joinLines cs
  have hline : ∀ x ∈ ls ++ [l], IsLine x := fun x hx =>
    isLine_of_not_mem (hls x hx).1 fun hr => h ((hls x hx).2 hr)
  have hsplit : ∀ rest, lines (cs ++ '\n' :: rest) = ls ++ [l] ++ lines rest := by
    intro rest
    rw [← lines_append hline, hjoin, joinLines_concat]
    simp
  have hfirst : lines (cs ++ ['\n']) = ls ++ [l] := (hsplit []).trans (List.append_nil _)
  rw [hfirst]
  exact ⟨hjoin.symm, hline, hsplit⟩

end TrialLoop
