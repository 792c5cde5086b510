import TrialLoop.Proofs.Text.Lines
import TrialLoop.Script.Dedent

namespace TrialLoop

theorem commonStart_cons (c : Char) (as bs : List Char) :
    commonStart (c :: as) (c :: bs) = c :: commonStart as bs :=
  if_pos rfl

theorem commonStartAll_map_cons (c : Char) {ls : List (List Char)} (h : ls ≠ []) :
    commonStartAll (ls.map (c :: ·)) = c :: commonStartAll ls := by
  induction ls with
  | nil => exact absurd rfl h
  | cons l ls ih =>
    cases ls with
    | nil => rfl
    | cons l' ls =>
      have hrest := ih (List.cons_ne_nil l' ls)
      simp only [List.map_cons] at hrest ⊢
      rw [commonStartAll, hrest, commonStart_cons]
      rfl

theorem commonStart_nil (cs : List Char) : commonStart cs [] = [] := by
  cases cs <;> rfl

/-- Texts of which one is empty have no common start. -/
theorem commonStartAll_eq_nil {ls : List (List Char)} (h : [] ∈ ls) : commonStartAll ls = [] := by
  induction ls with
  | nil => rfl
  | cons l ls ih =>
    cases ls with
    | nil => exact (List.mem_singleton.mp h).symm
    | cons l' ls =>
      rw [commonStartAll]
      rcases List.mem_cons.mp h with rfl | h
      · rfl
      · rw [ih h, commonStart_nil]

/-- A blank in front of every line is one more blank that they have in common. -/
theorem commonIndent_map_cons {c : Char} (hc : isBlank c = true) {ls : List (List Char)}
    (h : ∃ l ∈ ls, isBlankText l = false) :
    commonIndent (ls.map (c :: ·)) = c :: commonIndent ls := by
  have htext : ∀ l, isBlankText (c :: l) = isBlankText l := fun l => by simp [isBlankText, hc]
  have hindent : ∀ l, indentation (c :: l) = c :: indentation l := fun l =>
    List.takeWhile_cons_of_pos hc
  have hne : (ls.filter fun l => !isBlankText l).map indentation ≠ [] := by
    obtain ⟨l, hl, hblank⟩ := h
    exact List.ne_nil_of_mem (List.mem_map_of_mem (List.mem_filter.mpr ⟨hl, by simp [hblank]⟩))
  rw [commonIndent, commonIndent, ← commonStartAll_map_cons c hne]
  simp only [List.filter_map, List.map_map, Function.comp_def, htext, hindent]

theorem isBlankText_of_head {l : List Char} {c : Char} (h : l.head? = some c)
    (hc : isBlank c = false) : isBlankText l = false := by
  obtain ⟨cs, rfl⟩ := List.head?_eq_some_iff.mp h
  simp [isBlankText, hc]

/-- Lines of which one starts with a character that is no blank have no blanks in common. -/
theorem commonIndent_eq_nil {ls : List (List Char)} {l : List Char} {c : Char} (hl : l ∈ ls)
    (h : l.head? = some c) (hc : isBlank c = false) : commonIndent ls = [] := by
  have hindent : indentation l = [] := by
    obtain ⟨cs, rfl⟩ := List.head?_eq_some_iff.mp h
    exact List.takeWhile_cons_of_neg (by simp [hc])
  refine commonStartAll_eq_nil (List.mem_map.mpr ⟨l, List.mem_filter.mpr ⟨hl, ?_⟩, hindent⟩)
  simp [isBlankText_of_head h hc]

/-- Lines that were indented by one blank are what they were before. -/
theorem dedent_map_cons {indent : Char} (hindent : isBlank indent = true) {ls : List (List Char)}
    (hlines : ∀ l ∈ ls, IsLine (indent :: l))
    (hstart : ls ≠ [] → ∃ l ∈ ls, ∃ c, l.head? = some c ∧ isBlank c = false) :
    dedent (String.ofList (joinLines (ls.map (indent :: ·)))) = String.ofList (joinLines ls) := by
  have hsplit : lines (joinLines (ls.map (indent :: ·))) = ls.map (indent :: ·) :=
    lines_joinLines_of_ne_nil (List.forall_mem_map.mpr fun l hl =>
      ⟨hlines l hl, List.cons_ne_nil indent l⟩)
  have hdrop : ∀ l, dropIndent [indent] (indent :: l) = l := fun l => by simp [dropIndent]
  rw [dedent, String.toList_ofList]
  simp only [hsplit]
  cases hls : ls with
  | nil => rfl
  | cons first others =>
    rw [← hls]
    obtain ⟨l, hl, c, hhead, hc⟩ := hstart (by simp [hls])
    rw [commonIndent_map_cons hindent ⟨l, hl, isBlankText_of_head hhead hc⟩,
      commonIndent_eq_nil hl hhead hc]
    simp only [List.map_map, Function.comp_def, hdrop, List.map_id']

end TrialLoop
