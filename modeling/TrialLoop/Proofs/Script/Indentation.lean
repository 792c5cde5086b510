import TrialLoop.Proofs.Script.Places

namespace TrialLoop

theorem exists_commonStart (as bs : List Char) :
    (∃ rest, as = commonStart as bs ++ rest) ∧ ∃ rest, bs = commonStart as bs ++ rest := by
  fun_induction commonStart as bs with
  | case1 as b bs ih =>
    obtain ⟨⟨rest, has⟩, rest', hbs⟩ := ih
    exact ⟨⟨rest, congrArg (b :: ·) has⟩, rest', congrArg (b :: ·) hbs⟩
  | case2 => exact ⟨⟨_, rfl⟩, _, rfl⟩
  | case3 => exact ⟨⟨_, rfl⟩, _, rfl⟩

/-- Each of some texts starts with what they have in common. -/
theorem exists_commonStartAll {ls : List (List Char)} {l : List Char} (h : l ∈ ls) :
    ∃ rest, l = commonStartAll ls ++ rest := by
  induction ls with
  | nil => cases h
  | cons first ls ih =>
    cases ls with
    | nil =>
      obtain rfl := List.mem_singleton.mp h
      exact ⟨[], (List.append_nil l).symm⟩
    | cons next ls =>
      obtain ⟨hfirst, more, hmore⟩ := exists_commonStart first (commonStartAll (next :: ls))
      rcases List.mem_cons.mp h with rfl | h
      · exact hfirst
      · obtain ⟨rest, hrest⟩ := ih h
        refine ⟨more ++ rest, ?_⟩
        rw [commonStartAll, ← List.append_assoc, ← hmore, hrest]

theorem commonStartAll_map_append (start : List Char) {ls : List (List Char)} (h : ls ≠ []) :
    commonStartAll (ls.map (start ++ ·)) = start ++ commonStartAll ls := by
  induction start with
  | nil => simp
  | cons c start ih =>
    have hmap : ls.map (c :: start ++ ·) = (ls.map (start ++ ·)).map (c :: ·) := by simp
    have hne : ls.map (start ++ ·) ≠ [] := by simpa using h
    rw [hmap, commonStartAll_map_cons c hne, ih, List.cons_append]

theorem commonStartAll_ne_nil {ls : List (List Char)} {c : Char} (h : ls ≠ [])
    (hhead : ∀ l ∈ ls, l.head? = some c) : commonStartAll ls ≠ [] := by
  have hmap : ls = (ls.map List.tail).map (c :: ·) := by
    rw [List.map_map]
    refine (List.map_id' ls).symm.trans (List.map_congr_left fun l hl => ?_)
    obtain ⟨tail, rfl⟩ := List.head?_eq_some_iff.mp (hhead l hl)
    rfl
  rw [hmap, commonStartAll_map_cons c (by simpa using h)]
  exact List.cons_ne_nil _ _

section Blanks

variable {blanks l : List Char}

theorem isBlankText_blanks_append (h : ∀ c ∈ blanks, isBlank c = true) :
    isBlankText (blanks ++ l) = isBlankText l := by
  rw [isBlankText, List.all_append, List.all_eq_true.mpr h, Bool.true_and, isBlankText]

theorem isBlankText_append_blanks (h : ∀ c ∈ blanks, isBlank c = true) :
    isBlankText (l ++ blanks) = isBlankText l := by
  rw [isBlankText, List.all_append, List.all_eq_true.mpr h, Bool.and_true, isBlankText]

theorem indentation_blanks_append (h : ∀ c ∈ blanks, isBlank c = true) :
    indentation (blanks ++ l) = blanks ++ indentation l :=
  List.takeWhile_append_of_pos h

/-- What follows a line that is not blank does not change where it starts. -/
theorem indentation_append (h : isBlankText l = false) (rest : List Char) :
    indentation (l ++ rest) = indentation l := by
  have hshort : (l.takeWhile isBlank).length ≠ l.length := by
    intro hlength
    have hall : l.takeWhile isBlank = l :=
      (List.takeWhile_sublist isBlank).eq_of_length hlength
    have hblank : l.all isBlank = true := hall ▸ List.all_takeWhile
    rw [isBlankText, hblank] at h
    cases h
  rw [indentation, List.takeWhile_append, if_neg hshort, indentation]

end Blanks

/-- The indentations of the lines that are not blank. -/
def margins (ls : List (List Char)) : List (List Char) :=
  (ls.filter (!isBlankText ·)).map indentation

theorem margins_cons (l : List Char) (ls : List (List Char)) :
    margins (l :: ls) = if isBlankText l then margins ls else indentation l :: margins ls := by
  cases h : isBlankText l with
  | true => simp [margins, h]
  | false => simp [margins, h]

theorem commonIndent_eq (ls : List (List Char)) : commonIndent ls = commonStartAll (margins ls) :=
  rfl

theorem isBlankText_dropIndent {indent : List Char} (h : ∀ c ∈ indent, isBlank c = true)
    (l : List Char) : isBlankText (dropIndent indent l) = isBlankText l := by
  obtain ⟨blanks, hblanks, hdrop⟩ := exists_dropIndent h l
  rw [← isBlankText_blanks_append hblanks, ← hdrop]

section Common

variable {ls : List (List Char)} {l : List Char}

/-- A line that is not blank is the common blanks and what is left of it. -/
theorem eq_append_dropIndent (hl : l ∈ ls) (h : isBlankText l = false) :
    l = commonIndent ls ++ dropIndent (commonIndent ls) l := by
  have hmargin : indentation l ∈ margins ls :=
    List.mem_map_of_mem (List.mem_filter.mpr ⟨hl, by simp [h]⟩)
  obtain ⟨more, hmore⟩ := exists_commonStartAll hmargin
  have hline : l = commonIndent ls ++ (more ++ l.dropWhile isBlank) := by
    rw [commonIndent_eq, ← List.append_assoc, ← hmore, indentation,
      List.takeWhile_append_dropWhile]
  have hstarts : (commonIndent ls).isPrefixOf l = true :=
    List.isPrefixOf_iff_prefix.mpr ⟨_, hline.symm⟩
  have hdrop := congrArg (List.drop (commonIndent ls).length) hline
  rw [List.drop_left] at hdrop
  rw [dropIndent, if_pos hstarts, hdrop]
  exact hline

/-- The indentations of lines are their common part and the indentations of what is left. -/
theorem margins_dropIndent (ls : List (List Char)) :
    margins ls =
      (margins (ls.map (dropIndent (commonIndent ls)))).map (commonIndent ls ++ ·) := by
  have hblank : ∀ c ∈ commonIndent ls, isBlank c = true := fun _ hc => blank_of_commonIndent hc
  simp only [margins, List.filter_map, List.map_map, Function.comp_def,
    isBlankText_dropIndent hblank]
  refine List.map_congr_left fun l hl => ?_
  obtain ⟨hmem, hl⟩ := List.mem_filter.mp hl
  have hline := eq_append_dropIndent hmem (by simpa using hl)
  have hindent := congrArg indentation hline
  rwa [indentation_blanks_append hblank] at hindent

/-- Lines without their common blanks have none in common. -/
theorem commonIndent_dropIndent (ls : List (List Char)) :
    commonIndent (ls.map (dropIndent (commonIndent ls))) = [] := by
  have hmargins := margins_dropIndent ls
  generalize hrest : ls.map (dropIndent (commonIndent ls)) = rest at hmargins ⊢
  by_cases hnone : margins rest = []
  · rw [commonIndent_eq, hnone]
    rfl
  · have hcommon : commonStartAll (margins ls) = commonIndent ls ++ commonIndent rest := by
      rw [hmargins, commonStartAll_map_append _ hnone, commonIndent_eq rest]
    exact List.self_eq_append_right.mp hcommon

/-- Where no blanks are common to all lines, a blank does not start all that are not blank. -/
theorem exists_head_ne (h : commonIndent ls = []) (hsome : ∃ l ∈ ls, isBlankText l = false)
    {c : Char} (hc : isBlank c = true) : ∃ l ∈ ls, isBlankText l = false ∧ l.head? ≠ some c := by
  apply Decidable.byContradiction
  intro hnot
  have hall : ∀ l ∈ ls, isBlankText l = false → l.head? = some c := fun l hl hblank =>
    Decidable.not_not.mp fun hne => hnot ⟨l, hl, hblank, hne⟩
  have hmargin : ∀ m ∈ margins ls, m.head? = some c := by
    refine List.forall_mem_map.mpr fun l hl => ?_
    obtain ⟨hmem, hblank⟩ := List.mem_filter.mp hl
    obtain ⟨rest, rfl⟩ := List.head?_eq_some_iff.mp (hall l hmem (by simpa using hblank))
    rw [indentation, List.takeWhile_cons_of_pos hc, List.head?_cons]
  have hne : margins ls ≠ [] := by
    obtain ⟨l, hl, hblank⟩ := hsome
    exact List.ne_nil_of_mem (List.mem_map_of_mem (List.mem_filter.mpr ⟨hl, by simp [hblank]⟩))
  exact commonStartAll_ne_nil hne hmargin h

theorem margins_dropReturn (l : List Char) (ls : List (List Char)) :
    margins ((dropReturn l.reverse).reverse :: ls) = margins (l :: ls) := by
  obtain ⟨blanks, hblanks, hl⟩ := exists_dropReturn l
  generalize (dropReturn l.reverse).reverse = kept at hl ⊢
  subst hl
  rw [margins_cons, margins_cons, isBlankText_append_blanks hblanks]
  cases h : isBlankText kept with
  | true => rfl
  | false => rw [indentation_append h]

/-- What is joined from lines is indented as they are. -/
theorem margins_lines_joinLines (h : ∀ l ∈ ls, '\n' ∉ l) :
    margins (lines (joinLines ls)) = margins ls := by
  induction ls using joinLines.induct with
  | case1 => rfl
  | case2 l =>
    rw [joinLines, lines_of_not_mem (h l (by simp))]
    split
    next hnil => rw [hnil]; rfl
    next => rfl
  | case3 l l' ls ih =>
    obtain ⟨hl, hls⟩ := List.forall_mem_cons.mp h
    have hrest := ih hls
    rw [joinLines, lines, linesFrom_append hl, List.append_nil, linesFrom_feed,
      margins_dropReturn, margins_cons, hrest, ← margins_cons]

end Common

theorem dedent_of_none {source : String} (h : commonIndent (lines source.toList) = []) :
    dedent source = source := by
  unfold dedent
  simp only [h]

theorem dedent_of_some {source : String} (h : commonIndent (lines source.toList) ≠ []) :
    dedent source = String.ofList (joinLines
      ((lines source.toList).map (dropIndent (commonIndent (lines source.toList))))) := by
  unfold dedent
  dsimp only
  split
  next hnil => exact absurd hnil h
  next => rfl

theorem feed_not_mem_dropIndent (source : String) :
    ∀ l ∈ (lines source.toList).map (dropIndent (commonIndent (lines source.toList))),
      '\n' ∉ l := by
  refine List.forall_mem_map.mpr fun l hl hfeed => feed_not_mem_of_lines hl ?_
  obtain ⟨blanks, -, hdrop⟩ := exists_dropIndent (fun _ hc => blank_of_commonIndent hc) l
  rw [hdrop]
  exact List.mem_append_right _ hfeed

/-- Once the common blanks are taken away no blanks are common. -/
theorem commonIndent_dedent (source : String) :
    commonIndent (lines (dedent source).toList) = [] := by
  by_cases h : commonIndent (lines source.toList) = []
  · rw [dedent_of_none h, h]
  · have hjoin := margins_lines_joinLines (feed_not_mem_dropIndent source)
    rw [dedent_of_some h, String.toList_ofList, commonIndent_eq, hjoin, ← commonIndent_eq,
      commonIndent_dropIndent]

theorem splitOn_joinLines {ls : List (List Char)} (hne : ls ≠ []) (h : ∀ l ∈ ls, '\n' ∉ l) :
    (joinLines ls).splitOn '\n' = ls := by
  rw [joinLines_eq_intercalate, List.splitOn_intercalate '\n' h hne]

/-- The lines of a text are what line feeds part, if no carriage return is in it. -/
theorem splitOn_of_lines {cs l : List Char} (h : '\r' ∉ cs) {i : Nat}
    (hl : (lines cs)[i]? = some l) : (cs.splitOn '\n')[i]? = some l := by
  obtain ⟨ls, last, rfl, hls⟩ := exists_joinLines cs
  have hline : ∀ x ∈ ls, IsLine x := fun x hx =>
    isLine_of_not_mem (hls x (by simp [hx])).1 fun hr => h ((hls x (by simp [hx])).2 hr)
  rw [lines_joinLines hline (hls last (by simp)).1] at hl
  rw [splitOn_joinLines (by simp) fun x hx => (hls x hx).1]
  split at hl
  next =>
    obtain ⟨hi, -⟩ := List.getElem?_eq_some_iff.mp hl
    rw [List.getElem?_append_left hi, hl]
  next => exact hl

/-- Each line of a text stays where it is, without the blanks that are common to all. -/
theorem splitOn_dedent {source : String} (h : '\r' ∉ source.toList) {i : Nat} {l : List Char}
    (hl : (lines source.toList)[i]? = some l) :
    ((dedent source).toList.splitOn '\n')[i]? =
      some (dropIndent (commonIndent (lines source.toList)) l) := by
  by_cases hnone : commonIndent (lines source.toList) = []
  · rw [dedent_of_none hnone, hnone, splitOn_of_lines h hl]
    rfl
  · have hne := List.ne_nil_of_mem (List.mem_of_getElem? hl)
    have hsplit := splitOn_joinLines (mt List.map_eq_nil_iff.mp hne) (feed_not_mem_dropIndent source)
    rw [dedent_of_some hnone, String.toList_ofList, hsplit, List.getElem?_map, hl, Option.map_some]

/--
Of a text without carriage returns each line loses the same blanks, or is blank and stays so; after
that its lines that are not blank do not all start with one blank, and nothing more is taken away.
-/
theorem dedent_removes_common_blanks :
    (∀ source : String, '\r' ∉ source.toList →
      ∃ indent : List Char, (∀ c ∈ indent, isBlank c = true) ∧
        ∀ (i : Nat) line, (lines source.toList)[i]? = some line →
          ∃ piece, ((dedent source).toList.splitOn '\n')[i]? = some piece ∧
            if isBlankText line then isBlankText piece = true else line = indent ++ piece) ∧
      (∀ source c, isBlank c = true →
        (∃ l ∈ lines (dedent source).toList, isBlankText l = false) →
        ∃ l ∈ lines (dedent source).toList, isBlankText l = false ∧ l.head? ≠ some c) ∧
      ∀ source, dedent (dedent source) = dedent source := by
  refine ⟨fun source hreturn => ?_, fun source c hc hsome => ?_, fun source => ?_⟩
  · have hblank : ∀ c ∈ commonIndent (lines source.toList), isBlank c = true := fun _ hc =>
      blank_of_commonIndent hc
    refine ⟨commonIndent (lines source.toList), hblank, fun i line hline => ?_⟩
    refine ⟨_, splitOn_dedent hreturn hline, ?_⟩
    split
    next h => rw [isBlankText_dropIndent hblank, h]
    next h => exact eq_append_dropIndent (List.mem_of_getElem? hline) (by simpa using h)
  · exact exists_head_ne (commonIndent_dedent source) hsome hc
  · exact dedent_of_none (commonIndent_dedent source)

/-- Tabs, blanks of more than one byte, blank lines with fewer and with more of them. -/
theorem dedent_removes_common_blanks_mixed :
    let source := "\t\u3000a\n\n\t\u3000 b\n \t\n\t\u3000\t\u3000"
    '\r' ∉ source.toList ∧ dedent source = "a\n\n b\n\n\t\u3000" ∧
      ∃ indent : List Char, (∀ c ∈ indent, isBlank c = true) ∧
        ∀ (i : Nat) line, (lines source.toList)[i]? = some line →
          ∃ piece, ((dedent source).toList.splitOn '\n')[i]? = some piece ∧
            if isBlankText line then isBlankText piece = true else line = indent ++ piece := by
  intro source
  have hreturn : '\r' ∉ source.toList := by decide
  exact ⟨hreturn, by decide +kernel, dedent_removes_common_blanks.1 source hreturn⟩

end TrialLoop
