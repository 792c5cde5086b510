import TrialLoop.Proofs.Script.Dedent
import TrialLoop.Proofs.Script.Entries

namespace TrialLoop

/-- A line with its number, where the lines are numbered from some number on. -/
def LineAt (first : Nat) (ls : List (List Char)) (number : Nat) (line : List Char) : Prop :=
  ∃ i, number = first + i ∧ ls[i]? = some line

section LineAt

variable {first number : Nat} {ls : List (List Char)} {line : List Char}

theorem lineAt_first (first : Nat) (line : List Char) (rest : List (List Char)) :
    LineAt first (line :: rest) first line :=
  ⟨0, rfl, rfl⟩

theorem LineAt.drop (n : Nat) (h : LineAt (first + n) (ls.drop n) number line) :
    LineAt first ls number line := by
  obtain ⟨i, rfl, hline⟩ := h
  rw [List.getElem?_drop] at hline
  exact ⟨n + i, Nat.add_assoc _ _ _, hline⟩

theorem LineAt.next {l : List Char} (h : LineAt (first + 1) ls number line) :
    LineAt first (l :: ls) number line :=
  LineAt.drop 1 h

theorem LineAt.append (h : LineAt first ls number line) (rest : List (List Char)) :
    LineAt first (ls ++ rest) number line := by
  obtain ⟨i, hi, hline⟩ := h
  obtain ⟨hlt, -⟩ := List.getElem?_eq_some_iff.mp hline
  exact ⟨i, hi, by rw [List.getElem?_append_left hlt, hline]⟩

theorem LineAt.of_cons {l : List Char} (h : LineAt first (l :: ls) number line) :
    (number = first ∧ line = l) ∨ LineAt (first + 1) ls number line := by
  obtain ⟨i, rfl, hline⟩ := h
  cases i with
  | zero => exact .inl ⟨rfl, (Option.some.inj hline).symm⟩
  | succ i => exact .inr ⟨i, by omega, hline⟩

/-- A line after some empty ones is empty, or one of the others. -/
theorem LineAt.of_replicate {n : Nat} (h : LineAt first (List.replicate n [] ++ ls) number line) :
    line = [] ∨ LineAt (first + n) ls number line := by
  obtain ⟨i, rfl, hline⟩ := h
  rcases Nat.lt_or_ge i n with hi | hi
  · rw [List.getElem?_append_left (by simpa using hi)] at hline
    exact .inl (List.mem_replicate.mp (List.mem_of_getElem? hline)).2
  · rw [List.getElem?_append_right (by simpa using hi), List.length_replicate] at hline
    exact .inr ⟨i - n, by omega, hline⟩

theorem LineAt.mem (h : LineAt first ls number line) : line ∈ ls := by
  obtain ⟨i, -, hline⟩ := h
  exact List.mem_of_getElem? hline

/-- Where lines are numbered from 1 on, a number is not 0 and not beyond the last line. -/
theorem LineAt.index (h : LineAt 1 ls number line) :
    1 ≤ number ∧ number ≤ ls.length ∧ ls[number - 1]? = some line := by
  obtain ⟨i, rfl, hline⟩ := h
  obtain ⟨hi, -⟩ := List.getElem?_eq_some_iff.mp hline
  refine ⟨by omega, by omega, ?_⟩
  rw [Nat.add_sub_cancel_left, hline]

end LineAt

/-- Lines that are the first of other lines, but for blanks around them. -/
def TrimmedFrom (ls source : List (List Char)) : Prop :=
  ∀ (i : Nat) (l : List Char), ls[i]? = some l → ∃ l', source[i]? = some l' ∧ trim l = trim l'

namespace TrimmedFrom

theorem refl (ls : List (List Char)) : TrimmedFrom ls ls :=
  fun _ l hl => ⟨l, hl, rfl⟩

theorem trans {ls source origin : List (List Char)} (h : TrimmedFrom ls source)
    (h' : TrimmedFrom source origin) : TrimmedFrom ls origin := by
  intro i l hl
  obtain ⟨m, hm, hlm⟩ := h i l hl
  obtain ⟨o, ho, hmo⟩ := h' i m hm
  exact ⟨o, ho, hlm.trans hmo⟩

theorem cons {l l' : List Char} {ls source : List (List Char)} (hl : trim l = trim l')
    (h : TrimmedFrom ls source) : TrimmedFrom (l :: ls) (l' :: source) := by
  intro i x hx
  cases i with
  | zero =>
    cases hx
    exact ⟨l', rfl, hl⟩
  | succ i => exact h i x hx

theorem map {f : List Char → List Char} {ls : List (List Char)}
    (h : ∀ l ∈ ls, trim (f l) = trim l) : TrimmedFrom (ls.map f) ls := by
  intro i l hl
  rw [List.getElem?_map] at hl
  obtain ⟨x, hx, rfl⟩ := Option.map_eq_some_iff.mp hl
  exact ⟨x, hx, h x (List.mem_of_getElem? hx)⟩

theorem lineAt {ls source : List (List Char)} (h : TrimmedFrom ls source) {first number : Nat}
    {line : List Char} (hline : LineAt first ls number line) :
    ∃ line', LineAt first source number line' ∧ trim line = trim line' := by
  obtain ⟨i, hi, hl⟩ := hline
  obtain ⟨l', hl', htrim⟩ := h i line hl
  exact ⟨l', ⟨i, hi, hl'⟩, htrim⟩

end TrimmedFrom

theorem exists_dropReturn (l : List Char) :
    ∃ blanks, (∀ c ∈ blanks, isBlank c = true) ∧ l = (dropReturn l.reverse).reverse ++ blanks := by
  unfold dropReturn
  split
  next line hl =>
    refine ⟨['\r'], forall_mem_of_all (by decide), ?_⟩
    rw [← List.reverse_cons, ← hl, List.reverse_reverse]
  next => exact ⟨[], by simp, by simp⟩

theorem trim_dropReturn (l : List Char) : trim (dropReturn l.reverse).reverse = trim l := by
  obtain ⟨blanks, hblanks, hl⟩ := exists_dropReturn l
  have hkept := trim_append_blanks hblanks (dropReturn l.reverse).reverse
  rw [← hkept, ← hl]

/-- What is joined from lines has these lines, but for blanks and for a last one that is empty. -/
theorem lines_joinLines_trimmed {ls : List (List Char)} (h : ∀ l ∈ ls, '\n' ∉ l) :
    TrimmedFrom (lines (joinLines ls)) ls := by
  induction ls using joinLines.induct with
  | case1 => exact .refl _
  | case2 l =>
    rw [joinLines, lines_of_not_mem (h l (by simp))]
    split
    next => intro i x hx; simp at hx
    next => exact .refl _
  | case3 l l' ls ih =>
    obtain ⟨hl, hls⟩ := List.forall_mem_cons.mp h
    rw [joinLines, lines, linesFrom_append hl, List.append_nil, linesFrom_feed]
    exact .cons (trim_dropReturn l) (ih hls)

theorem feed_not_mem_linesFrom {line : List Char} (hline : '\n' ∉ line) (cs : List Char) :
    ∀ l ∈ linesFrom line cs, '\n' ∉ l := by
  fun_induction linesFrom line cs with
  | case1 => simp
  | case2 line hne => simpa using hline
  | case3 line cs ih =>
    refine List.forall_mem_cons.mpr ⟨?_, ih (by simp)⟩
    rw [List.mem_reverse]
    unfold dropReturn
    split
    next => exact fun hmem => hline (List.mem_cons_of_mem _ hmem)
    next => exact hline
  | case4 line c cs hc ih => exact ih (by simp [hline, Ne.symm hc])

theorem feed_not_mem_of_lines {cs l : List Char} (h : l ∈ lines cs) : '\n' ∉ l :=
  feed_not_mem_linesFrom (by simp) cs l h

theorem commonStart_subset (as bs : List Char) : commonStart as bs ⊆ as := by
  fun_induction commonStart as bs with
  | case1 _ _ _ ih => exact List.cons_subset_cons _ ih
  | case2 => exact List.nil_subset _
  | case3 => exact List.nil_subset _

theorem mem_of_commonStartAll {ls : List (List Char)} {c : Char} (h : c ∈ commonStartAll ls) :
    ∃ l ∈ ls, c ∈ l := by
  fun_cases commonStartAll ls with
  | case1 => cases h
  | case2 l => exact ⟨l, List.mem_singleton_self l, h⟩
  | case3 l l' ls => exact ⟨l, List.mem_cons_self, commonStart_subset _ _ h⟩

theorem blank_of_commonIndent {ls : List (List Char)} {c : Char} (h : c ∈ commonIndent ls) :
    isBlank c = true := by
  obtain ⟨indent, hindent, hc⟩ := mem_of_commonStartAll h
  obtain ⟨l, -, rfl⟩ := List.mem_map.mp hindent
  exact List.all_eq_true.mp List.all_takeWhile c hc

/-- A line loses only blanks in front of it. -/
theorem exists_dropIndent {indent : List Char} (h : ∀ c ∈ indent, isBlank c = true)
    (l : List Char) :
    ∃ blanks, (∀ c ∈ blanks, isBlank c = true) ∧ l = blanks ++ dropIndent indent l := by
  unfold dropIndent
  split
  next hprefix =>
    obtain ⟨rest, rfl⟩ := List.isPrefixOf_iff_prefix.mp hprefix
    exact ⟨indent, h, by rw [List.drop_left]⟩
  next =>
    exact ⟨l.takeWhile isBlank, List.all_eq_true.mp List.all_takeWhile,
      List.takeWhile_append_dropWhile.symm⟩

/-- Taking away common blanks leaves each line where it is. -/
theorem lines_dedent_trimmed (source : String) :
    TrimmedFrom (lines (dedent source).toList) (lines source.toList) := by
  unfold dedent
  dsimp only
  split
  next => exact .refl _
  next =>
    have hblank : ∀ c ∈ commonIndent (lines source.toList), isBlank c = true := fun _ hc =>
      blank_of_commonIndent hc
    rw [String.toList_ofList]
    refine (lines_joinLines_trimmed (List.forall_mem_map.mpr fun l hl hfeed => ?_)).trans
      (.map fun l _ => ?_)
    · obtain ⟨blanks, -, hdrop⟩ := exists_dropIndent hblank l
      refine feed_not_mem_of_lines hl ?_
      rw [hdrop]
      exact List.mem_append_right _ hfeed
    · obtain ⟨blanks, hblanks, hdrop⟩ := exists_dropIndent hblank l
      rw [← trim_blanks_append hblanks, ← hdrop]

/-- An entry is what its line says, or the block that the line opens. -/
theorem entriesFrom_lineAt {first : Nat} {ls : List (List Char)} {e : Entry}
    (h : e ∈ entriesFrom first ls) :
    ∃ line, LineAt first ls e.line line ∧ isSilent line = false ∧
      (e.outcome = Directive.ofLine (String.ofList (trim line)) ∨
        ∃ name text, e.outcome = .ok (.block name text)) := by
  induction first, ls using entriesFrom.induct with
  | case1 first =>
    rw [entriesFrom] at h
    cases h
  | case2 first line rest hsilent ih =>
    rw [entriesFrom_silent hsilent] at h
    obtain ⟨l, hl, hrest⟩ := ih h
    exact ⟨l, hl.next, hrest⟩
  | case3 first line rest hsilent name hname body ih =>
    rw [entriesFrom, if_neg hsilent, hname] at h
    rcases List.mem_cons.mp h with rfl | h
    · exact ⟨line, lineAt_first first line rest, by simpa using hsilent, .inr ⟨name, _, rfl⟩⟩
    · obtain ⟨l, hl, hrest⟩ := ih h
      exact ⟨l, hl.drop (body.length + 2), hrest⟩
  | case4 first line rest hsilent hname ih =>
    rw [entriesFrom, if_neg hsilent, hname] at h
    rcases List.mem_cons.mp h with rfl | h
    · exact ⟨line, lineAt_first first line rest, by simpa using hsilent, .inl rfl⟩
    · obtain ⟨l, hl, hrest⟩ := ih h
      exact ⟨l, hl.next, hrest⟩

section Source

variable {source : String} {ls : List (List Char)}

/-- The entries of a script whose lines come from other lines are what those lines say. -/
theorem scriptEntries_lineAt (hs : TrimmedFrom (lines source.toList) ls) {e : Entry}
    (h : e ∈ scriptEntries source) :
    ∃ line, LineAt 1 ls e.line line ∧ isSilent line = false ∧
      (e.outcome = Directive.ofLine (String.ofList (trim line)) ∨
        ∃ name text, e.outcome = .ok (.block name text)) := by
  obtain ⟨l, hl, hsilent, houtcome⟩ := entriesFrom_lineAt h
  obtain ⟨line, hline, htrim⟩ := hs.lineAt hl
  rw [isSilent, htrim] at hsilent
  rw [htrim] at houtcome
  exact ⟨line, hline, hsilent, houtcome⟩

theorem lineErrors_lineAt (hs : TrimmedFrom (lines source.toList) ls) {e : LineError}
    (h : e ∈ lineErrors source) :
    ∃ line, LineAt 1 ls e.line line ∧ isSilent line = false ∧
      Directive.ofLine (String.ofList (trim line)) = .error e.cause := by
  obtain ⟨entry, hentry, herror⟩ := List.mem_filterMap.mp h
  obtain ⟨line, hline, hsilent, houtcome⟩ := scriptEntries_lineAt hs hentry
  split at herror
  next => cases herror
  next cause hcause =>
    cases herror
    rw [hcause] at houtcome
    rcases houtcome with houtcome | ⟨name, text, houtcome⟩
    · exact ⟨line, hline, hsilent, houtcome.symm⟩
    · cases houtcome

theorem directives_lineAt (hs : TrimmedFrom (lines source.toList) ls) {number : Nat}
    {name : String} {arguments : List String}
    (h : (number, Directive.command name arguments) ∈ directives source) :
    ∃ line, LineAt 1 ls number line ∧ isSilent line = false ∧
      Directive.ofLine (String.ofList (trim line)) = .ok (.command name arguments) := by
  obtain ⟨entry, hentry, hok⟩ := List.mem_filterMap.mp h
  obtain ⟨d, hd, he⟩ := Option.map_eq_some_iff.mp hok
  obtain ⟨rfl, rfl⟩ := Prod.mk.inj he
  obtain ⟨line, hline, hsilent, houtcome⟩ := scriptEntries_lineAt hs hentry
  have hcommand : entry.outcome = .ok (.command name arguments) := by
    rcases hentry' : entry.outcome with cause | d
    · rw [hentry'] at hd
      cases hd
    · rw [hentry'] at hd
      rw [Option.some.inj hd]
  rw [hcommand] at houtcome
  rcases houtcome with houtcome | ⟨name, text, houtcome⟩
  · exact ⟨line, hline, hsilent, houtcome.symm⟩
  · cases houtcome

end Source

end TrialLoop
