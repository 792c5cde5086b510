import TrialLoop.Proofs.Experiment.Parts
import TrialLoop.Proofs.Script.Places

namespace TrialLoop

/-- A problem that can be seen from a line alone. -/
inductive LineProblem.SeenIn (line : List Char) : LineProblem → Prop
  /-- The line says something, but is no directive. -/
  | script {cause : CommandError} : isSilent line = false →
      Directive.ofLine (String.ofList (trim line)) = .error cause → SeenIn line (.script cause)
  /-- The line is a command that sets nothing. -/
  | topCommand {name : String} {arguments : List String} : isSilent line = false →
      Directive.ofLine (String.ofList (trim line)) = .ok (.command name arguments) →
        SeenIn line (.topCommand name)
  /-- The line is the header of an item, but says no kind and name. -/
  | header {problem : LineProblem} : isHeader line = true →
      readHeader line = .error problem → SeenIn line problem

section Parts

variable {number : Nat} {ls : List (List Char)}

/-- The lines after an item are those that follow its header and its body. -/
theorem LineAt.afterItem {header : List Char} {body rest : List (List Char)} {n : Nat}
    {line : List Char} (h : LineAt (number + body.length + 1) rest n line) :
    LineAt number (header :: (body ++ rest)) n line := by
  refine LineAt.drop (body.length + 1) ?_
  rw [List.drop_succ_cons, List.drop_left]
  exact h

/-- A header defines an item, whose script is its body, or is reported. -/
theorem define_cases (p : Parts) (number : Nat) (header : List Char) (body : List (List Char)) :
    (∃ kind name, (p.define number header body).errors = p.errors ∧
      (p.define number header body).items =
        ⟨kind, name, dedent (String.ofList (joinLines body)), number⟩ :: p.items) ∨
    ∃ problem, readHeader header = .error problem ∧
      (p.define number header body).errors = ⟨number, problem⟩ :: p.errors ∧
      (p.define number header body).items = p.items := by
  unfold Parts.define
  split
  next kind name _ => exact .inl ⟨kind, name, rfl, rfl⟩
  next problem hproblem => exact .inr ⟨problem, hproblem, rfl, rfl⟩

/-- A bad header is reported at its own line. -/
theorem errors_partsFrom_lineAt {e : LoadError} (h : e ∈ (partsFrom number ls).errors) :
    ∃ line, LineAt number ls e.line line ∧ isHeader line = true ∧
      readHeader line = .error e.problem := by
  induction number, ls using partsFrom_induction with
  | nil number =>
    rw [partsFrom_nil] at h
    cases h
  | plain number line rest hline ih =>
    rw [partsFrom_plain hline] at h
    obtain ⟨l, hl, hbad⟩ := ih h
    exact ⟨l, hl.next, hbad⟩
  | item number header body rest hheader hbody hrest ih =>
    rw [partsFrom_item hheader hbody hrest] at h
    have hlater : e ∈ (partsFrom (number + body.length + 1) rest).errors →
        ∃ line, LineAt number (header :: (body ++ rest)) e.line line ∧ isHeader line = true ∧
          readHeader line = .error e.problem := fun h => by
      obtain ⟨l, hl, hbad⟩ := ih h
      exact ⟨l, hl.afterItem, hbad⟩
    rcases define_cases (partsFrom (number + body.length + 1) rest) number header body with
      ⟨kind, name, herrors, -⟩ | ⟨problem, hproblem, herrors, -⟩
    · rw [herrors] at h
      exact hlater h
    · rw [herrors] at h
      rcases List.mem_cons.mp h with rfl | h
      · exact ⟨header, lineAt_first _ _ _, hheader, hproblem⟩
      · exact hlater h

/-- The script of an item is made of the lines that follow its header. -/
theorem items_partsFrom_lineAt {item : Item} (h : item ∈ (partsFrom number ls).items) :
    ∃ body, item.script = dedent (String.ofList (joinLines body)) ∧
      ∀ n line, LineAt (item.line + 1) body n line → LineAt number ls n line := by
  induction number, ls using partsFrom_induction with
  | nil number =>
    rw [partsFrom_nil] at h
    cases h
  | plain number line rest hline ih =>
    rw [partsFrom_plain hline] at h
    obtain ⟨body, hscript, hbody⟩ := ih h
    exact ⟨body, hscript, fun n l hl => (hbody n l hl).next⟩
  | item number header body rest hheader hbody hrest ih =>
    rw [partsFrom_item hheader hbody hrest] at h
    have hlater : item ∈ (partsFrom (number + body.length + 1) rest).items →
        ∃ body', item.script = dedent (String.ofList (joinLines body')) ∧
          ∀ n line, LineAt (item.line + 1) body' n line →
            LineAt number (header :: (body ++ rest)) n line := fun h => by
      obtain ⟨body', hscript, hlines⟩ := ih h
      exact ⟨body', hscript, fun n l hl => (hlines n l hl).afterItem⟩
    rcases define_cases (partsFrom (number + body.length + 1) rest) number header body with
      ⟨kind, name, -, hitems⟩ | ⟨problem, -, -, hitems⟩
    · rw [hitems] at h
      rcases List.mem_cons.mp h with rfl | h
      · exact ⟨body, rfl, fun n l hl => (hl.append rest).next⟩
      · exact hlater h
    · rw [hitems] at h
      exact hlater h

/-- The lines outside items stay where they are. -/
theorem top_partsFrom_lineAt {n : Nat} {line : List Char}
    (h : LineAt number (partsFrom number ls).top n line) : line = [] ∨ LineAt number ls n line := by
  induction number, ls using partsFrom_induction with
  | nil number =>
    rw [partsFrom_nil] at h
    exact .inr h
  | plain number first rest hfirst ih =>
    rw [partsFrom_plain hfirst] at h
    rcases h.of_cons with ⟨rfl, rfl⟩ | h
    · exact .inr (lineAt_first _ _ _)
    · exact (ih h).imp_right LineAt.next
  | item number header body rest hheader hbody hrest ih =>
    rw [partsFrom_item hheader hbody hrest, Parts.top_define] at h
    rcases h.of_replicate with rfl | h
    · exact .inl rfl
    · exact (ih h).imp_right LineAt.afterItem

end Parts

/-- The parts of a file after its front matter. -/
def fileParts (ls : List (List Char)) : Parts :=
  partsFrom (frontMatter ls + 1) (ls.drop (frontMatter ls))

/-- The lines outside items in their places, with empty lines for all others. -/
def topLines (ls : List (List Char)) : List (List Char) :=
  List.replicate (frontMatter ls) [] ++ (fileParts ls).top

section File

variable {ls : List (List Char)} {n : Nat} {line : List Char}

theorem lineAt_of_front (h : LineAt (frontMatter ls + 1) (ls.drop (frontMatter ls)) n line) :
    LineAt 1 ls n line := by
  rw [Nat.add_comm] at h
  exact h.drop (frontMatter ls)

/-- A line outside items that says something is that line of the file. -/
theorem lineAt_of_top (h : LineAt 1 (topLines ls) n line) (hsilent : isSilent line = false) :
    LineAt 1 ls n line := by
  have hne : line ≠ [] := by
    rintro rfl
    cases hsilent
  have htop := h.of_replicate.resolve_left hne
  rw [Nat.add_comm] at htop
  exact lineAt_of_front ((top_partsFrom_lineAt htop).resolve_left hne)

theorem feed_not_mem_topLines (h : ∀ l ∈ ls, '\n' ∉ l) : ∀ l ∈ topLines ls, '\n' ∉ l := by
  intro l hl
  rcases List.mem_append.mp hl with hl | hl
  · rw [(List.mem_replicate.mp hl).2]
    exact List.not_mem_nil
  · rcases mem_top_partsFrom hl with hl | rfl
    · exact h l (List.mem_of_mem_drop hl)
    · exact List.not_mem_nil

end File

namespace Experiment

theorem ofText_eq (text : String) :
    let parts := fileParts (lines text.toList)
    let top := String.ofList (joinLines (topLines (lines text.toList)))
    ofText text = (⟨(directives top).filterMap (topVariable? ·.2), parts.items⟩,
      parts.errors ++ (lineErrors top).map (fun e => LoadError.mk e.line (.script e.cause)) ++
        (directives top).filterMap topError?) :=
  rfl

/-- An error of a file is a bad header, a line that is no directive, or a command. -/
theorem ofText_error_lineAt {text : String} {e : LoadError} (h : e ∈ (ofText text).2) :
    ∃ line, LineAt 1 (lines text.toList) e.line line ∧ e.problem.SeenIn line := by
  have htrimmed : TrimmedFrom
      (lines (String.ofList (joinLines (topLines (lines text.toList)))).toList)
      (topLines (lines text.toList)) := by
    rw [String.toList_ofList]
    exact lines_joinLines_trimmed (feed_not_mem_topLines fun _ hl => feed_not_mem_of_lines hl)
  rw [ofText_eq] at h
  rcases List.mem_append.mp h with h | h
  · rcases List.mem_append.mp h with h | h
    · obtain ⟨line, hline, hheader, hbad⟩ := errors_partsFrom_lineAt h
      exact ⟨line, lineAt_of_front hline, .header hheader hbad⟩
    · obtain ⟨err, herr, rfl⟩ := List.mem_map.mp h
      obtain ⟨line, hline, hsilent, hbad⟩ := lineErrors_lineAt htrimmed herr
      exact ⟨line, lineAt_of_top hline hsilent, .script hsilent hbad⟩
  · obtain ⟨⟨n, d⟩, hd, he⟩ := List.mem_filterMap.mp h
    cases d with
    | set name v => cases he
    | block name body => cases he
    | command name arguments =>
      cases he
      obtain ⟨line, hline, hsilent, hok⟩ := directives_lineAt htrimmed hd
      exact ⟨line, lineAt_of_top hline hsilent, .topCommand hsilent hok⟩

/-- An error of a loop is a line of its script that is no directive. -/
theorem buildLoop_error_lineAt {text name : String} {built : BuiltLoop}
    (hbuilt : (ofText text).1.buildLoop? name = some built) {e : LoadError}
    (h : e ∈ built.errors) :
    ∃ line cause, LineAt 1 (lines text.toList) e.line line ∧ isSilent line = false ∧
      Directive.ofLine (String.ofList (trim line)) = .error cause ∧ e.problem = .script cause := by
  obtain ⟨item, hitem, rfl⟩ := Option.map_eq_some_iff.mp hbuilt
  obtain ⟨err, herr, rfl⟩ := List.mem_map.mp h
  have hmem : item ∈ (fileParts (lines text.toList)).items :=
    (List.mem_filter.mp (List.mem_of_find?_eq_some hitem)).1
  obtain ⟨body, hscript, hlines⟩ := items_partsFrom_lineAt hmem
  have hfeed : ∀ l ∈ body, '\n' ∉ l := by
    intro l hl
    obtain ⟨i, hi⟩ := List.mem_iff_getElem?.mp hl
    exact feed_not_mem_of_lines (lineAt_of_front (hlines _ l ⟨i, rfl, hi⟩)).mem
  have htrimmed : TrimmedFrom (lines item.script.toList) body := by
    have hdedent := lines_dedent_trimmed (String.ofList (joinLines body))
    rw [String.toList_ofList, ← hscript] at hdedent
    exact hdedent.trans (lines_joinLines_trimmed hfeed)
  obtain ⟨line, hline, hsilent, hbad⟩ := lineErrors_lineAt htrimmed herr
  refine ⟨line, err.cause, lineAt_of_front (hlines _ line ?_), hsilent, hbad, rfl⟩
  obtain ⟨i, hi, hget⟩ := hline
  exact ⟨i, by rw [hi, Nat.add_assoc], hget⟩

/--
Every error of a file, and of each loop that the file defines, has the number of a line of the
file from which alone it can be seen.
-/
theorem errors_point_at_lines (text : String) :
    (∀ e ∈ (ofText text).2, 1 ≤ e.line ∧ e.line ≤ (lines text.toList).length ∧
      ∃ line, (lines text.toList)[e.line - 1]? = some line ∧ e.problem.SeenIn line) ∧
    ∀ name built, (ofText text).1.buildLoop? name = some built → ∀ e ∈ built.errors,
      1 ≤ e.line ∧ e.line ≤ (lines text.toList).length ∧
      ∃ line cause, (lines text.toList)[e.line - 1]? = some line ∧ isSilent line = false ∧
        Directive.ofLine (String.ofList (trim line)) = .error cause ∧
        e.problem = .script cause := by
  constructor
  · intro e he
    obtain ⟨line, hline, hseen⟩ := ofText_error_lineAt he
    obtain ⟨hlow, hhigh, hget⟩ := hline.index
    exact ⟨hlow, hhigh, line, hget, hseen⟩
  · intro name built hbuilt e he
    obtain ⟨line, cause, hline, hseen⟩ := buildLoop_error_lineAt hbuilt he
    obtain ⟨hlow, hhigh, hget⟩ := hline.index
    exact ⟨hlow, hhigh, line, cause, hget, hseen⟩

/--
Behind front matter and a block, a command stands in line 7, a setting without a value in line 10,
after a blank line of a loop, and a header without a name in line 12.
-/
theorem errors_point_at_lines_layout :
    ∃ text : String, (ofText text).2.map (·.line) = [12, 7] ∧
      (∃ e ∈ (ofText text).2, e.line = 12 ∧
        ∃ line, (lines text.toList)[11]? = some line ∧ e.problem.SeenIn line) ∧
      ∃ built, (ofText text).1.buildLoop? "l" = some built ∧ ∃ e ∈ built.errors, e.line = 10 ∧
        ∃ line cause, (lines text.toList)[9]? = some line ∧ isSilent line = false ∧
          Directive.ofLine (String.ofList (trim line)) = .error cause ∧
          e.problem = .script cause := by
  let text := "---\nx\n---\n__t__\nset\n__end__\nbogus 1\ndefine loop l\n\n\t set a\n\t run b\n" ++
    "define loop\n"
  have hload : (ofText text).2.map (·.line) = [12, 7] := by decide +kernel
  have hbuild : ((ofText text).1.buildLoop? "l").map (·.errors.map (·.line)) = some [10] := by
    decide +kernel
  obtain ⟨e, he, hline⟩ := List.mem_map.mp (hload ▸ List.mem_cons_self : 12 ∈ _)
  obtain ⟨built, hbuilt, hlines⟩ := Option.map_eq_some_iff.mp hbuild
  obtain ⟨err, herr, herrLine⟩ := List.mem_map.mp (hlines ▸ List.mem_cons_self : 10 ∈ _)
  obtain ⟨-, -, hseen⟩ := (errors_point_at_lines text).1 e he
  obtain ⟨-, -, hloop⟩ := (errors_point_at_lines text).2 "l" built hbuilt err herr
  rw [hline] at hseen
  rw [herrLine] at hloop
  exact ⟨text, hload, ⟨e, he, hline, hseen⟩, built, hbuilt, err, herr, herrLine, hloop⟩

end Experiment

end TrialLoop
