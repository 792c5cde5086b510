import TrialLoop.Proofs.Experiment.Parts
import TrialLoop.Proofs.Script.Dedent

namespace TrialLoop

/-- An item to be written to a file: its kind, its name and the lines of its script. -/
structure Definition where
  kind : String
  name : String
  script : List String

/-- A line that starts with a character that is no blank. -/
def startsPlain (line : String) : Bool :=
  line.toList.head?.any (!isBlank ·)

namespace Definition

/-- The texts fit in lines, and a line of the script, if it has any, starts with no blank. -/
structure WellFormed (d : Definition) : Prop where
  kind : '\n' ∉ d.kind.toList
  name : '\n' ∉ d.name.toList
  script : ∀ l ∈ d.script, IsLine l.toList
  start : d.script ≠ [] → ∃ l ∈ d.script, startsPlain l = true

instance (d : Definition) : Decidable d.WellFormed :=
  decidable_of_iff
    ('\n' ∉ d.kind.toList ∧ '\n' ∉ d.name.toList ∧ (∀ l ∈ d.script, IsLine l.toList) ∧
      (d.script ≠ [] → ∃ l ∈ d.script, startsPlain l = true))
    ⟨fun ⟨kind, name, script, start⟩ => ⟨kind, name, script, start⟩,
      fun h => ⟨h.kind, h.name, h.script, h.start⟩⟩

/-- A header, and the script behind tabs. -/
def lines (d : Definition) : List String :=
  quotedLine "define" d.kind d.name :: d.script.map ("\t" ++ ·)

/-- The item as it is read from a header at a line. -/
def placed (d : Definition) (line : Nat) : Item :=
  ⟨d.kind, d.name, "\n".intercalate d.script, line⟩

/-- The script behind tabs. -/
def body (d : Definition) : List (List Char) :=
  (d.script.map String.toList).map ('\t' :: ·)

theorem toList_lines (d : Definition) :
    d.lines.map String.toList = (quotedLine "define" d.kind d.name).toList :: d.body := by
  simp [lines, body]

theorem length_lines (d : Definition) : d.lines.length = d.body.length + 1 := by
  simp [lines, body]

theorem isHeader_head (d : Definition) :
    isHeader (quotedLine "define" d.kind d.name).toList = true := by
  rw [toList_quotedLine]
  rfl

theorem isBody_head (d : Definition) :
    isBody (quotedLine "define" d.kind d.name).toList = false := by
  rw [toList_quotedLine]
  rfl

theorem isBody_of_mem {d : Definition} {l : List Char} (h : l ∈ d.body) : isBody l = true := by
  obtain ⟨l, -, rfl⟩ := List.mem_map.mp h
  rfl

theorem readHeader_head (d : Definition) :
    readHeader (quotedLine "define" d.kind d.name).toList = .ok (d.kind, d.name) := by
  have hwords := @words_quotedLine "define" (by decide) d.kind d.name
  rw [readHeader, String.ofList_toList, hwords]
  simp only [unquote_quote]

theorem WellFormed.isLine_of_mem {d : Definition} (h : d.WellFormed) {l : List Char}
    (hl : l ∈ d.body) : IsLine l := by
  simp only [body, List.mem_map] at hl
  obtain ⟨_, ⟨s, hs, rfl⟩, rfl⟩ := hl
  exact (h.script s hs).cons (by decide) (by decide)

theorem WellFormed.dedent_body {d : Definition} (h : d.WellFormed) :
    dedent (String.ofList (joinLines d.body)) = "\n".intercalate d.script := by
  have hstart : d.script.map String.toList ≠ [] →
      ∃ l ∈ d.script.map String.toList, ∃ c, l.head? = some c ∧ isBlank c = false := by
    intro hne
    obtain ⟨s, hs, hplain⟩ := h.start (by simpa using hne)
    obtain ⟨c, hc, hblank⟩ := (Option.any_eq_true _ _).mp hplain
    exact ⟨s.toList, List.mem_map_of_mem hs, c, hc, by simpa using hblank⟩
  have hlines : ∀ l ∈ d.script.map String.toList, IsLine ('\t' :: l) := fun l hl =>
    h.isLine_of_mem (List.mem_map_of_mem hl)
  rw [body, dedent_map_cons rfl hlines hstart, ← toList_intercalate_feed, String.ofList_toList]

end Definition

/-- The items of a file from a line on, each at the line of its header. -/
def placedFrom (line : Nat) : List Definition → List Item
  | [] => []
  | d :: ds => d.placed line :: placedFrom (line + d.lines.length) ds

/-- The lines of a file: one for each variable, then those of the items. -/
def fileLines (vars : List (String × String)) (items : List Definition) : List String :=
  (vars.map fun p => quotedLine "set" p.1 p.2) ++ items.flatMap Definition.lines

theorem partsFrom_definitions {items : List Definition} (h : ∀ d ∈ items, d.WellFormed)
    (number : Nat) :
    partsFrom number ((items.flatMap Definition.lines).map String.toList) =
      { top := List.replicate (items.flatMap Definition.lines).length []
        items := placedFrom number items } := by
  induction items generalizing number with
  | nil => exact partsFrom_nil number
  | cons d items ih =>
    obtain ⟨hd, hitems⟩ := List.forall_mem_cons.mp h
    -- The body ends where the next header stands, which is not indented.
    have hnext : ∀ l ∈ ((items.flatMap Definition.lines).map String.toList).head?,
        isBody l = false := by
      cases items with
      | nil => simp
      | cons e items =>
        rw [List.flatMap_cons, List.map_append, e.toList_lines, List.cons_append, List.head?_cons]
        intro l hl
        rw [← Option.some.inj hl]
        exact e.isBody_head
    have hnumber : number + d.body.length + 1 = number + d.lines.length := by
      rw [d.length_lines, Nat.add_assoc]
    rw [List.flatMap_cons, List.map_append, d.toList_lines, List.cons_append,
      partsFrom_item d.isHeader_head (fun l hl => Definition.isBody_of_mem hl) hnext, hnumber,
      ih hitems, Parts.define, d.readHeader_head]
    simp only [hd.dedent_body, List.length_append, d.length_lines, placedFrom,
      Definition.placed, List.replicate_append_replicate]

theorem isLine_of_mem_fileLines {vars : List (String × String)} {items : List Definition}
    (hvars : ∀ p ∈ vars, '\n' ∉ p.1.toList ∧ '\n' ∉ p.2.toList)
    (hitems : ∀ d ∈ items, d.WellFormed) {l : String} (h : l ∈ fileLines vars items) :
    IsLine l.toList ∧ l.toList ≠ [] := by
  have hquoted : ∀ word a b : String, (quotedLine word a b).toList ≠ [] := fun word a b => by
    simp [toList_quotedLine]
  rcases List.mem_append.mp h with h | h
  · obtain ⟨p, hp, rfl⟩ := List.mem_map.mp h
    exact ⟨isLine_quotedLine (by decide) (by decide) (hvars p hp).1 (hvars p hp).2, hquoted _ _ _⟩
  · obtain ⟨d, hd, h⟩ := List.mem_flatMap.mp h
    rcases List.mem_cons.mp h with rfl | h
    · have hline := @isLine_quotedLine "define" d.kind d.name (by decide) (by decide)
        (hitems d hd).kind (hitems d hd).name
      exact ⟨hline, hquoted _ _ _⟩
    · obtain ⟨s, hs, rfl⟩ := List.mem_map.mp h
      have htab : ("\t" ++ s).toList = '\t' :: s.toList := by simp
      have hbody : '\t' :: s.toList ∈ d.body := List.mem_map_of_mem (List.mem_map_of_mem hs)
      rw [htab]
      exact ⟨(hitems d hd).isLine_of_mem hbody, List.cons_ne_nil _ _⟩

theorem trim_quotedLine_ne_dashes {word : String} {c : Char} (hword : IsBare word)
    (h : word.toList.head? = some c) (hne : c ≠ '-') (a b : String) :
    trim (quotedLine word a b).toList ≠ "---".toList := by
  rw [trim_quotedLine hword]
  intro he
  have hhead := congrArg List.head? he
  rw [toList_quotedLine, List.head?_append, h] at hhead
  exact hne (Option.some.inj hhead)

/-- The first line of a file sets a variable or defines an item. -/
theorem frontMatter_fileLines (vars : List (String × String)) (items : List Definition) :
    frontMatter ((fileLines vars items).map String.toList) = 0 := by
  refine frontMatter_eq_zero fun l hl => ?_
  cases vars with
  | cons p vars =>
    rw [fileLines, List.map_cons, List.cons_append, List.map_cons, List.head?_cons] at hl
    rw [← Option.some.inj hl]
    exact trim_quotedLine_ne_dashes (c := 's') (by decide) rfl (by decide) p.1 p.2
  | nil =>
    cases items with
    | nil => simp [fileLines] at hl
    | cons d items =>
      rw [fileLines, List.map_nil, List.nil_append, List.flatMap_cons, Definition.lines,
        List.cons_append, List.map_cons, List.head?_cons] at hl
      rw [← Option.some.inj hl]
      exact trim_quotedLine_ne_dashes (c := 'd') (by decide) rfl (by decide) d.kind d.name

theorem partsFrom_fileLines (vars : List (String × String)) {items : List Definition}
    (h : ∀ d ∈ items, d.WellFormed) :
    partsFrom 1 ((fileLines vars items).map String.toList) =
      { top := settingLines vars ++ List.replicate (items.flatMap Definition.lines).length []
        items := placedFrom (vars.length + 1) items } := by
  have hplain : ∀ l ∈ settingLines vars, isHeader l = false := by
    refine List.forall_mem_map.mpr fun p _ => ?_
    rw [toList_quotedLine]
    rfl
  have hlines : (fileLines vars items).map String.toList =
      settingLines vars ++ (items.flatMap Definition.lines).map String.toList := by
    rw [fileLines, List.map_append, List.map_map]
    rfl
  have hlength : (settingLines vars).length = vars.length := List.length_map _
  rw [hlines, partsFrom_append hplain, partsFrom_definitions h, hlength, Nat.add_comm 1]

theorem Experiment.ofText_of_fileLines {vars : List (String × String)} {items : List Definition}
    (hvars : ∀ p ∈ vars, '\n' ∉ p.1.toList ∧ '\n' ∉ p.2.toList)
    (hitems : ∀ d ∈ items, d.WellFormed) {text : String}
    (h : lines text.toList = (fileLines vars items).map String.toList) :
    ofText text =
      (⟨vars.map fun p => (p.1, .str p.2), placedFrom (vars.length + 1) items⟩, []) := by
  let ds := (vars.zipIdx 1).map fun p => (p.2, Directive.set p.1.1 (.str p.1.2))
  have hparts := partsFrom_fileLines vars hitems
  have hentries : scriptEntries (String.ofList (joinLines
      (partsFrom 1 ((fileLines vars items).map String.toList)).top)) =
      ds.map fun d => ⟨d.1, .ok d.2⟩ := by
    rw [hparts, scriptEntries_settings hvars, List.map_map]
    rfl
  have hset : ds.filterMap (topVariable? ·.2) = vars.map fun p => (p.1, .str p.2) := by
    rw [List.filterMap_map]
    calc (vars.zipIdx 1).filterMap (fun p => some (p.1.1, Value.str p.1.2))
        = ((vars.zipIdx 1).map Prod.fst).map fun p => (p.1, .str p.2) := by
          rw [List.filterMap_eq_map', List.map_map]
          rfl
      _ = vars.map fun p => (p.1, .str p.2) := by rw [List.zipIdx_map_fst]
  have hnone : ds.filterMap topError? = [] := by
    rw [List.filterMap_map]
    exact List.filterMap_eq_nil_iff.mpr fun _ _ => rfl
  rw [ofText_of_entries h (frontMatter_fileLines vars items) hentries, hset, hnone, hparts]
  rfl

/--
A file of variables and items is read as these variables and these items, each with the line of its
header, whether or not its last line ends with a line feed.
-/
theorem Experiment.ofText_fileLines {vars : List (String × String)} {items : List Definition}
    (hvars : ∀ p ∈ vars, '\n' ∉ p.1.toList ∧ '\n' ∉ p.2.toList)
    (hitems : ∀ d ∈ items, d.WellFormed) :
    let read := (⟨vars.map fun p => (p.1, .str p.2), placedFrom (vars.length + 1) items⟩, [])
    ofText (String.join ((fileLines vars items).map (· ++ "\n"))) = read ∧
      ofText ("\n".intercalate (fileLines vars items)) = read := by
  have hlines : ∀ l ∈ fileLines vars items, IsLine l.toList ∧ l.toList ≠ [] := fun l hl =>
    isLine_of_mem_fileLines hvars hitems hl
  refine ⟨ofText_of_fileLines hvars hitems ?_, ofText_of_fileLines hvars hitems ?_⟩
  · exact lines_join_feed fun l hl => (hlines l hl).1
  · rw [toList_intercalate_feed]
    exact lines_joinLines_of_ne_nil (List.forall_mem_map.mpr hlines)

/-- A name in quotes, an item of no lines, and a script that looks like items and blocks. -/
theorem Experiment.ofText_fileLines_lookalikes :
    let vars := [("a \"b\"", "c\\"), ("", "define loop l")]
    let items : List Definition :=
      [⟨"loop", "", []⟩, ⟨"x y", "define", ["__n__", "", "\tdefine loop l", "__end__ "]⟩]
    (∀ p ∈ vars, '\n' ∉ p.1.toList ∧ '\n' ∉ p.2.toList) ∧ (∀ d ∈ items, d.WellFormed) ∧
      fileLines vars items =
        ["set \"a \\\"b\\\"\" \"c\\\\\"", "set \"\" \"define loop l\"",
          "define \"loop\" \"\"", "define \"x y\" \"define\"",
          "\t__n__", "\t", "\t\tdefine loop l", "\t__end__ "] ∧
      ofText ("\n".intercalate (fileLines vars items)) =
        (⟨[("a \"b\"", .str "c\\"), ("", .str "define loop l")],
          [⟨"loop", "", "", 3⟩,
            ⟨"x y", "define", "__n__\n\n\tdefine loop l\n__end__ ", 4⟩]⟩, []) := by
  intro vars items
  have hvars : ∀ p ∈ vars, '\n' ∉ p.1.toList ∧ '\n' ∉ p.2.toList := by decide +kernel
  have hitems : ∀ d ∈ items, d.WellFormed := by decide +kernel
  refine ⟨hvars, hitems, by decide +kernel, (ofText_fileLines hvars hitems).2.trans ?_⟩
  rfl

end TrialLoop
