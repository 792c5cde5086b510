import TrialLoop.Proofs.Experiment.Parts

namespace TrialLoop

/-- A name that may stand between underscores to open a block. -/
structure IsBlockName (name : String) : Prop where
  ne_empty : name ≠ ""
  ne_end : name ≠ "end"
  plain : ∀ c ∈ name.toList, isBlank c = false

/-- A file of one block: its name between underscores, the text and the line that ends it. -/
def blockText (name body : String) : String :=
  "__" ++ name ++ "__\n" ++ body ++ "\n__end__\n"

/-- The lines of the text of a block. -/
def blockLines (body : String) : List (List Char) :=
  lines (body.toList ++ ['\n'])

/-- The line that opens a block. -/
def blockHead (name : String) : List Char :=
  "__".toList ++ name.toList ++ "__".toList

theorem getLast?_blockHead (name : String) : (blockHead name).getLast? = some '_' := by
  rw [blockHead, List.getLast?_append]
  rfl

theorem trim_blockHead (name : String) : trim (blockHead name) = blockHead name := by
  refine trim_eq_self (fun c hc => ?_) fun c hc => ?_
  · cases hc
    rfl
  · rw [getLast?_blockHead] at hc
    cases hc
    rfl

theorem blockName?_blockHead {name : String} (h : IsBlockName name) :
    blockName? (blockHead name) = some name := by
  have hname : ¬(name.toList = [] ∨ name.toList = "end".toList ∨ name.toList.any isBlank) := by
    rw [String.toList_eq_nil_iff, String.toList_inj, List.any_eq_true, not_or, not_or]
    exact ⟨h.ne_empty, h.ne_end, fun ⟨c, hc, hb⟩ => by simp [h.plain c hc] at hb⟩
  have hhead : blockHead name = '_' :: '_' :: (name.toList ++ ['_', '_']) := rfl
  have hreverse : (name.toList ++ ['_', '_']).reverse = '_' :: '_' :: name.toList.reverse := by
    simp
  rw [hhead, blockName?]
  simp only [hreverse, List.reverse_reverse, if_neg hname, String.ofList_toList]

theorem isLine_blockHead {name : String} (h : IsBlockName name) : IsLine (blockHead name) := by
  have hfeed : '\n' ∉ name.toList := fun hmem => absurd (h.plain _ hmem) (by decide)
  refine ⟨?_, by simp [getLast?_blockHead]⟩
  simp [blockHead, hfeed]

theorem lines_blockText {name body : String} (h : IsBlockName name)
    (hreturn : '\r' ∉ body.toList) :
    lines (blockText name body).toList =
      blockHead name :: (blockLines body ++ ["__end__".toList]) := by
  have htext : (blockText name body).toList =
      blockHead name ++ '\n' :: (body.toList ++ '\n' :: ("__end__".toList ++ ['\n'])) := by
    simp [blockText, blockHead]
  rw [htext, lines_cons (isLine_blockHead h), (lines_feed hreturn).2.2]
  rfl

/-- A block takes what the items in it leave, and these items are those of the file. -/
theorem partsFrom_block (name : String) (body : List (List Char)) :
    partsFrom 1 (blockHead name :: (body ++ ["__end__".toList])) =
      { partsFrom 2 body with
        top := blockHead name :: (partsFrom 2 body).top ++ ["__end__".toList] } := by
  rw [partsFrom_plain rfl, partsFrom_concat rfl rfl]
  rfl

theorem scriptEntries_block {name : String} (h : IsBlockName name) {body : List (List Char)}
    (hlines : ∀ l ∈ body, IsLine l) (hend : ∀ l ∈ body, endsBlock l = false) :
    scriptEntries (String.ofList (joinLines (blockHead name :: body ++ ["__end__".toList]))) =
      [⟨1, .ok (.block name (String.ofList (joinLines body)))⟩] := by
  have hall : ∀ l ∈ blockHead name :: body, IsLine l :=
    List.forall_mem_cons.mpr ⟨isLine_blockHead h, hlines⟩
  have hsilent : isSilent (blockHead name) = false := by
    rw [isSilent, trim_blockHead]
    rfl
  have hname : blockName? (trim (blockHead name)) = some name := by
    rw [trim_blockHead, blockName?_blockHead h]
  rw [scriptEntries, String.toList_ofList, lines_joinLines hall (by decide), if_neg (by decide),
    List.cons_append, entriesFrom_block hsilent hname hend rfl, entriesFrom]

/--
The text that a file of one block gives to its variable is what the items in the block leave, with
empty lines for theirs, and these items and bad headers are those of the file.
-/
theorem Experiment.ofText_blockText {name body : String} (h : IsBlockName name)
    (hreturn : '\r' ∉ body.toList) (hend : ∀ l ∈ blockLines body, endsBlock l = false) :
    let parts := partsFrom 2 (blockLines body)
    ofText (blockText name body) =
      (⟨[(name, .str (String.ofList (joinLines parts.top)))], parts.items⟩, parts.errors) := by
  intro parts
  have hfront : frontMatter (blockHead name :: (blockLines body ++ ["__end__".toList])) = 0 := by
    refine frontMatter_eq_zero fun l hl => ?_
    rw [← Option.some.inj hl, trim_blockHead]
    exact fun he => by simpa [blockHead] using congrArg List.head? he
  -- What is left in place of an item is empty, so it does not end the block.
  have htop : ∀ l ∈ parts.top, IsLine l ∧ endsBlock l = false := fun l hl =>
    (mem_top_partsFrom hl).elim (fun hl => ⟨(lines_feed hreturn).2.1 l hl, hend l hl⟩)
      fun hl => hl ▸ ⟨isLine_nil, rfl⟩
  have hparts := partsFrom_block name (blockLines body)
  have hentries : scriptEntries (String.ofList (joinLines
      (partsFrom 1 (blockHead name :: (blockLines body ++ ["__end__".toList]))).top)) =
      [(1, .block name (String.ofList (joinLines parts.top)))].map fun d => ⟨d.1, .ok d.2⟩ := by
    rw [hparts]
    exact scriptEntries_block h (fun l hl => (htop l hl).1) fun l hl => (htop l hl).2
  have hread := ofText_of_entries (lines_blockText h hreturn) hfront hentries
  rw [hread, hparts]
  exact congrArg (Prod.mk _) (List.append_nil parts.errors)

/-- A block keeps its text as it is exactly if no line of the text defines an item. -/
theorem Experiment.ofText_blockText_eq_iff {name body : String} (h : IsBlockName name)
    (hreturn : '\r' ∉ body.toList) (hend : ∀ l ∈ blockLines body, endsBlock l = false) :
    ofText (blockText name body) = (⟨[(name, .str body)], []⟩, []) ↔
      ∀ l ∈ blockLines body, isHeader l = false := by
  rw [ofText_blockText h hreturn hend]
  constructor
  · intro he
    obtain ⟨hread, herrors⟩ := Prod.mk.inj he
    exact (partsFrom_defines_nothing_iff 2 _).mp ⟨(Experiment.mk.inj hread).2, herrors⟩
  · intro hplain
    have hparts : partsFrom 2 (blockLines body) = { top := blockLines body } := by
      have hall := partsFrom_append hplain 2 []
      rwa [List.append_nil, partsFrom_nil, List.append_nil] at hall
    have hjoin : joinLines (blockLines body) = body.toList := (lines_feed hreturn).1
    rw [hparts]
    simp only [hjoin, String.ofList_toList]

/-- A line of a block that looks like the header of a loop defines that loop and leaves no text. -/
theorem Experiment.ofText_block_header :
    ofText "__x__\ndefine loop l\n__end__\n" =
      (⟨[("x", .str "")], [⟨"loop", "l", "", 2⟩]⟩, []) := by
  have hbody : blockLines "define loop l" = ["define loop l".toList] := by decide
  have hparts : partsFrom 2 (blockLines "define loop l") = ⟨[[]], [⟨"loop", "l", "", 2⟩], []⟩ := by
    have hitem := @partsFrom_item "define loop l".toList (by decide) [] (by simp) [] (by simp) 2
    rw [hbody]
    exact hitem.trans (by rw [partsFrom_nil]; rfl)
  have hname : IsBlockName "x" := ⟨by decide, by decide, forall_mem_of_all (by decide)⟩
  have hread := @ofText_blockText "x" "define loop l" hname (by decide) (by rw [hbody]; decide)
  rw [hparts] at hread
  exact hread

end TrialLoop
