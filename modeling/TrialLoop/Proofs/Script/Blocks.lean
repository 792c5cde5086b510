import TrialLoop.Proofs.Experiment.Block
import TrialLoop.Proofs.Script.Places

namespace TrialLoop

/-- A line that says nothing: blanks, or blanks and a comment. -/
structure IsSilence (line : String) : Prop where
  feed : '\n' ∉ line.toList
  silent : ∃ blanks comment, line.toList = blanks ++ comment ∧ (∀ c ∈ blanks, isBlank c = true) ∧
    ∀ c ∈ comment.head?, c = '#'

/-- What a script of blocks is put together from. -/
inductive ScriptPart where
  | silence (line : String) (h : IsSilence line)
  | block (name body : String) (hname : IsBlockName name) (hreturn : '\r' ∉ body.toList)
      (hend : ∀ l ∈ blockLines body, endsBlock l = false)

namespace ScriptPart

def text : ScriptPart → String
  | silence line _ => line
  | block name body .. => "__" ++ name ++ "__\n" ++ body ++ "\n__end__"

/-- The name and the text of a block. -/
def block? : ScriptPart → Option (String × String)
  | silence .. => none
  | block name body .. => some (name, body)

/-- The number of lines that a part takes. -/
def height : ScriptPart → Nat
  | silence .. => 1
  | block _ body .. => (blockLines body).length + 2

/--
The text of some parts, with a line feed between each two. It ends with a line feed if the last of
them is an empty line.
-/
def script (parts : List ScriptPart) : String :=
  "\n".intercalate (parts.map text)

/-- What a part says that starts at a line. -/
def placedAt (number : Nat) (p : ScriptPart) : List (Nat × Directive) :=
  (p.block?.map fun b => (number, Directive.block b.1 b.2)).toList

/-- What some parts say, the first of which starts at a line. -/
def placed : (number : Nat) → List ScriptPart → List (Nat × Directive)
  | _, [] => []
  | number, p :: ps => p.placedAt number ++ placed (number + p.height) ps

theorem filterMap_placed (number : Nat) (parts : List ScriptPart) :
    ((placed number parts).filterMap fun (_, d) =>
      match d with
      | .block name text => some (name, text)
      | _ => none) = parts.filterMap block? := by
  induction parts generalizing number with
  | nil => rfl
  | cons p ps ih =>
    rw [placed, List.filterMap_append, ih]
    cases p <;> rfl

/-- The entry of a directive that was read. -/
def entry (d : Nat × Directive) : Entry :=
  ⟨d.1, .ok d.2⟩

end ScriptPart

/-- A text that starts with no blank starts with the same character when it is trimmed. -/
theorem exists_trim_cons {c : Char} (hc : isBlank c = false) (cs : List Char) :
    ∃ rest, trim (c :: cs) = c :: rest := by
  have hstart : dropBlanks (c :: cs) = c :: cs := by simp [dropBlanks, hc]
  have hend : dropBlanks (cs.reverse ++ [c]) =
      if (dropBlanks cs.reverse).isEmpty then dropBlanks [c] else dropBlanks cs.reverse ++ [c] :=
    List.dropWhile_append
  rw [trim, hstart, List.reverse_cons, hend]
  split
  next => exact ⟨[], by simp [dropBlanks, hc]⟩
  next => exact ⟨(dropBlanks cs.reverse).reverse, by simp⟩

theorem IsSilence.isSilent_of_trim {line : String} (h : IsSilence line) {l : List Char}
    (hl : trim l = trim line.toList) : isSilent l = true := by
  obtain ⟨-, blanks, comment, htext, hblanks, hcomment⟩ := h
  rw [htext, trim_blanks_append hblanks] at hl
  rw [isSilent, hl]
  cases comment with
  | nil => rfl
  | cons c comment =>
    obtain rfl := hcomment c rfl
    obtain ⟨rest, hrest⟩ := exists_trim_cons (c := '#') (by decide) comment
    rw [hrest]
    rfl

theorem entriesFrom_blockLines {name body : String} (hname : IsBlockName name)
    (hend : ∀ l ∈ blockLines body, endsBlock l = false) (hreturn : '\r' ∉ body.toList)
    (number : Nat) (rest : List (List Char)) :
    entriesFrom number (blockHead name :: (blockLines body ++ "__end__".toList :: rest)) =
      ⟨number, .ok (.block name body)⟩ ::
        entriesFrom (number + ((blockLines body).length + 2)) rest := by
  have hsilent : isSilent (blockHead name) = false := by
    rw [isSilent, trim_blockHead]
    rfl
  have hopens : blockName? (trim (blockHead name)) = some name := by
    rw [trim_blockHead, blockName?_blockHead hname]
  have hbody : joinLines (blockLines body) = body.toList := (lines_feed hreturn).1
  rw [entriesFrom_block hsilent hopens hend rfl, hbody, String.ofList_toList, Nat.add_assoc]

namespace ScriptPart

/-- The characters of a block, with what comes after the line that ends it. -/
theorem lines_block {name body : String} (hname : IsBlockName name)
    (hreturn : '\r' ∉ body.toList) (rest : List Char) :
    lines (("__" ++ name ++ "__\n" ++ body ++ "\n__end__").toList ++ rest) =
      blockHead name :: (blockLines body ++ lines ("__end__".toList ++ rest)) := by
  have htext : ("__" ++ name ++ "__\n" ++ body ++ "\n__end__").toList ++ rest =
      blockHead name ++ '\n' :: (body.toList ++ '\n' :: ("__end__".toList ++ rest)) := by
    simp [blockHead]
  rw [htext, lines_cons (isLine_blockHead hname), (lines_feed hreturn).2.2]
  rfl

/-- A part before a line feed says what it is, whatever comes after it. -/
theorem entriesFrom_text (p : ScriptPart) (number : Nat) (rest : List Char) :
    entriesFrom number (lines (p.text.toList ++ '\n' :: rest)) =
      (p.placedAt number).map entry ++ entriesFrom (number + p.height) (lines rest) := by
  cases p with
  | silence line h =>
    have hline : lines (line.toList ++ '\n' :: rest) =
        (dropReturn line.toList.reverse).reverse :: lines rest := by
      rw [lines, linesFrom_append h.feed, List.append_nil, linesFrom_feed]
    have hsilent := h.isSilent_of_trim (trim_dropReturn line.toList)
    exact (congrArg _ hline).trans (entriesFrom_silent hsilent number _)
  | block name body hname hreturn hend =>
    have hlast : lines ("__end__".toList ++ '\n' :: rest) = "__end__".toList :: lines rest :=
      lines_cons (by decide) rest
    rw [text, lines_block hname hreturn, hlast]
    exact entriesFrom_blockLines hname hend hreturn number _

/-- A part at the end of a script, after which there is no line feed, says what it is. -/
theorem entriesFrom_last (p : ScriptPart) (number : Nat) :
    entriesFrom number (lines p.text.toList) = (p.placedAt number).map entry := by
  cases p with
  | silence line h =>
    rw [text, lines_of_not_mem h.feed]
    split
    next => exact entriesFrom.eq_1 number
    next =>
      rw [entriesFrom_silent (h.isSilent_of_trim rfl)]
      exact entriesFrom.eq_1 _
  | block name body hname hreturn hend =>
    have hlast : lines ("__end__".toList ++ []) = ["__end__".toList] := by decide
    rw [text, ← List.append_nil (String.toList _), lines_block hname hreturn, hlast,
      entriesFrom_blockLines hname hend hreturn, entriesFrom.eq_1]
    rfl

theorem entriesFrom_script (parts : List ScriptPart) (number : Nat) :
    entriesFrom number (lines (script parts).toList) = (placed number parts).map entry := by
  rw [script, toList_intercalate_feed, List.map_map]
  induction parts generalizing number with
  | nil => exact entriesFrom.eq_1 number
  | cons p ps ih =>
    cases ps with
    | nil =>
      rw [placed, placed, List.append_nil]
      exact entriesFrom_last p number
    | cons q qs =>
      rw [List.map_cons, List.map_cons, joinLines, ← List.map_cons]
      refine (entriesFrom_text p number _).trans ?_
      rw [ih]
      exact List.map_append.symm

/--
A script that was put together from blocks, with any blank lines and comments before, between and
after them, has these blocks in their order, and nothing else: their texts may look like anything
that a script can say.
-/
theorem blocks_script (parts : List ScriptPart) :
    blocks (script parts) = parts.filterMap block? ∧
      directives (script parts) = placed 1 parts ∧ lineErrors (script parts) = [] := by
  have hentries : scriptEntries (script parts) = (placed 1 parts).map entry :=
    entriesFrom_script parts 1
  have hdirectives := directives_of_entries hentries
  refine ⟨?_, hdirectives, lineErrors_of_entries hentries⟩
  rw [blocks, hdirectives]
  exact filterMap_placed 1 parts

example : script [.silence "# one" ⟨by decide, [], "# one".toList, rfl, nofun, by simp⟩,
    .block "a" "set x 1\n__b__" ⟨by decide, by decide, forall_mem_of_all (by decide)⟩ (by decide)
      (by decide)] = "# one\n__a__\nset x 1\n__b__\n__end__" := by
  decide

end ScriptPart

end TrialLoop
