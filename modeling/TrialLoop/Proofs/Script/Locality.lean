import TrialLoop.Proofs.Script.Places
import Mathlib

namespace TrialLoop

/-- Whether a block is open after a line, where one is or is not open before it. -/
def blockAfter (isOpen : Bool) (line : List Char) : Bool :=
  if isOpen then !endsBlock line else (blockName? (trim line)).isSome

/-- A block that starts in some lines does not end in them. -/
def blockOpen (ls : List (List Char)) : Bool :=
  ls.foldl blockAfter false

/-- What a line outside blocks says that is not silent, with the lines after it. -/
def saidBy (line : List Char) (after : List (List Char)) : Except CommandError Directive :=
  match blockName? (trim line) with
  | some name => .ok (.block name (String.ofList (joinLines (after.takeWhile (!endsBlock ·)))))
  | none => Directive.ofLine (String.ofList (trim line))

theorem blockName?_of_silent {line : List Char} (h : isSilent line = true) :
    blockName? (trim line) = none := by
  unfold isSilent at h
  split at h
  next hnil => rw [hnil]; rfl
  next c cs hcons =>
    obtain rfl : c = '#' := eq_of_beq h
    rw [hcons]
    rfl

section Block

variable {line last : List Char} {name : String} {body : List (List Char)}

theorem blockOpen_of_none (h : blockName? (trim line) = none) (rest : List (List Char)) :
    blockOpen (line :: rest) = blockOpen rest := by
  have hstep : blockAfter false line = false := by simp [blockAfter, h]
  rw [blockOpen, List.foldl_cons, hstep, blockOpen]

theorem foldl_blockAfter_body (hbody : ∀ l ∈ body, endsBlock l = false) :
    body.foldl blockAfter true = true := by
  induction body with
  | nil => rfl
  | cons l body ih =>
    obtain ⟨hl, hbody⟩ := List.forall_mem_cons.mp hbody
    have hstep : blockAfter true l = true := by simp [blockAfter, hl]
    rw [List.foldl_cons, hstep, ih hbody]

theorem blockOpen_block (hname : blockName? (trim line) = some name)
    (hbody : ∀ l ∈ body, endsBlock l = false) (rest : List (List Char)) :
    blockOpen (line :: (body ++ rest)) = rest.foldl blockAfter true := by
  have hopens : blockAfter false line = true := by simp [blockAfter, hname]
  rw [blockOpen, List.foldl_cons, hopens, List.foldl_append, foldl_blockAfter_body hbody]

theorem blockOpen_closed (hname : blockName? (trim line) = some name)
    (hbody : ∀ l ∈ body, endsBlock l = false) (hlast : endsBlock last = true)
    (rest : List (List Char)) :
    blockOpen (line :: (body ++ last :: rest)) = blockOpen rest := by
  have hcloses : blockAfter true last = false := by simp [blockAfter, hlast]
  rw [blockOpen_block hname hbody, List.foldl_cons, hcloses, blockOpen]

/-- A block says its name and the lines up to its end, or up to the end of the lines. -/
theorem saidBy_block (hname : blockName? (trim line) = some name)
    (hbody : ∀ l ∈ body, endsBlock l = false) (rest : List (List Char))
    (hrest : ∀ l ∈ rest.head?, endsBlock l = true) :
    saidBy line (body ++ rest) = .ok (.block name (String.ofList (joinLines body))) := by
  have hrun : ∀ l ∈ body, (!endsBlock l) = true := fun l hl => by simp [hbody l hl]
  have htake := (takeWhile_run hrun rest fun l hl => by simp [hrest l hl]).1
  rw [saidBy, hname]
  simp only [htake]

theorem entriesFrom_unclosed (h : isSilent line = false)
    (hname : blockName? (trim line) = some name) (hbody : ∀ l ∈ body, endsBlock l = false)
    (number : Nat) :
    entriesFrom number (line :: body) =
      [⟨number, .ok (.block name (String.ofList (joinLines body)))⟩] := by
  have hrun : ∀ l ∈ body, (!endsBlock l) = true := fun l hl => by simp [hbody l hl]
  have htake := (takeWhile_run hrun [] (by simp)).1
  rw [List.append_nil] at htake
  rw [entriesFrom, if_neg (by simp [h]), hname]
  simp only [htake]
  rw [List.drop_eq_nil_of_le (by omega), entriesFrom]

end Block

/-- The lines after the start of a block are its own, or one of them ends it. -/
theorem block_cases (ls : List (List Char)) :
    (∀ l ∈ ls, endsBlock l = false) ∨
      ∃ body last rest, ls = body ++ last :: rest ∧ (∀ l ∈ body, endsBlock l = false) ∧
        endsBlock last = true := by
  obtain ⟨body, rest, rfl, hbody, hrest⟩ := exists_run (fun l => !endsBlock l) ls
  have hbody' : ∀ l ∈ body, endsBlock l = false := fun l hl => by simpa using hbody l hl
  cases rest with
  | nil => exact .inl (by simpa using hbody')
  | cons last rest => exact .inr ⟨body, last, rest, rfl, hbody', by simpa using hrest last rfl⟩

/-- Lines are read one by one, but for the lines of a block, which are read with its start. -/
@[elab_as_elim]
theorem script_induction {P : List (List Char) → Prop} (ls : List (List Char)) (nil : P [])
    (silent : ∀ line rest, isSilent line = true → P rest → P (line :: rest))
    (directive : ∀ line rest, isSilent line = false → blockName? (trim line) = none →
      P rest → P (line :: rest))
    (closed : ∀ line name body last rest, isSilent line = false →
      blockName? (trim line) = some name → (∀ l ∈ body, endsBlock l = false) →
      endsBlock last = true → P rest → P (line :: (body ++ last :: rest)))
    (unclosed : ∀ line name body, isSilent line = false → blockName? (trim line) = some name →
      (∀ l ∈ body, endsBlock l = false) → P (line :: body)) : P ls := by
  induction hn : ls.length using Nat.strong_induction_on generalizing ls with
  | _ n ih =>
    subst hn
    cases ls with
    | nil => exact nil
    | cons line rest =>
      have hrest : P rest := ih rest.length (by simp) rest rfl
      cases hsilent : isSilent line with
      | true => exact silent line rest hsilent hrest
      | false =>
        cases hname : blockName? (trim line) with
        | none => exact directive line rest hsilent hname hrest
        | some name =>
          rcases block_cases rest with hbody | ⟨body, last, rest, rfl, hbody, hlast⟩
          · exact unclosed line name rest hsilent hname hbody
          · refine closed line name body last rest hsilent hname hbody hlast ?_
            exact ih rest.length (by simp; omega) rest rfl

/-- Lines after which no block is open are read on their own, and so are the lines after them. -/
theorem entriesFrom_append {ls : List (List Char)} (h : blockOpen ls = false) (number : Nat)
    (after : List (List Char)) :
    entriesFrom number (ls ++ after) =
      entriesFrom number ls ++ entriesFrom (number + ls.length) after := by
  induction ls using script_induction generalizing number with
  | nil =>
    rw [List.nil_append, entriesFrom, List.nil_append]
    rfl
  | silent line rest hsilent ih =>
    rw [blockOpen_of_none (blockName?_of_silent hsilent)] at h
    have hnext := ih h (number + 1)
    rw [List.cons_append, entriesFrom_silent hsilent, entriesFrom_silent hsilent, hnext,
      List.length_cons, Nat.add_assoc, Nat.add_comm 1]
  | directive line rest hsilent hname ih =>
    rw [blockOpen_of_none hname] at h
    have hnext := ih h (number + 1)
    rw [List.cons_append, entriesFrom_directive hsilent hname,
      entriesFrom_directive hsilent hname, hnext, List.length_cons, Nat.add_assoc, Nat.add_comm 1,
      List.cons_append]
  | closed line name body last rest hsilent hname hbody hlast ih =>
    rw [blockOpen_closed hname hbody hlast] at h
    have hnext := ih h (number + body.length + 2)
    have hlength : number + (line :: (body ++ last :: rest)).length =
        number + body.length + 2 + rest.length := by
      simp only [List.length_cons, List.length_append]
      omega
    have hassoc : line :: (body ++ last :: rest) ++ after =
        line :: (body ++ last :: (rest ++ after)) := by simp
    rw [hassoc, entriesFrom_block hsilent hname hbody hlast,
      entriesFrom_block hsilent hname hbody hlast, hnext, hlength, List.cons_append]
  | unclosed line name body hsilent hname hbody =>
    have hopen := blockOpen_block hname hbody []
    rw [List.append_nil, h] at hopen
    cases hopen

/-- The entries of lines come in the order of their lines. -/
theorem entriesFrom_pairwise (number : Nat) (ls : List (List Char)) :
    (entriesFrom number ls).Pairwise (·.line < ·.line) := by
  have hbelow : ∀ first : Nat, ∀ ls, ∀ e ∈ entriesFrom first ls, first ≤ e.line := by
    intro first ls e he
    obtain ⟨-, ⟨i, hi, -⟩, -⟩ := entriesFrom_lineAt he
    omega
  induction ls using script_induction generalizing number with
  | nil =>
    rw [entriesFrom]
    exact List.Pairwise.nil
  | silent line rest hsilent ih =>
    rw [entriesFrom_silent hsilent]
    exact ih (number + 1)
  | directive line rest hsilent hname ih =>
    rw [entriesFrom_directive hsilent hname]
    exact List.pairwise_cons.mpr ⟨hbelow (number + 1) rest, ih (number + 1)⟩
  | closed line name body last rest hsilent hname hbody hlast ih =>
    rw [entriesFrom_block hsilent hname hbody hlast]
    refine List.pairwise_cons.mpr ⟨fun e he => ?_, ih (number + body.length + 2)⟩
    have hnext := hbelow _ _ e he
    show number < e.line
    omega
  | unclosed line name body hsilent hname hbody =>
    rw [entriesFrom_unclosed hsilent hname hbody]
    exact List.pairwise_singleton _ _

/-- A line outside blocks that is not silent comes first among its entries. -/
theorem entriesFrom_cons {line : List Char} (h : isSilent line = false) (number : Nat)
    (after : List (List Char)) :
    ∃ others, entriesFrom number (line :: after) = ⟨number, saidBy line after⟩ :: others := by
  rw [entriesFrom, if_neg (by simp [h]), saidBy]
  cases blockName? (trim line) with
  | none => exact ⟨_, rfl⟩
  | some name => exact ⟨_, rfl⟩

/-- An entry is what a line outside blocks says that is not silent. -/
def Said (number : Nat) (ls : List (List Char)) (e : Entry) : Prop :=
  ∃ before line after, ls = before ++ line :: after ∧ blockOpen before = false ∧
    isSilent line = false ∧ e = ⟨number + before.length, saidBy line after⟩

theorem said_first {line : List Char} (h : isSilent line = false) (number : Nat)
    (after : List (List Char)) : Said number (line :: after) ⟨number, saidBy line after⟩ :=
  ⟨[], line, after, rfl, rfl, h, rfl⟩

theorem Said.after {number : Nat} {before rest : List (List Char)} {e : Entry}
    (h : Said (number + before.length) rest e) (hbefore : blockOpen before = false) :
    Said number (before ++ rest) e := by
  obtain ⟨more, line, after, rfl, hmore, hsilent, rfl⟩ := h
  refine ⟨before ++ more, line, after, by simp, ?_, hsilent, ?_⟩
  · rw [blockOpen, List.foldl_append, ← blockOpen, hbefore, ← blockOpen, hmore]
  · rw [List.length_append, Nat.add_assoc]

theorem Said.next {number : Nat} {line : List Char} {rest : List (List Char)} {e : Entry}
    (h : Said (number + 1) rest e) (hline : blockName? (trim line) = none) :
    Said number (line :: rest) e := by
  have hclosed : blockOpen [line] = false := blockOpen_of_none hline []
  exact Said.after h hclosed

/-- The entries of lines are what those outside blocks say that are not silent. -/
theorem mem_entriesFrom_iff {number : Nat} {ls : List (List Char)} {e : Entry} :
    e ∈ entriesFrom number ls ↔ Said number ls e := by
  constructor
  · intro h
    induction ls using script_induction generalizing number with
    | nil =>
      rw [entriesFrom] at h
      cases h
    | silent line rest hsilent ih =>
      rw [entriesFrom_silent hsilent] at h
      exact (ih h).next (blockName?_of_silent hsilent)
    | directive line rest hsilent hname ih =>
      rw [entriesFrom_directive hsilent hname] at h
      rcases List.mem_cons.mp h with rfl | h
      · have hsaid := said_first hsilent number rest
        rwa [saidBy, hname] at hsaid
      · exact (ih h).next hname
    | closed line name body last rest hsilent hname hbody hlast ih =>
      rw [entriesFrom_block hsilent hname hbody hlast] at h
      rcases List.mem_cons.mp h with rfl | h
      · have hsaid := said_first hsilent number (body ++ last :: rest)
        rwa [saidBy_block hname hbody _ (by simpa using hlast)] at hsaid
      · have hclosed := blockOpen_closed hname hbody hlast []
        have hlength : number + body.length + 2 = number + (line :: (body ++ [last])).length := by
          simp only [List.length_cons, List.length_append, List.length_nil]
          omega
        rw [hlength] at h
        simpa using (ih h).after hclosed
    | unclosed line name body hsilent hname hbody =>
      rw [entriesFrom_unclosed hsilent hname hbody, List.mem_singleton] at h
      have hsaid := said_first hsilent number body
      have hblock := saidBy_block hname hbody [] (by simp)
      rw [List.append_nil] at hblock
      rwa [hblock, ← h] at hsaid
  · rintro ⟨before, line, after, rfl, hopen, hsilent, rfl⟩
    obtain ⟨others, hothers⟩ := entriesFrom_cons hsilent (number + before.length) after
    rw [entriesFrom_append hopen, hothers]
    simp

/-- The entry with a number of lines in front of its own. -/
def Entry.later (n : Nat) (e : Entry) : Entry :=
  { e with line := n + e.line }

theorem entriesFrom_later (n number : Nat) (ls : List (List Char)) :
    entriesFrom (n + number) ls = (entriesFrom number ls).map (Entry.later n) := by
  induction ls using script_induction generalizing number with
  | nil =>
    rw [entriesFrom, entriesFrom]
    rfl
  | silent line rest hsilent ih =>
    rw [entriesFrom_silent hsilent, entriesFrom_silent hsilent]
    exact ih (number + 1)
  | directive line rest hsilent hname ih =>
    rw [entriesFrom_directive hsilent hname, entriesFrom_directive hsilent hname]
    exact congrArg _ (ih (number + 1))
  | closed line name body last rest hsilent hname hbody hlast ih =>
    rw [entriesFrom_block hsilent hname hbody hlast, entriesFrom_block hsilent hname hbody hlast]
    have hnext := ih (number + body.length + 2)
    rw [← Nat.add_assoc, ← Nat.add_assoc] at hnext
    exact congrArg _ hnext
  | unclosed line name body hsilent hname hbody =>
    rw [entriesFrom_unclosed hsilent hname hbody, entriesFrom_unclosed hsilent hname hbody]
    rfl

section Append

variable {a : String}

/-- A script after whole lines, in which no block is open, has its entries so many lines later. -/
theorem scriptEntries_append (hfeed : ∀ c ∈ a.toList.getLast?, c = '\n')
    (hclosed : blockOpen (lines a.toList) = false) (b : String) :
    scriptEntries (a ++ b) =
      scriptEntries a ++ (scriptEntries b).map (Entry.later (lines a.toList).length) := by
  rw [scriptEntries, String.toList_append, lines_append_of_feed hfeed,
    entriesFrom_append hclosed, Nat.add_comm, entriesFrom_later]
  rfl

theorem directives_append (hfeed : ∀ c ∈ a.toList.getLast?, c = '\n')
    (hclosed : blockOpen (lines a.toList) = false) (b : String) :
    directives (a ++ b) =
      directives a ++ (directives b).map fun d => ((lines a.toList).length + d.1, d.2) := by
  have hlater : ∀ e : Entry, (e.later (lines a.toList).length).outcome = e.outcome := fun _ => rfl
  simp only [directives, scriptEntries_append hfeed hclosed, List.filterMap_append,
    List.filterMap_map, List.map_filterMap, Function.comp_def, Option.map_map, hlater]
  rfl

theorem lineErrors_append (hfeed : ∀ c ∈ a.toList.getLast?, c = '\n')
    (hclosed : blockOpen (lines a.toList) = false) (b : String) :
    lineErrors (a ++ b) =
      lineErrors a ++ (lineErrors b).map fun e =>
        { e with line := (lines a.toList).length + e.line } := by
  simp only [lineErrors, scriptEntries_append hfeed hclosed, List.filterMap_append,
    List.filterMap_map, List.map_filterMap, Function.comp_def, Entry.later]
  congr 2
  funext e
  cases e.outcome with
  | ok d => rfl
  | error cause => rfl

end Append

theorem map_line_directives (source : String) :
    (directives source).map (·.1) =
      ((scriptEntries source).filter (·.outcome.isOk)).map (·.line) := by
  rw [directives, List.map_filterMap, ← List.filterMap_eq_map, List.filterMap_filter]
  congr 1
  funext e
  cases e.outcome with
  | ok d => simp [Except.toOption, Except.isOk, Except.toBool]
  | error cause => simp [Except.toOption, Except.isOk, Except.toBool]

theorem map_line_lineErrors (source : String) :
    (lineErrors source).map (·.line) =
      ((scriptEntries source).filter (!·.outcome.isOk)).map (·.line) := by
  rw [lineErrors, List.map_filterMap, ← List.filterMap_eq_map, List.filterMap_filter]
  congr 1
  funext e
  cases e.outcome with
  | ok d => simp [Except.isOk, Except.toBool]
  | error cause => simp [Except.isOk, Except.toBool]

/-- The lines of the directives and of the errors of a script. -/
def numbers (source : String) : List Nat :=
  (directives source).map (·.1) ++ (lineErrors source).map (·.line)

theorem numbers_perm (source : String) :
    (numbers source).Perm ((scriptEntries source).map (·.line)) := by
  rw [numbers, map_line_directives, map_line_lineErrors, ← List.map_append]
  exact (List.filter_append_perm _ _).map _

theorem numbers_nodup (source : String) : (numbers source).Nodup := by
  have hentries := entriesFrom_pairwise 1 (lines source.toList)
  rw [(numbers_perm source).nodup_iff]
  exact (List.pairwise_map.mpr hentries).imp Nat.ne_of_lt

theorem mem_numbers_iff {source : String} {before after : List (List Char)} {line : List Char}
    (h : lines source.toList = before ++ line :: after) :
    before.length + 1 ∈ numbers source ↔ blockOpen before = false ∧ isSilent line = false := by
  have hentries : ∀ e, e ∈ scriptEntries source ↔ Said 1 (before ++ line :: after) e := fun e => by
    rw [scriptEntries, mem_entriesFrom_iff, h]
  rw [(numbers_perm source).mem_iff, List.mem_map]
  simp only [hentries]
  constructor
  · rintro ⟨e, ⟨before', line', after', hsame, hopen, hsilent, rfl⟩, hline⟩
    have hlength : before.length = before'.length := by
      dsimp only at hline
      omega
    obtain ⟨rfl, hrest⟩ := List.append_inj hsame hlength
    obtain ⟨rfl, -⟩ := List.cons.inj hrest
    exact ⟨hopen, hsilent⟩
  · rintro ⟨hopen, hsilent⟩
    exact ⟨_, ⟨before, line, after, rfl, hopen, hsilent, rfl⟩, Nat.add_comm _ _⟩

/-- The numbers of the directives and of the errors say which lines of a script they are. -/
structure NumbersLines (source : String) : Prop where
  directives_increase : ((directives source).map (·.1)).Pairwise (· < ·)
  errors_increase : ((lineErrors source).map (·.line)).Pairwise (· < ·)
  apart : ∀ d ∈ directives source, ∀ e ∈ lineErrors source, d.1 ≠ e.line
  inside : ∀ n ∈ numbers source, 1 ≤ n ∧ n ≤ (lines source.toList).length
  /-- A line gives one of them, unless it is silent or belongs to a block opened before it. -/
  once : ∀ before line after, lines source.toList = before ++ line :: after →
    (numbers source).count (before.length + 1) = if blockOpen before || isSilent line then 0 else 1

theorem numbersLines (source : String) : NumbersLines source := by
  have hentries := List.pairwise_map.mpr (entriesFrom_pairwise 1 (lines source.toList))
  have hnodup := numbers_nodup source
  refine ⟨?_, ?_, ?_, ?_, ?_⟩
  · rw [map_line_directives]
    exact hentries.sublist (List.filter_sublist.map _)
  · rw [map_line_lineErrors]
    exact hentries.sublist (List.filter_sublist.map _)
  · intro d hd e he
    have hapart := (List.nodup_append.mp hnodup).2.2
    exact hapart d.1 (List.mem_map_of_mem hd) e.line (List.mem_map_of_mem he)
  · intro n hn
    obtain ⟨e, he, rfl⟩ := List.mem_map.mp ((numbers_perm source).mem_iff.mp hn)
    obtain ⟨line, hline, -⟩ := entriesFrom_lineAt he
    exact ⟨hline.index.1, hline.index.2.1⟩
  · intro before line after h
    have hmem := mem_numbers_iff h
    split
    next hquiet =>
      refine List.count_eq_zero.mpr fun hn => ?_
      simp [hmem.mp hn] at hquiet
    next hsays =>
      refine List.count_eq_one_of_mem hnodup (hmem.mpr ?_)
      simpa using hsays

/--
A script after whole lines in which every block has its end says what it says alone, so many lines
later, and every line outside blocks that is not silent gives one directive or one error, with its
own number.
-/
theorem script_read_line_by_line :
    (∀ a b : String, a = "" ∨ a.toList.getLast? = some '\n' →
      blockOpen (lines a.toList) = false →
      let n := (lines a.toList).length
      directives (a ++ b) = directives a ++ (directives b).map (fun d => (n + d.1, d.2)) ∧
        lineErrors (a ++ b) =
          lineErrors a ++ (lineErrors b).map fun e => { e with line := n + e.line }) ∧
      ∀ source, NumbersLines source := by
  refine ⟨fun a b hfeed hclosed => ?_, numbersLines⟩
  have hfeed' : ∀ c ∈ a.toList.getLast?, c = '\n' := by
    rcases hfeed with rfl | hfeed
    · simp
    · rw [hfeed]
      simp
  exact ⟨directives_append hfeed' hclosed b, lineErrors_append hfeed' hclosed b⟩

/-- A block with an empty line in it and a line in error, before a comment and such a line. -/
theorem script_read_line_by_line_block :
    let a := "set x 1\n__b__\nset y \"\n\n __end__ \nset\n"
    let b := "# c\r\nrun t \"\n__end__ 2"
    a.toList.getLast? = some '\n' ∧ blockOpen (lines a.toList) = false ∧
      directives (a ++ b) =
        [(1, .set "x" (.int 1)), (2, .block "b" "set y \"\n"), (9, .command "__end__" ["2"])] ∧
      lineErrors (a ++ b) =
        [⟨6, .missingArgument "set"⟩, ⟨8, .unterminatedQuote "run t \""⟩] := by
  intro a b
  have hfeed : a.toList.getLast? = some '\n' := by decide
  have hclosed : blockOpen (lines a.toList) = false := by decide +kernel
  obtain ⟨hdirectives, herrors⟩ := script_read_line_by_line.1 a b (.inr hfeed) hclosed
  exact ⟨hfeed, hclosed, hdirectives.trans (by cbv), herrors.trans (by cbv)⟩

end TrialLoop
