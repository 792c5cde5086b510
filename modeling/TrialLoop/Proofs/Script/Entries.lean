import TrialLoop.Proofs.Command.Quoted
import TrialLoop.Script.Basic

namespace TrialLoop

theorem entriesFrom_silent {line : List Char} (h : isSilent line = true) (number : Nat)
    (rest : List (List Char)) :
    entriesFrom number (line :: rest) = entriesFrom (number + 1) rest := by
  rw [entriesFrom, if_pos h]

theorem entriesFrom_directive {line : List Char} (h : isSilent line = false)
    (hname : blockName? (trim line) = none) (number : Nat) (rest : List (List Char)) :
    entriesFrom number (line :: rest) =
      ⟨number, Directive.ofLine (String.ofList (trim line))⟩ :: entriesFrom (number + 1) rest := by
  rw [entriesFrom, if_neg (by simp [h]), hname]

/-- A block takes all lines up to the one that ends it. -/
theorem entriesFrom_block {line : List Char} {name : String} (h : isSilent line = false)
    (hname : blockName? (trim line) = some name) {body : List (List Char)}
    (hbody : ∀ l ∈ body, endsBlock l = false) {last : List Char} (hlast : endsBlock last = true)
    (number : Nat) (rest : List (List Char)) :
    entriesFrom number (line :: (body ++ last :: rest)) =
      ⟨number, .ok (.block name (String.ofList (joinLines body)))⟩ ::
        entriesFrom (number + body.length + 2) rest := by
  have htake : (body ++ last :: rest).takeWhile (fun l => !endsBlock l) = body :=
    (takeWhile_run (fun l hl => by simp [hbody l hl]) (last :: rest)
      (fun l hl => by cases hl; simp [hlast])).1
  have hdrop : (body ++ last :: rest).drop (body.length + 1) = rest := by
    rw [List.drop_append]
    simp
  rw [entriesFrom, if_neg (by simp [h]), hname]
  simp only [htake, hdrop]

theorem entriesFrom_blanks (number n : Nat) : entriesFrom number (List.replicate n []) = [] := by
  induction n generalizing number with
  | zero => rw [List.replicate_zero, entriesFrom]
  | succ n ih =>
    have hblank : isSilent [] = true := rfl
    rw [List.replicate_succ, entriesFrom_silent hblank, ih]

/-- A line that has no blanks around it and that says one thing, whatever stands around it. -/
structure Tells (line : String) (d : Directive) : Prop where
  isLine : IsLine line.toList
  trim_eq : trim line.toList = line.toList
  silent : isSilent line.toList = false
  block : blockName? line.toList = none
  directive : Directive.ofLine line = .ok d

theorem Tells.ne_nil {line : String} {d : Directive} (h : Tells line d) : line.toList ≠ [] := by
  intro hnil
  have hsilent := h.silent
  rw [hnil] at hsilent
  cases hsilent

/-- A line of words tells what it says if its first word opens neither a comment nor a block. -/
theorem tells_wordLine {first : String} {others : List String} {d : Directive}
    (hwords : ∀ w ∈ first :: others, IsWord w)
    (hfeed : ∀ w ∈ first :: others, '\n' ∉ w.toList)
    (hhead : first.toList.head? ≠ some '#' ∧ first.toList.head? ≠ some '_')
    (hd : Directive.ofLine (wordLine first others) = .ok d) : Tells (wordLine first others) d := by
  have htrim := trim_wordLine hwords
  obtain ⟨c, cs, hfirst⟩ := List.exists_cons_of_ne_nil (hwords first List.mem_cons_self).ne_nil
  rw [hfirst, List.head?_cons] at hhead
  exact {
    isLine := isLine_wordLine hwords hfeed
    trim_eq := htrim
    silent := by
      rw [isSilent, htrim, toList_wordLine, hfirst]
      exact beq_false_of_ne fun hc => hhead.1 (congrArg some hc)
    block := by
      rw [toList_wordLine, hfirst, List.cons_append, blockName?]
      exact fun _ hc => hhead.2 (congrArg some (List.cons.inj hc).1)
    directive := hd }

section Tells

variable {α : Type} {as : List α} {line : α → String} {d : α → Directive}

/-- Such lines say so one after the other. -/
theorem entriesFrom_tells (h : ∀ a ∈ as, Tells (line a) (d a)) (number : Nat)
    (rest : List (List Char)) :
    entriesFrom number ((as.map fun a => (line a).toList) ++ rest) =
      ((as.zipIdx number).map fun p => ⟨p.2, .ok (d p.1)⟩) ++
        entriesFrom (number + as.length) rest := by
  induction as generalizing number with
  | nil => rfl
  | cons a as ih =>
    obtain ⟨ha, has⟩ := List.forall_mem_cons.mp h
    have hblock : blockName? (trim (line a).toList) = none := by rw [ha.trim_eq, ha.block]
    rw [List.map_cons, List.cons_append, entriesFrom_directive ha.silent hblock, ha.trim_eq,
      String.ofList_toList, ha.directive, ih has, List.zipIdx_cons, List.map_cons,
      List.length_cons, List.cons_append, Nat.add_assoc, Nat.add_comm 1]

theorem scriptEntries_tells (h : ∀ a ∈ as, Tells (line a) (d a)) {source : String}
    (hlines : lines source.toList = as.map fun a => (line a).toList) :
    scriptEntries source = (as.zipIdx 1).map fun p => ⟨p.2, .ok (d p.1)⟩ := by
  have hentries := entriesFrom_tells h 1 []
  rw [entriesFrom, List.append_nil, List.append_nil] at hentries
  rw [scriptEntries, hlines, hentries]

theorem lines_tells (h : ∀ a ∈ as, Tells (line a) (d a)) :
    lines ("\n".intercalate (as.map line)).toList = as.map fun a => (line a).toList := by
  rw [toList_intercalate_feed, List.map_map]
  exact lines_joinLines_of_ne_nil
    (List.forall_mem_map.mpr fun a ha => ⟨(h a ha).isLine, (h a ha).ne_nil⟩)

end Tells

theorem Tells.lines_eq {line : String} {d : Directive} (h : Tells line d) :
    lines line.toList = [line.toList] :=
  lines_joinLines_of_ne_nil (List.forall_mem_singleton.mpr ⟨h.isLine, h.ne_nil⟩)

/-- One such line is a script that says one thing. -/
theorem Tells.scriptEntries_eq {line : String} {d : Directive} (h : Tells line d) :
    scriptEntries line = [⟨1, .ok d⟩] :=
  @scriptEntries_tells Unit [()] (fun _ => line) (fun _ => d) (fun _ _ => h) line h.lines_eq

theorem tells_setting {name value : String} (hname : '\n' ∉ name.toList)
    (hvalue : '\n' ∉ value.toList) :
    Tells (quotedLine "set" name value) (.set name (.str value)) := by
  have hline := ofLine_quotedLine name value
  rw [quotedLine_eq] at hline ⊢
  refine tells_wordLine (isWord_of_mem_quotedLine (by decide)) ?_ (by decide) hline
  simp [feed_mem_quote, hname, hvalue]

/-- The lines that set variables to texts. -/
def settingLines (vars : List (String × String)) : List (List Char) :=
  vars.map fun p => (quotedLine "set" p.1 p.2).toList

/-- Lines that set variables, and empty lines after them. -/
theorem scriptEntries_settings {vars : List (String × String)}
    (h : ∀ p ∈ vars, '\n' ∉ p.1.toList ∧ '\n' ∉ p.2.toList) (n : Nat) :
    scriptEntries (String.ofList (joinLines (settingLines vars ++ List.replicate n []))) =
      (vars.zipIdx 1).map fun p => ⟨p.2, .ok (.set p.1.1 (.str p.1.2))⟩ := by
  have htells : ∀ p ∈ vars, Tells (quotedLine "set" p.1 p.2) (.set p.1 (.str p.2)) := fun p hp =>
    tells_setting (h p hp).1 (h p hp).2
  have hlines : ∀ l ∈ settingLines vars, IsLine l ∧ l ≠ [] :=
    List.forall_mem_map.mpr fun p hp => ⟨(htells p hp).isLine, by simp [toList_quotedLine]⟩
  rw [scriptEntries, String.toList_ofList, lines_joinLines_replicate hlines, settingLines,
    entriesFrom_tells htells, entriesFrom_blanks, List.append_nil]

/-- A script of which each entry is a directive has these directives. -/
theorem directives_of_entries {source : String} {ds : List (Nat × Directive)}
    (h : scriptEntries source = ds.map fun d => ⟨d.1, .ok d.2⟩) : directives source = ds := by
  rw [directives, h, List.filterMap_map]
  exact List.filterMap_some

theorem lineErrors_of_entries {source : String} {ds : List (Nat × Directive)}
    (h : scriptEntries source = ds.map fun d => ⟨d.1, .ok d.2⟩) : lineErrors source = [] := by
  rw [lineErrors, h, List.filterMap_map]
  exact List.filterMap_eq_nil_iff.mpr fun _ _ => rfl

end TrialLoop
