import TrialLoop.Proofs.Command.QuotedName
import TrialLoop.Proofs.Command.RoundTrip

namespace TrialLoop

namespace Command

/-- All arguments of a command. -/
def values (command : Command) : List Value :=
  command.positional ++ command.keywords.map (·.2)

/-- The name is a word that is read as it stands. -/
structure HasWordName (command : Command) : Prop where
  words : words command.name = .ok [command.name]
  unquote : unquote command.name = command.name

/-- What a line can give: keywords that are names, and texts and numbers as arguments. -/
structure IsRead (command : Command) : Prop where
  keywords : ∀ p ∈ command.keywords, IsKeyword p.1
  values : ∀ v ∈ command.values, v.IsArgument ∨ ∃ x, v = .float x

end Command

theorem isKeyword_of_splitKeyword? {cs key value : List Char}
    (h : splitKeyword? cs = some (key, value)) : IsKeyword (String.ofList key) := by
  unfold splitKeyword? at h
  split at h
  next c key' value' hkey hvalue =>
    split at h
    next => cases h
    next hdigit =>
      cases h
      have hall : ∀ d ∈ c :: key', isNameChar d = true := by
        rw [← hkey]
        exact List.all_eq_true.mp List.all_takeWhile
      have hname : ∀ d ∈ c :: key', d.isAlphanum = true ∨ d = '_' := by
        intro d hd
        simpa [isNameChar] using hall d hd
      refine ⟨c, key', by simp, ?_, fun d hd => hname d (by simp [hd])⟩
      refine (hname c (by simp)).imp_left fun ha => ?_
      simpa [Char.isAlphanum, hdigit] using ha
  next => cases h

theorem argumentValue_read (s : String) :
    (argumentValue s).IsArgument ∨ ∃ x, argumentValue s = .float x := by
  unfold argumentValue
  split
  next => exact .inl (.str _)
  next =>
    unfold Value.ofText Value.readNumber?
    cases Numeral.read? (trim s.toList) with
    | none => exact .inl (.str _)
    | some n =>
      simp only [Option.map_some, Option.getD_some]
      split
      next i _ => exact .inl (.int i)
      next => exact .inr ⟨_, rfl⟩

namespace Command

theorem IsRead.addWord {command : Command} (h : command.IsRead) (word : String) :
    (addWord word command).IsRead := by
  have hvalue := argumentValue_read
  unfold Command.addWord
  split
  next key value hk =>
    refine ⟨List.forall_mem_cons.mpr ⟨isKeyword_of_splitKeyword? hk, h.keywords⟩, ?_⟩
    intro v hv
    rcases List.mem_append.mp hv with hv | hv
    · exact h.values v (List.mem_append_left _ hv)
    rcases List.mem_cons.mp hv with rfl | hv
    · exact hvalue _
    · exact h.values v (List.mem_append_right _ hv)
  next =>
    refine ⟨h.keywords, ?_⟩
    exact List.forall_mem_cons.mpr ⟨hvalue word, h.values⟩

theorem exists_words_of_read {line : String} {command : Command} (h : read line = .ok command) :
    ∃ name arguments, words line = .ok (name :: arguments) ∧
      command = arguments.foldr addWord { name := unquote name } := by
  cases hw : words line with
  | error e => simp [read, hw, bind, Except.bind] at h
  | ok ws =>
    cases ws with
    | nil => simp [read, hw, bind, Except.bind] at h
    | cons name arguments =>
      refine ⟨name, arguments, rfl, ?_⟩
      simpa [read, hw, bind, Except.bind, eq_comm] using h

theorem isRead_of_read {line : String} {command : Command} (h : read line = .ok command) :
    command.IsRead := by
  obtain ⟨name, arguments, -, rfl⟩ := exists_words_of_read h
  clear h
  induction arguments with
  | nil => exact ⟨by simp, by simp [values]⟩
  | cons word arguments ih => exact ih.addWord word

theorem foldr_addWord_name (arguments : List String) (command : Command) :
    (arguments.foldr addWord command).name = command.name := by
  induction arguments with
  | nil => rfl
  | cons word arguments ih =>
    rw [List.foldr_cons, ← ih]
    unfold addWord
    split <;> rfl

theorem length_values_foldr (arguments : List String) (command : Command) :
    (arguments.foldr addWord command).values.length =
      arguments.length + command.values.length := by
  induction arguments with
  | nil => simp
  | cons word arguments ih =>
    have hstep : ∀ c : Command, (addWord word c).values.length = c.values.length + 1 := by
      intro c
      unfold addWord
      split
      · simp [values, Nat.add_assoc]
      · simp [values]
    rw [List.foldr_cons, hstep, ih, List.length_cons]
    omega

theorem length_argumentWords (command : Command) :
    command.argumentWords.length = command.values.length := by
  simp [argumentWords, values]

theorem argumentWords_head {command : Command} (h : ∀ p ∈ command.keywords, IsKeyword p.1) :
    ∀ w ∈ command.argumentWords.map String.toList,
      ∀ c ∈ w.head?, isBlank c = false ∧ c ≠ '\\' := by
  intro w hw c hc
  obtain ⟨s, hs, rfl⟩ := List.mem_map.mp hw
  rcases List.mem_append.mp hs with hs | hs
  · obtain ⟨v, -, rfl⟩ := List.mem_map.mp hs
    rcases argumentText_written v with hbare | ⟨s, hquote⟩
    · have hc' := hbare.2 c (List.mem_of_mem_head? hc)
      exact ⟨hc'.1, hc'.2.2.2⟩
    · rw [hquote, toList_quote] at hc
      exact Option.some.inj hc ▸ by decide
  · obtain ⟨⟨key, v⟩, hp, rfl⟩ := List.mem_map.mp hs
    obtain ⟨d, key', hkey, -⟩ := id (h _ hp)
    have hd := bare_of_nameChar (isNameChar_of_keyword (h _ hp) (hkey ▸ List.mem_cons_self))
    have hcd : d = c := by simpa [hkey] using hc
    exact hcd ▸ ⟨hd.1, hd.2.2.2⟩

theorem reread_eq_iff (command : Command) :
    command.reread = command ↔ ∀ v ∈ command.values, v.reread = v := by
  have hparts : command.reread = command ↔
      command.positional.map Value.reread = command.positional.map id ∧
        (command.keywords.map fun p => (p.1, p.2.reread)) = command.keywords.map id := by
    rw [List.map_id, List.map_id]
    cases command
    simp [reread]
  rw [hparts, List.map_inj_left, List.map_inj_left]
  simp only [values, List.forall_mem_append, List.forall_mem_map, id, Prod.ext_iff, true_and]

theorem hasWordName_iff (command : Command) :
    command.HasWordName ↔ command.name ≠ "" ∧ GoesOn [] command.name.toList ∧
      enclosingMark? command.name.toList = none := by
  constructor
  · rintro ⟨hwords, hunquote⟩
    obtain ⟨before, rest, hw, -⟩ := wordsFrom_first (words_eq_ok.mp hwords)
    exact ⟨by simpa using hw.ne, hw.goesOn, unquote_eq_self_iff.mp hunquote⟩
  · rintro ⟨hne, hgo, hmark⟩
    have hline := @wordsFrom_line command.name.toList [] (by simpa using And.intro hne hgo)
    exact ⟨words_eq_ok.mpr (by simpa using hline), unquote_eq_self_iff.mpr hmark⟩

/-- A command with a word as name that was written is read with its arguments read anew. -/
theorem read_text_reread {command : Command} (hname : command.HasWordName)
    (h : ∀ p ∈ command.keywords, IsKeyword p.1) : read command.text = .ok command.reread := by
  obtain ⟨hne, hgo, -⟩ := (hasWordName_iff command).mp hname
  have hread : read command.text =
      .ok (command.argumentWords.foldr addWord { name := TrialLoop.unquote command.name }) := by
    unfold read
    rw [words_text_of_goesOn hne hgo h]
    rfl
  rw [hread, foldr_argumentWords h, hname.unquote]
  rfl

theorem hasWordName_of_read_text {command : Command}
    (hkeywords : ∀ p ∈ command.keywords, IsKeyword p.1)
    (h : read command.text = .ok command) : command.HasWordName := by
  obtain ⟨name, arguments, hwords, hcommand⟩ := exists_words_of_read h
  have hname : command.name = TrialLoop.unquote name := by
    rw [hcommand, foldr_addWord_name]
  have hlen : arguments.length = command.argumentWords.length := by
    rw [length_argumentWords, hcommand, length_values_foldr]
    rfl
  have hline := words_eq_ok.mp hwords
  cases hmark : enclosingMark? name.toList with
  | none =>
    obtain rfl : command.name = name := by simpa [TrialLoop.unquote, hmark] using hname
    obtain ⟨_, _, hw, -⟩ := wordsFrom_first hline
    exact (hasWordName_iff command).mpr ⟨by simpa using hw.ne, hw.goesOn, hmark⟩
  | some mark =>
    -- The name in the line would have taken in an argument.
    obtain ⟨hq, inner, hinner, htext⟩ := exists_enclosed hmark
    rw [toList_text, hname, htext, List.map_cons, hinner] at hline
    have hshort := length_words_of_quoted hq (argumentWords_goOn hkeywords)
      (argumentWords_head hkeywords) hline
    simp [hlen] at hshort

/--
A command that was read from a line and then written is read as the same command exactly if its
name is a word that is read as it stands, and each double among its arguments is read as itself.
-/
theorem read_text_eq_iff {line : String} {command : Command} (h : read line = .ok command) :
    read command.text = .ok command ↔ command.HasWordName ∧
      ∀ x, .float x ∈ command.values → (Value.float x).reread = .float x := by
  have hread := isRead_of_read h
  constructor
  · intro htext
    have hname := hasWordName_of_read_text hread.keywords htext
    have hsame := (read_text_reread hname hread.keywords).symm.trans htext
    exact ⟨hname, fun x hx => (reread_eq_iff command).mp (Except.ok.inj hsame) _ hx⟩
  · rintro ⟨hname, hfloat⟩
    rw [read_text_reread hname hread.keywords]
    refine congrArg Except.ok ((reread_eq_iff command).mpr ?_)
    intro v hv
    rcases hread.values v hv with harg | ⟨x, rfl⟩
    · exact harg.reread_eq
    · exact hfloat x hv

end Command

namespace Value

/-- A double that is written as an integer of 16 to 21 digits. -/
structure IsWrittenWhole (x : Float) : Prop where
  nan : x.isNaN = false
  inf : x.isInf = false
  zero : (x == 0.0) = false
  exponent : 0 ≤ (shortestDecimal x).exponent
  least : 15 ≤ (digits (shortestDecimal x).coefficient).length - 1 + (shortestDecimal x).exponent
  most : (digits (shortestDecimal x).coefficient).length - 1 + (shortestDecimal x).exponent < 21

theorem reread_float (x : Float) : (float x).reread = ofText (floatText .argument x) :=
  (isBare_floatText .argument x).argumentValue

/-- A whole double without a point in its text comes back as an integer, if 64 bits hold it. -/
theorem reread_writtenWhole {x : Float} (h : IsWrittenWhole x) {n : Int64}
    (hn : n.toInt = signed (hasMinus x)
      ((shortestDecimal x).coefficient * 10 ^ (shortestDecimal x).exponent.toNat)) :
    (float x).reread = int n := by
  have hmagnitude : magnitudeText .argument x = digits (shortestDecimal x).coefficient ++
      List.replicate (shortestDecimal x).exponent.toNat '0' := by
    have hlowest : FloatStyle.argument.lowest ≤
        (digits (shortestDecimal x).coefficient).length - 1 + (shortestDecimal x).exponent :=
      Int.le_trans (by decide) h.least
    rw [magnitudeText, if_neg (Bool.eq_false_iff.mp h.inf), if_neg (Bool.eq_false_iff.mp h.zero),
      Decimal.text_whole h.exponent hlowest h.least h.most]
  have hdigit : ∀ d ∈ digits (shortestDecimal x).coefficient ++
      List.replicate (shortestDecimal x).exponent.toNat '0', d.isDigit = true := by
    intro d hd
    rcases List.mem_append.mp hd with hd | hd
    · exact isDigit_of_mem_digits hd
    · exact List.eq_of_mem_replicate hd ▸ by decide
  have hread := readNumber?_signedDigits (by simp [digits_ne_nil]) hdigit
    (hn.trans (by rw [digitsValue_append_zeros, digitsValue_digits]))
  rw [reread_float, floatText_eq, if_neg (Bool.eq_false_iff.mp h.nan), hmagnitude, ofText, hread]
  rfl

theorem reread_infinite {x : Float} (hnan : x.isNaN = false) (hinf : x.isInf = true) :
    (float x).reread = str (if hasMinus x then "-inf" else "inf") := by
  have htext : floatText .argument x = if hasMinus x then "-inf" else "inf" := by
    rw [floatText_eq, if_neg (Bool.eq_false_iff.mp hnan), magnitudeText, if_pos hinf]
    cases hasMinus x <;> rfl
  rw [reread_float, htext]
  cases hasMinus x <;> rfl

end Value

namespace Command

/-- A name in quotes loses them, and is then read as a name and an argument. -/
theorem read_text_quotedName : read "\"a b\"" = .ok { name := "a b" } ∧
    read (text { name := "a b" }) = .ok { name := "a", positional := [.str "b"] } :=
  ⟨rfl, rfl⟩

set_option maxRecDepth 4000 in
theorem read_text_wholeArgument : read "x 1e15" = .ok { name := "x", positional := [.float 1e15] } ∧
    read (text { name := "x", positional := [.float 1e15] }) =
      .ok { name := "x", positional := [.int 1000000000000000] } := by
  have hwhole : Value.IsWrittenWhole 1e15 := by
    constructor <;> decide +kernel
  have hvalue : (Value.float 1e15).reread = .int 1000000000000000 :=
    Value.reread_writtenWhole hwhole (by decide +kernel)
  refine ⟨rfl, (read_text_reread ⟨rfl, rfl⟩ (by simp)).trans ?_⟩
  simp [reread, hvalue]

set_option maxRecDepth 4000 in
theorem read_text_infinity :
    read "x 1e999" = .ok { name := "x", positional := [.float (1.0 / 0.0)] } ∧
      read (text { name := "x", positional := [.float (1.0 / 0.0)] }) =
        .ok { name := "x", positional := [.str "inf"] } := by
  have hsign : hasMinus (1.0 / 0.0) = false := by decide +kernel
  have hvalue : (Value.float (1.0 / 0.0)).reread = .str "inf" := by
    rw [Value.reread_infinite (by decide +kernel) (by decide +kernel), hsign]
    rfl
  refine ⟨rfl, (read_text_reread ⟨rfl, rfl⟩ (by simp)).trans ?_⟩
  simp [reread, hvalue]

end Command

end TrialLoop
