import TrialLoop.Proofs.Experiment.Parts
import TrialLoop.Proofs.Interpolation.Segments
import TrialLoop.Proofs.Number.Numeral
import TrialLoop.Proofs.Number.ShownText

namespace TrialLoop

/-- The characters are digits, of which there is one at least. -/
def IsCount (cs : List Char) : Prop :=
  cs ≠ [] ∧ ∀ c ∈ cs, c.isDigit = true

/-- The characters are two counts and an exponent mark between them. -/
def IsExponential (cs : List Char) : Prop :=
  ∃ ds mark es, cs = ds ++ mark :: es ∧ IsCount ds ∧ (mark = 'e' ∨ mark = 'E') ∧ IsCount es

namespace ReferenceName

/-- The name as a text, under which the variable is looked up. -/
def key (name : ReferenceName) : String :=
  String.ofList name.chars

theorem isBare_key (name : ReferenceName) : IsBare name.key := by
  refine ⟨?_, ?_⟩
  · simpa [key] using name.ne_nil
  · rw [key, String.toList_ofList]
    exact fun c hc => bare_of_nameChar (name.all_nameChar c hc)

theorem splitSign_of_nameChars {cs : List Char} (h : ∀ c ∈ cs, isNameChar c = true) :
    splitSign cs = (false, cs) := by
  refine splitSign_of_head fun c hc => ?_
  have hname := h c (List.mem_of_head? hc)
  constructor <;> (rintro rfl; exact absurd hname (by decide))

/-- A name has no sign and no point, so that it starts with its digits. -/
theorem read?_chars (name : ReferenceName) :
    Numeral.read? name.chars =
      let whole := name.chars.takeWhile Char.isDigit
      if whole = [] then none
      else (exponentPart? (name.chars.dropWhile Char.isDigit)).map (⟨false, whole, none, ·⟩) := by
  have hpoint : ∀ after, name.chars.dropWhile Char.isDigit ≠ '.' :: after := by
    intro after he
    have hmem : '.' ∈ name.chars :=
      (List.dropWhile_sublist _).subset (he ▸ List.mem_cons_self)
    exact absurd (name.all_nameChar '.' hmem) (by decide)
  rw [Numeral.read?, splitSign_of_nameChars name.all_nameChar]
  dsimp only
  split
  next after he => exact absurd he (hpoint after)
  next => rfl

/-- A name that is read as a number is a count, or two with an exponent mark between them. -/
theorem isCount_or_isExponential_of_read {name : ReferenceName} {n : Numeral}
    (h : Numeral.read? name.chars = some n) :
    IsCount name.chars ∨ IsExponential name.chars := by
  rw [read?_chars] at h
  dsimp only at h
  split at h
  next => cases h
  next hwhole =>
    obtain ⟨e, he, rfl⟩ := Option.map_eq_some_iff.mp h
    have hdigits : IsCount (name.chars.takeWhile Char.isDigit) :=
      ⟨hwhole, List.all_eq_true.mp List.all_takeWhile⟩
    have hchars := @List.takeWhile_append_dropWhile _ Char.isDigit name.chars
    cases hrest : name.chars.dropWhile Char.isDigit with
    | nil =>
      rw [hrest, List.append_nil] at hchars
      exact .inl (hchars ▸ hdigits)
    | cons mark es =>
      rw [hrest] at he hchars
      have hname : ∀ c ∈ es, isNameChar c = true := fun c hc =>
        name.all_nameChar c (hchars ▸ List.mem_append_right _ (List.mem_cons_of_mem mark hc))
      obtain ⟨hmark, hne, hall, rfl⟩ := exponentPart?_cons he
      rw [splitSign_of_nameChars hname] at hne hall
      exact .inr ⟨_, mark, es, hchars.symm, hdigits, hmark, hne, hall⟩

theorem read?_of_isCount {name : ReferenceName} (h : IsCount name.chars) :
    Numeral.read? name.chars = some ⟨false, name.chars, none, none⟩ :=
  @Numeral.read?_signedDigits false name.chars h.1 h.2

theorem read?_of_isExponential {name : ReferenceName} (h : IsExponential name.chars) :
    ∃ n, Numeral.read? name.chars = some n ∧ n.exponent.isSome := by
  obtain ⟨ds, mark, es, hchars, hds, hmark, hes⟩ := h
  have hstop : ∀ c ∈ (mark :: es).head?, c.isDigit = false := by
    rintro c ⟨⟩
    rcases hmark with rfl | rfl <;> rfl
  obtain ⟨htake, hdrop⟩ := takeWhile_run hds.2 (mark :: es) hstop
  have hexponent : exponentPart? (mark :: es) = some (some (signed false (exponentValue es))) := by
    rw [exponentPart?, splitSign_digits hes.2]
    exact if_pos ⟨hmark, hes.1, List.all_eq_true.mpr hes.2⟩
  refine ⟨⟨false, ds, none, some (signed false (exponentValue es))⟩, ?_, rfl⟩
  rw [read?_chars, hchars, htake, hdrop, hexponent]
  exact if_neg hds.1

theorem ofText_key (name : ReferenceName) :
    Value.ofText name.key =
      ((Numeral.read? name.chars).map Numeral.value).getD (.str name.key) := by
  have htrim : trim name.key.toList = name.key.toList :=
    trim_eq_self_of_all fun c hc => (name.isBare_key.2 c hc).1
  rw [Value.ofText, readNumber?_of_trim htrim, key, String.toList_ofList]

/-- A count is the text of its number, or of the nearest double if 64 bits do not hold it. -/
theorem text_ofText_of_isCount {name : ReferenceName} (h : IsCount name.chars) :
    (Value.ofText name.key).text =
      if digitsValue name.chars < 2 ^ 63 then String.ofList (digits (digitsValue name.chars))
      else floatText .shown (Numeral.float ⟨false, name.chars, none, none⟩) := by
  rw [ofText_key, read?_of_isCount h, Option.map_some, Option.getD_some]
  split
  next hsmall =>
    have hword := wordValue?_eq_some h.2 (Nat.lt_trans hsmall (by decide))
    have hfit := fit?_eq_some_iff.mp (@fit?_eq_some (digitsValue name.chars) (by omega) (by omega))
    have hint : Numeral.int? ⟨false, name.chars, none, none⟩ =
        some (Int64.ofInt (digitsValue name.chars)) :=
      Numeral.int?_eq_some_iff.mpr ⟨rfl, rfl, _, hword, hfit⟩
    rw [Numeral.value, hint, Value.text, hfit, intText_natCast]
  next hlarge =>
    have hint : Numeral.int? ⟨false, name.chars, none, none⟩ = none := by
      refine Option.eq_none_iff_forall_ne_some.mpr fun i hi => ?_
      obtain ⟨-, -, m, hm, him⟩ := Numeral.int?_eq_some_iff.mp hi
      have hvalue : m = digitsValue name.chars := wordValue?_value hm
      have hlt := i.toInt_lt
      have hsigned : i.toInt = m := him
      omega
    rw [Numeral.value, hint, Value.text]

/-- A name with an exponent mark is a double, which is shown without one. -/
theorem text_ofText_of_isExponential {name : ReferenceName} (h : IsExponential name.chars) :
    (Value.ofText name.key).text ≠ name.key := by
  obtain ⟨n, hread, hexponent⟩ := read?_of_isExponential h
  have hint : n.int? = none := by
    refine Option.eq_none_iff_forall_ne_some.mpr fun i hi => ?_
    obtain ⟨-, hnone, -⟩ := Numeral.int?_eq_some_iff.mp hi
    simp [hnone] at hexponent
  rw [ofText_key, hread, Option.map_some, Option.getD_some, Numeral.value, hint, Value.text]
  intro htext
  obtain ⟨ds, mark, es, hchars, hds, hmark, -⟩ := h
  have hkey : (floatText .shown n.float).toList = ds ++ mark :: es := by
    rw [htext, key, String.toList_ofList, hchars]
  obtain ⟨d, rest, rfl⟩ := List.exists_cons_of_ne_nil hds.1
  have hmark' : mark.isDigit = false ∧ mark ≠ '.' ∧ mark ≠ '-' := by
    rcases hmark with rfl | rfl <;> decide
  have hhead := @head_floatText_shown n.float mark hmark' (by simp [hkey]) d (by simp [hkey])
  exact absurd (hds.2 d List.mem_cons_self) (by simp [hhead])

/-- A name that is no number is a text. -/
theorem text_ofText_of_other {name : ReferenceName} (hcount : ¬IsCount name.chars)
    (hexponential : ¬IsExponential name.chars) : (Value.ofText name.key).text = name.key := by
  rw [ofText_key]
  cases hread : Numeral.read? name.chars with
  | none => rw [Option.map_none, Option.getD_none, Value.text]
  | some n =>
    rcases isCount_or_isExponential_of_read hread with h | h
    · exact absurd h hcount
    · exact absurd h hexponential

/--
The variable of this name can be set by its bare name: it has no exponent mark between digits, and
if it is a number it has no zeros in front and is shown as itself.
-/
def IsSettable (name : ReferenceName) : Prop :=
  ¬IsExponential name.chars ∧ (IsCount name.chars →
    if digitsValue name.chars < 2 ^ 63 then name.chars = ['0'] ∨ name.chars.head? ≠ some '0'
    else floatText .shown (Numeral.float ⟨false, name.chars, none, none⟩) = name.key)

/-- These are the names that are the texts of the values that they are read as. -/
theorem text_ofText_eq_iff (name : ReferenceName) :
    (Value.ofText name.key).text = name.key ↔ name.IsSettable := by
  unfold IsSettable
  by_cases hexponential : IsExponential name.chars
  · exact iff_of_false (text_ofText_of_isExponential hexponential) fun h => h.1 hexponential
  by_cases hcount : IsCount name.chars
  · rw [text_ofText_of_isCount hcount]
    split
    next hsmall =>
      have hkey : String.ofList (digits (digitsValue name.chars)) = name.key ↔
          digits (digitsValue name.chars) = name.chars := by
        rw [key, String.ofList_inj]
      rw [hkey, digits_digitsValue_iff hcount.2 hcount.1]
      simp [hexponential, hcount]
    next hlarge => simp [hexponential, hcount]
  · exact iff_of_true (text_ofText_of_other hcount hexponential)
      ⟨hexponential, fun h => absurd h hcount⟩

/-- A name that starts with no digit is one of them. -/
theorem isSettable_of_head {name : ReferenceName}
    (h : ∀ c ∈ name.chars.head?, c.isDigit = false) : name.IsSettable := by
  have hdigit {ds rest : List Char} (hds : IsCount ds) : name.chars ≠ ds ++ rest := by
    rintro he
    obtain ⟨d, ds, rfl⟩ := List.exists_cons_of_ne_nil hds.1
    have hd := h d (by simp [he])
    exact absurd (hds.2 d List.mem_cons_self) (by simp [hd])
  refine ⟨?_, fun hcount => absurd (List.append_nil _).symm (hdigit hcount)⟩
  rintro ⟨ds, mark, es, hchars, hds, -⟩
  exact hdigit hds hchars

/-- The line that sets the variable to a text by its bare name. -/
def setLine (name : ReferenceName) (v : String) : String :=
  "set " ++ name.key ++ " " ++ quote v

variable (name : ReferenceName) (v : String)

theorem setLine_eq : name.setLine v = wordLine "set" [name.key, quote v] := by
  simp [setLine, wordLine, String.ext_iff]

theorem isWord_of_mem_setLine : ∀ w ∈ ["set", name.key, quote v], IsWord w := by
  simp only [List.forall_mem_cons]
  exact ⟨.inl (by decide), .inl name.isBare_key, isWord_quote v, by simp⟩

/-- The line sets the variable whose name is the text of what the name is read as. -/
theorem ofLine_setLine : Directive.ofLine (name.setLine v) =
    .ok (.set (Value.ofText name.key).text (.str v)) := by
  rw [setLine_eq]
  exact ofLine_setWord (.inl name.isBare_key) (Command.addWord_bare name.isBare_key) v

variable {v}

theorem tells_setLine (h : '\n' ∉ v.toList) :
    Tells (name.setLine v) (.set (Value.ofText name.key).text (.str v)) := by
  have hkey := name.isBare_key.feed_not_mem
  have hline := name.ofLine_setLine v
  rw [setLine_eq] at hline ⊢
  refine tells_wordLine (name.isWord_of_mem_setLine v) ?_ (by decide) hline
  simp [hkey, feed_mem_quote, h]

theorem ofText_setLine (h : '\n' ∉ v.toList) : Experiment.ofText (name.setLine v) =
    (⟨[((Value.ofText name.key).text, .str v)], []⟩, []) := by
  have htells := name.tells_setLine h
  obtain ⟨rest, hchars⟩ : ∃ rest, (name.setLine v).toList = 's' :: rest :=
    ⟨_, by rw [setLine_eq, toList_wordLine]; rfl⟩
  have hheader : isHeader (name.setLine v).toList = false := by
    rw [hchars]
    rfl
  have hfront : frontMatter [(name.setLine v).toList] = 0 := by
    refine frontMatter_eq_zero fun l hl => ?_
    obtain rfl := Option.some.inj hl
    rw [htells.trim_eq, hchars]
    exact fun he => absurd (List.cons.inj he).1 (by decide)
  have hparts : partsFrom 1 [(name.setLine v).toList] = ⟨[(name.setLine v).toList], [], []⟩ := by
    rw [partsFrom_plain hheader, partsFrom_nil]
  have hsource : String.ofList (joinLines [(name.setLine v).toList]) = name.setLine v :=
    String.ofList_toList
  have hentries : scriptEntries
        (String.ofList (joinLines (partsFrom 1 [(name.setLine v).toList]).top)) =
      [(1, Directive.set (Value.ofText name.key).text (.str v))].map fun d => ⟨d.1, .ok d.2⟩ := by
    rw [hparts, hsource]
    exact htells.scriptEntries_eq
  rw [Experiment.ofText_of_entries htells.lines_eq hfront hentries, hparts]
  rfl

/--
A line that sets a variable by its bare name stores the text under this name, where references find
it, exactly if the name is settable.
-/
theorem setLine_found_iff (h : '\n' ∉ v.toList) :
    (Directive.ofLine (name.setLine v) = .ok (.set name.key (.str v)) ↔ name.IsSettable) ∧
    (Experiment.ofText (name.setLine v)).2 = [] ∧
    ((Experiment.ofText (name.setLine v)).1.bindings.get? name.key = some (.str v) ↔
      name.IsSettable) := by
  rw [ofLine_setLine, ofText_setLine name h, ← text_ofText_eq_iff]
  refine ⟨by simp, rfl, ?_⟩
  show ((Bindings.empty.set (Value.ofText name.key).text (.str v)).get? name.key = _) ↔ _
  rw [Bindings.get?_set]
  by_cases hkept : (Value.ofText name.key).text = name.key
  · simp [hkept]
  · rw [if_neg (Ne.symm hkept)]
    exact iff_of_false (by simp [Bindings.get?, Bindings.empty]) hkept

/-- The zeros in front of a number are lost, and the variable is another one. -/
theorem setLine_zeros :
    let name : ReferenceName := ⟨['0', '0', '7'], List.cons_ne_nil _ _, List.all_eq_true.mp rfl⟩
    let loaded := (Experiment.ofText (name.setLine "x")).1.bindings
    name.setLine "x" = "set 007 \"x\"" ∧
      Directive.ofLine (name.setLine "x") = .ok (.set "7" (.str "x")) ∧
      loaded.get? "007" = none ∧ loaded.get? "7" = some (.str "x") := by
  intro name loaded
  have hstored : (Value.ofText name.key).text = "7" := by decide +kernel
  have hfeed : '\n' ∉ "x".toList := by decide
  have hload : loaded = Bindings.empty.set "7" (.str "x") := by
    simp only [loaded]
    rw [name.ofText_setLine hfeed, hstored]
    rfl
  refine ⟨by decide +kernel, by rw [ofLine_setLine, hstored], ?_, ?_⟩
  · rw [hload, Bindings.get?_set]
    rfl
  · rw [hload, Bindings.get?_set]
    rfl

end ReferenceName

end TrialLoop
