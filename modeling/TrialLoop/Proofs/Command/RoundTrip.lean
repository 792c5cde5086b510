import TrialLoop.Proofs.Command.Argument

namespace TrialLoop

/-- A keyword is an ASCII letter or an underscore, and then letters, digits and underscores. -/
def IsKeyword (key : String) : Prop :=
  ∃ c cs, key.toList = c :: cs ∧ (c.isAlpha ∨ c = '_') ∧ ∀ d ∈ cs, d.isAlphanum ∨ d = '_'

/-- The name is one word without quote marks, and all arguments are integers or texts. -/
structure Command.IsWritable (command : Command) : Prop where
  name_ne : command.name ≠ ""
  name : ∀ c ∈ command.name.toList, isBlank c = false ∧ isQuoteMark c = false
  positional : ∀ v ∈ command.positional, v.IsArgument
  keywords : ∀ p ∈ command.keywords, IsKeyword p.1 ∧ p.2.IsArgument

namespace Command

/-- The words of the line that holds the command. -/
def argumentWords (command : Command) : List String :=
  command.positional.map argumentText ++
    command.keywords.map fun (key, v) => key ++ "=" ++ argumentText v

theorem toList_text (command : Command) :
    command.text.toList = command.name.toList ++
      (command.argumentWords.map String.toList).flatMap (' ' :: ·) := by
  simp only [text, argumentWords, String.toList_join]
  simp [List.flatMap_map, List.flatMap_append]

end Command

theorem isNameChar_of_keyword {key : String} (h : IsKeyword key) {d : Char}
    (hd : d ∈ key.toList) : isNameChar d = true := by
  obtain ⟨c, cs, hk, hc, hcs⟩ := h
  have hname : d.isAlphanum ∨ d = '_' := by
    rcases List.mem_cons.mp (hk ▸ hd) with rfl | hd
    · exact hc.imp_left fun ha => by simp [Char.isAlphanum, ha]
    · exact hcs d hd
  simpa [isNameChar] using hname

/-- A keyword and the value after it are told apart at the first equals sign. -/
theorem splitKeyword?_keyword {key : String} (h : IsKeyword key) (value : List Char) :
    splitKeyword? (key.toList ++ '=' :: value) = some (key.toList, value) := by
  have hall : ∀ d ∈ key.toList, isNameChar d = true := fun d hd => isNameChar_of_keyword h hd
  have heq : isNameChar '=' = false := by decide
  have htake : (key.toList ++ '=' :: value).takeWhile isNameChar = key.toList := by
    rw [List.takeWhile_append_of_pos hall]
    simp [heq]
  have hdrop : (key.toList ++ '=' :: value).dropWhile isNameChar = '=' :: value := by
    rw [List.dropWhile_append_of_pos hall]
    simp [heq]
  obtain ⟨c, cs, hk, hc, -⟩ := h
  have hdigit : c.isDigit = false := by
    rcases hc with hc | rfl
    · exact not_digit_of_alpha hc
    · decide
  unfold splitKeyword?
  rw [htake, hdrop, hk]
  simp [hdigit]

theorem goesOn_keyword {key : String} (h : IsKeyword key) (v : Value) :
    GoesOn [] (key ++ "=" ++ Command.argumentText v).toList := by
  have hkey : GoesOn [] (key.toList ++ ['=']) := by
    refine goesOn_plain [] ?_
    intro c hc
    rcases List.mem_append.mp hc with hc | hc
    · have hb := bare_of_nameChar (isNameChar_of_keyword h hc)
      exact ⟨hb.1, hb.2.1⟩
    · rw [List.mem_singleton.mp hc]
      decide
  have hopen : opensQuote ((key.toList ++ ['=']).reverse ++ []) '"' = true := by
    simp [opensQuote, isQuoteMark]
  have hs : (key ++ "=" ++ Command.argumentText v).toList =
      key.toList ++ ['='] ++ (Command.argumentText v).toList := by
    simp
  rw [hs]
  exact hkey.append (goesOn_argumentText hopen v)

namespace Command

/-- The command as it is read once it was written: each of its arguments is read anew. -/
def reread (command : Command) : Command :=
  { command with
    positional := command.positional.map Value.reread
    keywords := command.keywords.map fun (key, v) => (key, v.reread) }

theorem addWord_positional (v : Value) (command : Command) :
    addWord (argumentText v) command =
      { command with positional := v.reread :: command.positional } := by
  simp only [addWord, splitKeyword?_argumentText v, Value.reread]

theorem addWord_keyword {key : String} (hk : IsKeyword key) (v : Value) (command : Command) :
    addWord (key ++ "=" ++ argumentText v) command =
      { command with keywords := (key, v.reread) :: command.keywords } := by
  have hs : (key ++ "=" ++ argumentText v).toList =
      key.toList ++ '=' :: (argumentText v).toList := by
    simp
  simp only [addWord, hs, splitKeyword?_keyword hk, String.ofList_toList, Value.reread]

theorem foldr_addWord_keywords_reread {keywords : List (String × Value)}
    (h : ∀ p ∈ keywords, IsKeyword p.1) (command : Command) :
    (keywords.map fun (key, v) => key ++ "=" ++ argumentText v).foldr addWord command =
      { command with
        keywords := (keywords.map fun (key, v) => (key, v.reread)) ++ command.keywords } := by
  induction keywords with
  | nil => rfl
  | cons p keywords ih =>
    rw [List.map_cons, List.foldr_cons, ih fun q hq => h q (by simp [hq]),
      addWord_keyword (h p (by simp))]
    rfl

theorem foldr_addWord_positional_reread (positional : List Value) (command : Command) :
    (positional.map argumentText).foldr addWord command =
      { command with positional := positional.map Value.reread ++ command.positional } := by
  induction positional with
  | nil => rfl
  | cons v positional ih =>
    rw [List.map_cons, List.foldr_cons, ih, addWord_positional]
    rfl

theorem foldr_argumentWords {command : Command} (h : ∀ p ∈ command.keywords, IsKeyword p.1)
    (name : String) :
    command.argumentWords.foldr addWord { name } = { command.reread with name } := by
  rw [argumentWords, List.foldr_append, foldr_addWord_keywords_reread h,
    foldr_addWord_positional_reread]
  simp [reread]

theorem foldr_addWord_keywords {keywords : List (String × Value)}
    (h : ∀ p ∈ keywords, IsKeyword p.1 ∧ p.2.IsArgument) (command : Command) :
    (keywords.map fun (key, v) => key ++ "=" ++ argumentText v).foldr addWord command =
      { command with keywords := keywords ++ command.keywords } := by
  have hsame : (keywords.map fun (key, v) => (key, v.reread)) = keywords.map id :=
    List.map_congr_left fun p hp => Prod.ext rfl (h p hp).2.reread_eq
  rw [foldr_addWord_keywords_reread fun p hp => (h p hp).1, hsame, List.map_id]

theorem foldr_addWord_positional {positional : List Value}
    (h : ∀ v ∈ positional, v.IsArgument) (command : Command) :
    (positional.map argumentText).foldr addWord command =
      { command with positional := positional ++ command.positional } := by
  have hsame : positional.map Value.reread = positional.map id :=
    List.map_congr_left fun v hv => (h v hv).reread_eq
  rw [foldr_addWord_positional_reread, hsame, List.map_id]

theorem argumentWords_goOn {command : Command} (h : ∀ p ∈ command.keywords, IsKeyword p.1) :
    ∀ w ∈ command.argumentWords.map String.toList, w ≠ [] ∧ GoesOn [] w := by
  intro w hw
  obtain ⟨s, hs, rfl⟩ := List.mem_map.mp hw
  rcases List.mem_append.mp hs with hs | hs
  · obtain ⟨v, -, rfl⟩ := List.mem_map.mp hs
    exact ⟨argumentText_ne_nil v, goesOn_argumentText rfl v⟩
  · obtain ⟨⟨key, v⟩, hp, rfl⟩ := List.mem_map.mp hs
    exact ⟨by simp, goesOn_keyword (h _ hp) v⟩

theorem words_text_of_goesOn {command : Command} (hne : command.name ≠ "")
    (hname : GoesOn [] command.name.toList) (h : ∀ p ∈ command.keywords, IsKeyword p.1) :
    words command.text = .ok (command.name :: command.argumentWords) := by
  have hline : wordsFrom none [] command.text.toList =
      some (command.name.toList :: command.argumentWords.map String.toList) := by
    rw [toList_text]
    refine wordsFrom_line ?_
    intro w hw
    rcases List.mem_cons.mp hw with rfl | hw
    · exact ⟨by simpa using hne, hname⟩
    · exact argumentWords_goOn h w hw
  rw [words, hline]
  simp

/-- The words of the line of a command are its name and its arguments as they are written. -/
theorem words_text {command : Command} (h : command.IsWritable) :
    words command.text = .ok (command.name :: command.argumentWords) :=
  words_text_of_goesOn h.name_ne (goesOn_plain [] h.name) fun p hp => (h.keywords p hp).1

/-- A command that was written is read as the same command. -/
theorem read_text {command : Command} (h : command.IsWritable) :
    read command.text = .ok command := by
  have hname : unquote command.name = command.name := by
    have hm : enclosingMark? command.name.toList = none :=
      enclosingMark?_eq_none fun c hc => (h.name c (List.mem_of_head? hc)).2
    rw [unquote, hm]
  have hwords : argumentWords command = command.positional.map argumentText ++
      command.keywords.map fun (key, v) => key ++ "=" ++ argumentText v := rfl
  unfold read
  rw [words_text h]
  show Except.ok (command.argumentWords.foldr addWord { name := unquote command.name }) = _
  rw [hwords, List.foldr_append, foldr_addWord_keywords h.keywords,
    foldr_addWord_positional h.positional, hname]
  simp

/-- A command whose texts look like numbers, keywords and quotes. -/
def tangled : Command where
  name := "say"
  positional := [.int (-9223372036854775808), .str "12", .str "a=\"b\\ \n", .str ""]
  keywords := [("k", .str "'"), ("k", .int 7)]

theorem read_text_tangled : tangled.IsWritable ∧ read tangled.text = .ok tangled := by
  have hkey : IsKeyword "k" := ⟨'k', [], rfl, Or.inl rfl, by simp⟩
  have h : tangled.IsWritable := by
    refine ⟨by decide, forall_mem_of_all (by decide), ?_, ?_⟩
    · simp only [tangled, List.forall_mem_cons]
      exact ⟨.int _, .str _, .str _, .str _, by simp⟩
    · simp only [tangled, List.forall_mem_cons]
      exact ⟨⟨hkey, .str _⟩, ⟨hkey, .int _⟩, by simp⟩
  exact ⟨h, read_text h⟩

end Command

end TrialLoop
