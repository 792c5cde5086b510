import TrialLoop.Experiment.Arguments
import TrialLoop.Proofs.Except
import TrialLoop.Proofs.Number.IntText

namespace TrialLoop

/-- A number of 64 bits in digits, which zeros and a plus sign may stand before. -/
structure WrittenNumber where
  text : String
  value : Nat
  spelled : ∃ ds, (text.toList = ds ∨ text.toList = '+' :: ds) ∧ ds ≠ [] ∧
    (∀ d ∈ ds, d.isDigit = true) ∧ digitsValue ds = value
  fits : value < 2 ^ 64

theorem WrittenNumber.natural?_eq (n : WrittenNumber) : natural? n.text.toList = some n.value := by
  obtain ⟨ds, htext, hne, hds, hvalue⟩ := n.spelled
  exact natural?_eq_some_iff.mpr ⟨ds, htext, hne, hds, hvalue, n.fits⟩

theorem exists_writtenNumber {s : String} {n : Nat} (h : natural? s.toList = some n) :
    ∃ m : WrittenNumber, m.text = s ∧ m.value = n := by
  obtain ⟨ds, htext, hne, hds, hvalue, hfits⟩ := natural?_eq_some_iff.mp h
  exact ⟨⟨s, n, ⟨ds, htext, hne, hds, hvalue⟩, hfits⟩, rfl, rfl⟩

def WrittenNumber.ofNat {n : Nat} (h : n < 2 ^ 64) : WrittenNumber where
  text := intText n
  value := n
  spelled := ⟨digits n, .inl (by rw [intText_natCast, String.toList_ofList]), digits_ne_nil n,
    fun _ hd => isDigit_of_mem_digits hd, digitsValue_digits n⟩
  fits := h

/-- An option that has a value. -/
inductive OptionSetting where
  | seed (n : WrittenNumber)
  | pool (directory : String)
  | maxCycles (n : WrittenNumber)

namespace OptionSetting

def letter : OptionSetting → Char
  | seed _ => 's'
  | pool _ => 'L'
  | maxCycles _ => 'n'

def text : OptionSetting → String
  | seed n => n.text
  | pool directory => directory
  | maxCycles n => n.text

def seed? : OptionSetting → Option UInt64
  | seed n => some (UInt64.ofNat n.value)
  | _ => none

def pool? : OptionSetting → Option String
  | pool directory => some directory
  | _ => none

def maxCycles? : OptionSetting → Option Nat
  | maxCycles n => some n.value
  | _ => none

/-- With the value of the option in place of an earlier one. -/
def apply (a : Arguments) (s : OptionSetting) : Arguments :=
  { a with
    seed := s.seed?.or a.seed
    pool := s.pool?.or a.pool
    maxCycles := s.maxCycles?.or a.maxCycles }

theorem letter_ne_dash (s : OptionSetting) : s.letter ≠ '-' := by
  cases s <;> simp [letter]

theorem setValue_eq (a : Arguments) (s : OptionSetting) :
    Arguments.setValue a s.letter s.text = .ok (s.apply a) := by
  cases s with
  | seed n =>
    simp [letter, text, Arguments.setValue, n.natural?_eq, apply, seed?, pool?, maxCycles?]
  | pool directory => rfl
  | maxCycles n =>
    simp [letter, text, Arguments.setValue, n.natural?_eq, apply, seed?, pool?, maxCycles?]

end OptionSetting

/-- What a command line is put together from, up to the two dashes that may end its options. -/
inductive ArgumentPart where
  /-- A word of one flag or more. -/
  | flags (more : Nat)
  /-- An option after some flags, with its value in the same word. -/
  | attached (flags : Nat) (s : OptionSetting) (h : s.text ≠ "")
  /-- An option after some flags, with its value in the next word. -/
  | separate (flags : Nat) (s : OptionSetting)
  | positional (word : String) (h : word.toList.head? ≠ some '-' ∨ word = "-")

namespace ArgumentPart

def words : ArgumentPart → List String
  | flags more => [String.ofList ('-' :: List.replicate (more + 1) 'd')]
  | attached n s _ => [String.ofList ('-' :: List.replicate n 'd' ++ s.letter :: s.text.toList)]
  | separate n s => [String.ofList ('-' :: List.replicate n 'd' ++ [s.letter]), s.text]
  | positional word _ => [word]

def hasFlag : ArgumentPart → Bool
  | flags _ => true
  | attached n .. | separate n _ => decide (0 < n)
  | positional .. => false

def setting? : ArgumentPart → Option OptionSetting
  | attached _ s _ | separate _ s => some s
  | flags _ | positional .. => none

def positional? : ArgumentPart → Option String
  | positional word _ => some word
  | _ => none

end ArgumentPart

/-- A command line, with the words after the two dashes if it has these. -/
structure CommandLine where
  parts : List ArgumentPart
  after : Option (List String)

namespace CommandLine

def words (l : CommandLine) : List String :=
  l.parts.flatMap ArgumentPart.words ++ l.after.elim [] ("--" :: ·)

def settings (l : CommandLine) : List OptionSetting :=
  l.parts.filterMap ArgumentPart.setting?

def positionals (l : CommandLine) : List String :=
  l.parts.filterMap ArgumentPart.positional? ++ l.after.getD []

/-- The record that a command line writes. The last value of an option counts. -/
structure Writes (l : CommandLine) (a : Arguments) : Prop where
  debug : a.debug = l.parts.any ArgumentPart.hasFlag
  seed : a.seed = (l.settings.filterMap OptionSetting.seed?).getLast?
  pool : a.pool = (l.settings.filterMap OptionSetting.pool?).getLast?
  maxCycles : a.maxCycles = (l.settings.filterMap OptionSetting.maxCycles?).getLast?
  positionals : l.positionals = a.file :: a.loop.toList

end CommandLine

namespace Arguments

theorem readCluster_flags (a : Arguments) (n : Nat) (cs : List Char) :
    readCluster a (List.replicate n 'd' ++ cs) =
      readCluster { a with debug := a.debug || decide (0 < n) } cs := by
  induction n generalizing a with
  | zero => simp
  | succ n ih =>
    rw [List.replicate_succ, List.cons_append, readCluster, if_pos rfl, ih]
    simp

theorem readCluster_option (a : Arguments) (s : OptionSetting) (cs : List Char) :
    readCluster a (s.letter :: cs) =
      if cs = [] then .ok (.wanting a s.letter)
      else (setValue a s.letter (String.ofList cs)).map .closed := by
  have hd : s.letter ≠ 'd' := by cases s <;> simp [OptionSetting.letter]
  have ht : takesValue s.letter = true := by cases s <;> rfl
  rw [readCluster, if_neg hd, if_pos ht]

/-- With what a part says. -/
def withPart (a : Arguments) (p : ArgumentPart) : Arguments :=
  p.setting?.elim { a with debug := a.debug || p.hasFlag } fun s =>
    s.apply { a with debug := a.debug || p.hasFlag }

/-- The options of the words that follow a cluster, and its value if this is the next word. -/
def readAfter : List String → Cluster → Except UsageError (Arguments × List String)
  | rest, .closed a => readWords a rest
  | [], .wanting _ option => .error (.missingValue option)
  | value :: rest, .wanting a option => (setValue a option value).bind fun a => readWords a rest

theorem readWords_dash (a : Arguments) {c : Char} {cs : List Char} (hne : c :: cs ≠ ['-'])
    (rest : List String) :
    readWords a (String.ofList ('-' :: c :: cs) :: rest) =
      (readCluster a (c :: cs)).bind (readAfter rest) := by
  have hdashes : String.ofList ('-' :: c :: cs) ≠ "--" := by
    intro he
    have hl := congrArg String.toList he
    rw [String.toList_ofList] at hl
    exact hne (List.cons.inj hl).2
  rw [readWords, if_neg hdashes]
  simp only [String.toList_ofList]
  cases readCluster a (c :: cs) with
  | error => rfl
  | ok k => cases k <;> cases rest <;> rfl

theorem readWords_cluster (a : Arguments) (n : Nat) {c : Char} (hc : c ≠ '-') (cs : List Char)
    (rest : List String) :
    readWords a (String.ofList ('-' :: List.replicate n 'd' ++ c :: cs) :: rest) =
      (readCluster { a with debug := a.debug || decide (0 < n) } (c :: cs)).bind
        (readAfter rest) := by
  rw [← readCluster_flags]
  cases n with
  | zero => exact readWords_dash a (by simp [hc]) rest
  | succ n => exact readWords_dash a (by simp) rest

theorem readWords_positional (a : Arguments) {word : String}
    (h : word.toList.head? ≠ some '-' ∨ word = "-") (rest : List String) :
    readWords a (word :: rest) = (readWords a rest).map fun (a, ws) => (a, word :: ws) := by
  have hne : word ≠ "--" := by
    rintro rfl
    revert h
    decide
  rw [readWords, if_neg hne]
  split
  next c cs hw =>
    rcases h with h | rfl
    · exact absurd (by rw [hw]; rfl) h
    · cases hw
  next => cases readWords a rest <;> rfl

/-- A part is read as what it says, whatever follows. -/
theorem readWords_part (a : Arguments) (p : ArgumentPart) (rest : List String) :
    readWords a (p.words ++ rest) =
      (readWords (a.withPart p) rest).map fun (a, ws) => (a, p.positional?.toList ++ ws) := by
  have hmap : ∀ x : Except UsageError (Arguments × List String),
      x.map (fun (a, ws) => (a, ws)) = x := fun x => by cases x <;> rfl
  cases p with
  | flags more =>
    have hcluster := readCluster_flags a (more + 1) []
    rw [List.append_nil] at hcluster
    have hne : 'd' :: List.replicate more 'd' ≠ ['-'] := by simp
    have hword := readWords_dash a hne rest
    rw [← List.replicate_succ, hcluster] at hword
    exact hword.trans (hmap _).symm
  | attached n s h =>
    have hcs : s.text.toList ≠ [] := fun he => h (String.toList_eq_nil_iff.mp he)
    have hword := readWords_cluster a n s.letter_ne_dash s.text.toList rest
    rw [readCluster_option, if_neg hcs, String.ofList_toList, s.setValue_eq] at hword
    exact hword.trans (hmap _).symm
  | separate n s =>
    have hword := readWords_cluster a n s.letter_ne_dash [] (s.text :: rest)
    rw [readCluster_option, if_pos rfl] at hword
    refine hword.trans ?_
    rw [Except.bind, readAfter, s.setValue_eq]
    exact (hmap _).symm
  | positional word h =>
    have ha : a.withPart (.positional word h) = a := by
      simp [withPart, ArgumentPart.setting?, ArgumentPart.hasFlag]
    rw [ha]
    exact readWords_positional a h rest

theorem readWords_parts (a : Arguments) (ps : List ArgumentPart) (rest : List String) :
    readWords a (ps.flatMap ArgumentPart.words ++ rest) =
      (readWords (ps.foldl withPart a) rest).map fun (a, ws) =>
        (a, ps.filterMap ArgumentPart.positional? ++ ws) := by
  induction ps generalizing a with
  | nil =>
    rw [List.flatMap_nil, List.nil_append, List.foldl_nil]
    cases readWords a rest <;> rfl
  | cons p ps ih =>
    rw [List.flatMap_cons, List.append_assoc, readWords_part, ih, List.foldl_cons]
    cases readWords (ps.foldl withPart (a.withPart p)) rest with
    | error => rfl
    | ok r => cases p <;> rfl

/-- The words of a command line are those of its parts, and the others stay as they are. -/
theorem readWords_words (a : Arguments) (l : CommandLine) :
    readWords a l.words = .ok (l.parts.foldl withPart a, l.positionals) := by
  rw [CommandLine.words, readWords_parts, CommandLine.positionals]
  cases l.after with
  | none => rfl
  | some ws =>
    rw [Option.elim_some, readWords, if_pos rfl]
    rfl

/-- Each setting takes the place of an earlier one, so that the last one stays. -/
theorem foldl_withPart_setting {α : Type} {f : Arguments → Option α} {g : OptionSetting → Option α}
    (hf : ∀ a p, f (withPart a p) = (p.setting?.bind g).or (f a)) (a : Arguments)
    (ps : List ArgumentPart) :
    f (ps.foldl withPart a) =
      ((ps.filterMap ArgumentPart.setting?).filterMap g).getLast?.or (f a) := by
  rw [List.filterMap_filterMap]
  induction ps generalizing a with
  | nil => rfl
  | cons p ps ih =>
    rw [List.foldl_cons, ih, hf, List.filterMap_cons]
    cases p.setting?.bind g with
    | none => rfl
    | some x => rw [List.getLast?_cons, Option.some_or]; cases (ps.filterMap _).getLast? <;> rfl

theorem foldl_withPart_debug (a : Arguments) (ps : List ArgumentPart) :
    (ps.foldl withPart a).debug = (a.debug || ps.any ArgumentPart.hasFlag) := by
  induction ps generalizing a with
  | nil => simp
  | cons p ps ih =>
    have hp : (a.withPart p).debug = (a.debug || p.hasFlag) := by
      rw [withPart]
      cases p.setting? <;> rfl
    rw [List.foldl_cons, ih, hp, List.any_cons, Bool.or_assoc]

theorem foldl_withPart_loop (a : Arguments) (ps : List ArgumentPart) :
    (ps.foldl withPart a).loop = a.loop := by
  induction ps generalizing a with
  | nil => rfl
  | cons p ps ih =>
    rw [List.foldl_cons, ih, withPart]
    cases p.setting? <;> rfl

/-- With the file and the loop that the words name which are no options. -/
def withPositionals (a : Arguments) : List String → Except UsageError Arguments
  | [] => .error .missingFile
  | [file] => .ok { a with file := file }
  | [file, loop] => .ok { a with file := file, loop := some loop }
  | _ :: _ :: extra :: _ => .error (.extraArgument extra)

theorem read_eq (words : List String) :
    read words = (readWords {} words).bind fun (a, ws) => a.withPositionals ws := by
  rw [read]
  cases readWords {} words with
  | error => rfl
  | ok r =>
    obtain ⟨a, ws⟩ := r
    show _ = a.withPositionals ws
    fun_cases withPositionals a ws <;> rfl

theorem withPositionals_eq_ok_iff {a b : Arguments} (hb : b.loop = none) {ws : List String} :
    b.withPositionals ws = .ok a ↔
      ws = a.file :: a.loop.toList ∧ { b with file := a.file, loop := a.loop } = a := by
  obtain ⟨debug, seed, pool, maxCycles, file, loop⟩ := b
  obtain rfl : loop = none := hb
  constructor
  · intro h
    match ws, h with
    | [_], h | [_, _], h =>
      cases h
      exact ⟨rfl, rfl⟩
  · rintro ⟨rfl, ha⟩
    rw [← ha]
    cases a.loop <;> rfl

theorem exists_setting {a b : Arguments} {c : Char} {value : String} (hc : takesValue c = true)
    (h : setValue a c value = .ok b) : ∃ s : OptionSetting, s.letter = c ∧ s.text = value := by
  have hletter : c = 's' ∨ c = 'L' ∨ c = 'n' := by simpa [takesValue, or_assoc] using hc
  rcases hletter with rfl | rfl | rfl
  · cases hn : natural? value.toList with
    | none => simp [setValue, hn] at h
    | some n =>
      obtain ⟨m, hm, -⟩ := exists_writtenNumber hn
      exact ⟨.seed m, rfl, hm⟩
  · exact ⟨.pool value, rfl, rfl⟩
  · cases hn : natural? value.toList with
    | none => simp [setValue, hn] at h
    | some n =>
      obtain ⟨m, hm, -⟩ := exists_writtenNumber hn
      exact ⟨.maxCycles m, rfl, hm⟩

/-- A cluster is some flags, and then an option perhaps, with its value or without it. -/
theorem cluster_cases {a : Arguments} {cs : List Char} {k : Cluster}
    (h : readCluster a cs = .ok k) :
    (∃ n, cs = List.replicate n 'd') ∨
      (∃ n, ∃ s : OptionSetting, s.text ≠ "" ∧
        cs = List.replicate n 'd' ++ s.letter :: s.text.toList) ∨
      ∃ n c b, takesValue c = true ∧ cs = List.replicate n 'd' ++ [c] ∧ k = .wanting b c := by
  fun_induction readCluster a cs with
  | case1 => exact .inl ⟨0, rfl⟩
  | case2 a cs ih =>
    rcases ih h with ⟨n, rfl⟩ | ⟨n, s, hs, rfl⟩ | ⟨n, c, b, hc, rfl, hk⟩
    · exact .inl ⟨n + 1, rfl⟩
    · exact .inr (.inl ⟨n + 1, s, hs, rfl⟩)
    · exact .inr (.inr ⟨n + 1, c, b, hc, rfl, hk⟩)
  | case3 a c _ hc =>
    cases h
    exact .inr (.inr ⟨0, c, a, hc, rfl, rfl⟩)
  | case4 a c cs _ hc hne =>
    obtain ⟨b, hb, -⟩ := map_eq_ok h
    obtain ⟨s, rfl, hs⟩ := exists_setting hc hb
    have htext : s.text ≠ "" := by
      rw [hs]
      exact fun he => hne (String.ofList_eq_empty_iff.mp he)
    refine .inr (.inl ⟨0, s, htext, ?_⟩)
    rw [hs, String.toList_ofList]
    rfl
  | case5 => cases h

/-- Words that are read end, have two dashes, or start with the words of a part. -/
theorem words_cases {a : Arguments} {words : List String} {r : Arguments × List String}
    (h : readWords a words = .ok r) :
    words = [] ∨ (∃ rest, words = "--" :: rest) ∨
      ∃ (p : ArgumentPart) (rest : List String), words = p.words ++ rest := by
  match words, h with
  | [], _ => exact .inl rfl
  | word :: rest, h =>
    refine .inr ?_
    by_cases hdashes : word = "--"
    · exact .inl ⟨rest, by rw [hdashes]⟩
    refine .inr ?_
    by_cases hplain : word.toList.head? ≠ some '-' ∨ word = "-"
    · exact ⟨.positional word hplain, rest, rfl⟩
    obtain ⟨hdash, hlone⟩ := not_or.mp hplain
    obtain ⟨c, cs, rfl⟩ : ∃ c cs, word = String.ofList ('-' :: c :: cs) := by
      obtain ⟨cs, hcs⟩ := List.head?_eq_some_iff.mp (not_not.mp hdash)
      cases cs with
      | nil => exact absurd (String.toList_inj.mp hcs) hlone
      | cons c cs => exact ⟨c, cs, by rw [← hcs, String.ofList_toList]⟩
    have hne : c :: cs ≠ ['-'] := by
      rintro he
      exact hdashes (by rw [he])
    rw [readWords_dash a hne] at h
    obtain ⟨k, hk, hafter⟩ := bind_eq_ok h
    rcases cluster_cases hk with ⟨n, hcs⟩ | ⟨n, s, hs, hcs⟩ | ⟨n, d, b, hd, hcs, rfl⟩
    · cases n with
      | zero => cases hcs
      | succ n => exact ⟨.flags n, rest, by rw [hcs]; rfl⟩
    · exact ⟨.attached n s hs, rest, by rw [hcs]; rfl⟩
    · match rest, hafter with
      | value :: rest, hafter =>
        obtain ⟨b', hb, -⟩ := bind_eq_ok hafter
        obtain ⟨s, rfl, rfl⟩ := exists_setting hd hb
        exact ⟨.separate n s, rest, by rw [hcs]; rfl⟩

/-- The command lines that are read are those that are put together from parts. -/
theorem exists_commandLine {a : Arguments} {words : List String} {r : Arguments × List String}
    (h : readWords a words = .ok r) : ∃ l : CommandLine, l.words = words := by
  -- A part takes one word or two, so that the induction is on the number of words.
  induction hn : words.length using Nat.strong_induction_on generalizing a words r with
  | _ n ih =>
    rcases words_cases h with rfl | ⟨rest, rfl⟩ | ⟨p, rest, rfl⟩
    · exact ⟨⟨[], none⟩, rfl⟩
    · exact ⟨⟨[], some rest⟩, rfl⟩
    · rw [readWords_part] at h
      obtain ⟨r', hr, -⟩ := map_eq_ok h
      have hshort : rest.length < n := by
        have hp : 0 < p.words.length := by cases p <;> simp [ArgumentPart.words]
        rw [List.length_append] at hn
        omega
      obtain ⟨l, rfl⟩ := ih rest.length hshort hr rfl
      refine ⟨{ l with parts := p :: l.parts }, ?_⟩
      rw [CommandLine.words, CommandLine.words, List.flatMap_cons, List.append_assoc]

end Arguments

namespace CommandLine

open Arguments

theorem writes_iff {l : CommandLine} {a : Arguments} :
    l.Writes a ↔ l.positionals = a.file :: a.loop.toList ∧
      { l.parts.foldl withPart {} with file := a.file, loop := a.loop } = a := by
  have hdebug := foldl_withPart_debug {} l.parts
  have hseed := foldl_withPart_setting (f := seed) (g := OptionSetting.seed?)
    (fun a p => by rw [withPart]; cases p.setting? <;> rfl) {} l.parts
  have hpool := foldl_withPart_setting (f := pool) (g := OptionSetting.pool?)
    (fun a p => by rw [withPart]; cases p.setting? <;> rfl) {} l.parts
  have hcycles := foldl_withPart_setting (f := maxCycles) (g := OptionSetting.maxCycles?)
    (fun a p => by rw [withPart]; cases p.setting? <;> rfl) {} l.parts
  rw [Bool.false_or] at hdebug
  rw [Option.or_none] at hseed hpool hcycles
  obtain ⟨debug, seed, pool, maxCycles, file, loop⟩ := a
  constructor
  · rintro ⟨rfl, rfl, rfl, rfl, hp⟩
    refine ⟨hp, ?_⟩
    simp only [hdebug, hseed, hpool, hcycles, settings]
  · rintro ⟨hp, he⟩
    cases he
    exact ⟨hdebug, hseed, hpool, hcycles, hp⟩

/-- A command line is read as a record exactly if it writes this record. -/
theorem read_words_iff {l : CommandLine} {a : Arguments} :
    Arguments.read l.words = .ok a ↔ l.Writes a := by
  rw [writes_iff, read_eq, readWords_words]
  exact withPositionals_eq_ok_iff (foldl_withPart_loop {} l.parts)

/-- Each record whose number of cycles is one of 64 bits can be written. -/
theorem exists_writes {a : Arguments} (h : ∀ n ∈ a.maxCycles, n < 2 ^ 64) :
    ∃ l : CommandLine, l.Writes a := by
  let flag := if a.debug then [ArgumentPart.flags 0] else []
  let seeds := a.seed.toList.map fun n => ArgumentPart.separate 0 (.seed (.ofNat n.toNat_lt))
  let pools := a.pool.toList.map fun directory => ArgumentPart.separate 0 (.pool directory)
  let cycles := (a.maxCycles.pmap (fun _ hn => ArgumentPart.separate 0 (.maxCycles (.ofNat hn)))
    h).toList
  refine ⟨⟨flag ++ seeds ++ pools ++ cycles, some (a.file :: a.loop.toList)⟩, ?_⟩
  obtain ⟨debug, seed, pool, maxCycles, file, loop⟩ := a
  cases seed with
  | none => cases debug <;> cases pool <;> cases maxCycles <;> exact ⟨rfl, rfl, rfl, rfl, rfl⟩
  | some n =>
    have hn : some n = some (UInt64.ofNat n.toNat) := congrArg some UInt64.ofNat_toNat.symm
    cases debug <;> cases pool <;> cases maxCycles <;> exact ⟨rfl, hn, rfl, rfl, rfl⟩

/-- A command line is read as the record that it writes, whichever of its spellings it is. -/
theorem read_spelled {l : CommandLine} {a : Arguments} (h : l.Writes a) :
    Arguments.read l.words = .ok a :=
  read_words_iff.mpr h

theorem read_spelled_mixed :
    Arguments.read ["-dds", "+007", "x", "-L", "--", "-n5", "-s9", "--", "-w"] =
      .ok ⟨true, some 9, some "--", some 5, "x", some "-w"⟩ := by
  let seven : WrittenNumber := ⟨"+007", 7, ⟨['0', '0', '7'], .inr (by decide), by decide,
    forall_mem_of_all (by decide), by decide⟩, by decide⟩
  let five : WrittenNumber := .ofNat (n := 5) (by decide)
  let nine : WrittenNumber := .ofNat (n := 9) (by decide)
  let line : CommandLine :=
    ⟨[.separate 2 (.seed seven), .positional "x" (by decide), .separate 0 (.pool "--"),
      .attached 0 (.maxCycles five) (by decide), .attached 0 (.seed nine) (by decide)], some ["-w"]⟩
  have hwrites : line.Writes ⟨true, some 9, some "--", some 5, "x", some "-w"⟩ :=
    ⟨rfl, rfl, rfl, rfl, rfl⟩
  have hwords : line.words = ["-dds", "+007", "x", "-L", "--", "-n5", "-s9", "--", "-w"] := by
    decide
  exact hwords ▸ read_spelled hwrites

/-- No other words are understood. -/
theorem read_eq_ok_iff {words : List String} {a : Arguments} :
    Arguments.read words = .ok a ↔ ∃ l : CommandLine, l.words = words ∧ l.Writes a := by
  constructor
  · intro h
    have hread := h
    rw [Arguments.read_eq] at hread
    obtain ⟨r, hr, -⟩ := bind_eq_ok hread
    obtain ⟨l, rfl⟩ := exists_commandLine hr
    exact ⟨l, rfl, read_words_iff.mp h⟩
  · rintro ⟨l, rfl, h⟩
    exact read_words_iff.mpr h

end CommandLine

end TrialLoop
