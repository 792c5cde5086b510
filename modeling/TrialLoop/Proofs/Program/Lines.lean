import TrialLoop.Program.Basic
import TrialLoop.Proofs.Number.FloatText
import TrialLoop.Proofs.Text.Quoted
import Mathlib.Algebra.GroupWithZero.Nat

namespace TrialLoop

/-- A line feed stands in a text, or in a text somewhere in a list. -/
inductive Value.HasFeed : Value → Prop
  | str {s : String} : '\n' ∈ s.toList → HasFeed (.str s)
  | list {v : Value} {items : List Value} : v ∈ items → HasFeed v → HasFeed (.list items)

theorem feed_not_mem_intText (n : Int) : '\n' ∉ (intText n).toList := fun h =>
  absurd (isFloatChar_intText h) (by unfold IsFloatChar; decide)

theorem feed_not_mem_floatText (style : FloatStyle) (x : Float) :
    '\n' ∉ (floatText style x).toList := fun h =>
  absurd (isFloatChar_floatText h) (by unfold IsFloatChar; decide)

theorem mem_intercalate {c : Char} {between : String} (h : c ∉ between.toList)
    (ts : List String) : c ∈ (between.intercalate ts).toList ↔ ∃ t ∈ ts, c ∈ t.toList := by
  rw [String.toList_intercalate]
  induction ts with
  | nil => simp
  | cons t ts ih =>
    cases ts with
    | nil => simp
    | cons t' ts =>
      rw [List.map_cons, List.map_cons, List.intercalate_cons_cons, ← List.map_cons,
        List.mem_append, List.mem_append, ih]
      simp [h]

namespace Value

theorem hasFeed_str {s : String} : (str s).HasFeed ↔ '\n' ∈ s.toList :=
  ⟨fun | .str h => h, .str⟩

theorem hasFeed_list {items : List Value} : (list items).HasFeed ↔ ∃ v ∈ items, v.HasFeed :=
  ⟨fun | .list hv h => ⟨_, hv, h⟩, fun ⟨_, hv, h⟩ => .list hv h⟩

/-- The text of an item has the line feeds of its value. -/
theorem itemTexts_cons (v : Value) (vs : List Value) :
    ∃ t, itemTexts (v :: vs) = t :: itemTexts vs ∧ ('\n' ∈ t.toList ↔ '\n' ∈ v.text.toList) := by
  cases v with
  | str s => exact ⟨_, rfl, by simp [text]⟩
  | _ => exact ⟨_, rfl, Iff.rfl⟩

mutual

/-- A value as text has a line feed just if a text in the value has one. -/
theorem feed_mem_text : (v : Value) → ('\n' ∈ v.text.toList ↔ v.HasFeed)
  | null => ⟨fun h => absurd h (by decide), nofun⟩
  | bool true => ⟨fun h => absurd h (by decide), nofun⟩
  | bool false => ⟨fun h => absurd h (by decide), nofun⟩
  | int n => ⟨fun h => absurd h (feed_not_mem_intText _), nofun⟩
  | float x => ⟨fun h => absurd h (feed_not_mem_floatText _ _), nofun⟩
  | str s => hasFeed_str.symm
  | list items => by
    have hbetween : '\n' ∉ ", ".toList := by decide
    rw [hasFeed_list, ← feed_mem_itemTexts items, ← mem_intercalate hbetween]
    simp [text]

theorem feed_mem_itemTexts : (items : List Value) →
    ((∃ t ∈ itemTexts items, '\n' ∈ t.toList) ↔ ∃ v ∈ items, v.HasFeed)
  | [] => by simp [itemTexts]
  | v :: vs => by
    obtain ⟨t, htexts, ht⟩ := itemTexts_cons v vs
    rw [htexts]
    simp only [List.mem_cons, exists_eq_or_imp]
    rw [ht, feed_mem_text v, feed_mem_itemTexts vs]

end

end Value

namespace Command

/-- Quotes keep the line feeds of a text as they are. -/
theorem feed_mem_argumentText (v : Value) : '\n' ∈ (argumentText v).toList ↔ v.HasFeed := by
  rw [← v.feed_mem_text]
  cases v with
  | int n => exact Iff.rfl
  | float x =>
    exact iff_of_false (feed_not_mem_floatText _ _) (feed_not_mem_floatText _ _)
  | str s =>
    rw [argumentText]
    split
    · exact Iff.rfl
    · exact feed_mem_quote
  | _ => exact feed_mem_quote

/-- The line of a command has a line feed just if its name, a keyword or a value has one. -/
theorem feed_mem_text_iff (command : Command) :
    '\n' ∈ command.text.toList ↔
      '\n' ∈ command.name.toList ∨ (∃ v ∈ command.positional, v.HasFeed) ∨
        ∃ key v, (key, v) ∈ command.keywords ∧ ('\n' ∈ key.toList ∨ v.HasFeed) := by
  have hkeyword : ∀ key v, '\n' ∈ (" " ++ key ++ "=" ++ argumentText v).toList ↔
      '\n' ∈ key.toList ∨ v.HasFeed := by
    intro key v
    simp [feed_mem_argumentText]
  simp only [text, String.toList_join, List.mem_flatMap, List.mem_append, List.mem_cons,
    List.mem_map, Prod.exists, or_and_right, exists_or, exists_eq_left, or_assoc]
  refine or_congr_right (or_congr ?_ ⟨?_, ?_⟩)
  · simp [feed_mem_argumentText]
  · rintro ⟨_, ⟨key, v, hm, rfl⟩, h⟩
    exact ⟨key, v, hm, (hkeyword key v).mp h⟩
  · rintro ⟨key, v, hm, h⟩
    exact ⟨_, ⟨key, v, hm, rfl⟩, (hkeyword key v).mpr h⟩

end Command

/-- The command of a cycle: its item, or a dash, with the variables of the cycle. -/
def Cycle.command (c : Cycle) : Command :=
  { name := if c.item = "" then "-" else c.item, keywords := c.applied }

/-- No text of a cycle has a line feed: neither its item nor a name or a value of its variables. -/
structure Cycle.IsLine (c : Cycle) : Prop where
  item : '\n' ∉ c.item.toList
  applied : ∀ name v, (name, v) ∈ c.applied → '\n' ∉ name.toList ∧ ¬v.HasFeed

theorem Cycle.isLine_iff (c : Cycle) : c.IsLine ↔ '\n' ∉ c.command.text.toList := by
  have hname : '\n' ∈ c.command.name.toList ↔ '\n' ∈ c.item.toList := by
    rw [command]
    split
    next h =>
      rw [h]
      exact iff_of_false (by simp) (by simp)
    next => exact Iff.rfl
  rw [Command.feed_mem_text_iff, hname]
  constructor
  · rintro ⟨hitem, happlied⟩ (h | ⟨v, hv, -⟩ | ⟨name, v, hm, h⟩)
    · exact hitem h
    · cases hv
    · exact h.elim (happlied name v hm).1 (happlied name v hm).2
  · intro h
    obtain ⟨hitem, h⟩ := not_or.mp h
    refine ⟨hitem, fun name v hm => not_or.mp fun hfeed => h (.inr ⟨name, v, hm, hfeed⟩)⟩

/-- The line of a cycle is its number, a tab, its row, a tab and its command. -/
theorem Cycle.line_eq (c : Cycle) (number : Nat) :
    c.line number = toString number ++ "\t" ++ toString c.row ++ "\t" ++ c.command.text := rfl

theorem Cycle.count_feed_line (c : Cycle) (number : Nat) :
    (c.line number).toList.count '\n' = c.command.text.toList.count '\n' := by
  have hdigits : ∀ n : Nat, (Nat.toDigits 10 n).count '\n' = 0 := fun n =>
    List.count_eq_zero.mpr fun h => absurd (isDigit_of_mem_digits h) (by decide)
  rw [line_eq]
  simp [List.count_append, hdigits]

/-- What is printed of the lines of an output, each of them with a line feed after it. -/
def Outcome.printed (o : Outcome) : List Char :=
  o.output.flatMap (·.toList ++ ['\n'])

theorem Outcome.output_ofReport (a : Arguments) (log : List String) (r : Report) :
    (ofReport a log r).output = r.lines := by
  unfold ofReport
  dsimp only
  split <;> rfl

theorem Report.getElem?_lines (r : Report) (i : Nat) :
    r.lines[i]? = r.cycles[i]?.map (·.line (i + 1)) := by
  simp [lines, List.getElem?_zipIdx, Function.comp_def]

theorem Report.count_feed_lines (r : Report) :
    (r.lines.flatMap (·.toList ++ ['\n'])).count '\n' =
      r.cycles.size + (r.cycles.toList.map fun c => c.command.text.toList.count '\n').sum := by
  have hcount : ∀ (cs : List Cycle) (n : Nat),
      ((cs.zipIdx n).flatMap fun p => (p.1.line (p.2 + 1)).toList ++ ['\n']).count '\n' =
        cs.length + (cs.map fun c => c.command.text.toList.count '\n').sum := by
    intro cs
    induction cs with
    | nil => simp
    | cons c cs ih =>
      intro n
      simp only [List.zipIdx_cons, List.flatMap_cons, List.append_assoc, List.cons_append,
        List.nil_append, List.count_append, Cycle.count_feed_line, List.count_cons_self, ih,
        List.length_cons, List.map_cons, List.sum_cons]
      omega
  rw [lines, List.flatMap_map]
  exact hcount _ 0

/--
What is printed of a report has a line for each of its cycles, which starts with the number and the
row of the cycle, and as many more as there are line feeds in the texts of the cycles.
-/
theorem Outcome.one_line_per_cycle_iff (a : Arguments) (log : List String) (r : Report) :
    let o := ofReport a log r
    (∀ i, o.output[i]? = r.cycles[i]?.map fun c =>
      toString (i + 1) ++ "\t" ++ toString c.row ++ "\t" ++ c.command.text) ∧
    o.printed.count '\n' =
      r.cycles.size + (r.cycles.toList.map fun c => c.command.text.toList.count '\n').sum ∧
    (o.printed.count '\n' = r.cycles.size ↔ ∀ c ∈ r.cycles, c.IsLine) := by
  have hcount := r.count_feed_lines
  rw [← output_ofReport a log r, ← printed] at hcount
  refine ⟨fun i => ?_, hcount, ?_⟩
  · rw [output_ofReport, r.getElem?_lines]
    rfl
  · rw [hcount, Nat.add_eq_left, List.sum_eq_zero_iff_forall_eq_nat]
    simp [Cycle.isLine_iff, List.count_eq_zero]

/-- An experiment whose only cycle has a variable of two lines as its cell. -/
def multilineCell : String :=
  "define loop l\n  set order sequential\n  setcycle 0 t \"[v]\"\n  run trial\n" ++
    "__v__\na\nb\n__end__\n"

/-- One cycle of the experiment is printed as two lines. -/
theorem multilineCell_printed :
    let read (path : String) : Id (Except FileError String) :=
      if path = "e.osexp" then .ok multilineCell else .error .isDirectory
    (Program.run read 0 ["e.osexp"]).output = ["1\t0\ttrial t=\"a\nb\""] ∧
    (lines (Program.run read 0 ["e.osexp"]).printed).map String.ofList =
      ["1\t0\ttrial t=\"a", "b\""] := by
  intro read
  have houtput : (Program.run read 0 ["e.osexp"]).output = ["1\t0\ttrial t=\"a\nb\""] := by
    decide +kernel
  refine ⟨houtput, ?_⟩
  rw [Outcome.printed, houtput]
  decide +kernel

end TrialLoop
