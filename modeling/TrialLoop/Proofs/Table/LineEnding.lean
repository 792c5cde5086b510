import TrialLoop.Proofs.Except
import TrialLoop.Table.Csv
import Mathlib.Data.Nat.Init

namespace TrialLoop

/-- The reader is not in quotes once it has read the characters from the first line on. -/
def readsOutside (before : List Char) : Bool :=
  (recordsFrom 1 .start { line := 1 } before).isOk

/--
The characters that follow others, with a carriage return in front of each line feed that the
reader meets outside of quotes.
-/
def withReturns (before : List Char) : List Char → List Char
  | [] => []
  | c :: cs =>
    if c = '\n' ∧ readsOutside before then '\r' :: '\n' :: withReturns (before ++ [c]) cs
    else c :: withReturns (before ++ [c]) cs

/-- Where the reader is: in a line, at a place of a field of a record. -/
structure ReaderState where
  line : Nat
  place : FieldPlace
  record : OpenRecord

namespace ReaderState

/-- What is read from a state on. -/
def read (s : ReaderState) (cs : List Char) : Except CsvError (List CsvRecord) :=
  recordsFrom s.line s.place s.record cs

def first : ReaderState :=
  ⟨1, .start, { line := 1 }⟩

end ReaderState

/-- The only look ahead: the text starts with a double quote only if the other one does. -/
def QuotesLike (cs more : List Char) : Prop :=
  more.head? = some '"' → cs.head? = some '"'

/-- The characters are read in one state as they are in the other one after those before them. -/
def Leads (before : List Char) (s : ReaderState) (cs : List Char) : Prop :=
  ∀ more, QuotesLike cs more → (ReaderState.first.read (before ++ more)).isOk = (s.read more).isOk

/-- From one state to the next the reader takes a character. -/
def StepsTo (s : ReaderState) (c : Char) (cs : List Char) (t : ReaderState) : Prop :=
  ∀ more, QuotesLike cs more → s.read (c :: more) = t.read more

section Leading

variable {s t : ReaderState} {c : Char} {before cs : List Char}

theorem quotesLike_nil : QuotesLike cs [] := nofun

theorem quotesLike_self : QuotesLike cs cs := id

theorem leads_first (cs : List Char) : Leads [] .first cs :=
  fun _ _ => rfl

theorem Leads.outside (h : Leads before s cs) : readsOutside before = (s.read []).isOk := by
  have hend := h [] quotesLike_nil
  rwa [List.append_nil] at hend

theorem Leads.append (taken : List Char) (h : Leads before s (taken ++ cs)) (hne : taken ≠ [])
    (hread : ∀ more, QuotesLike cs more → (s.read (taken ++ more)).isOk = (t.read more).isOk) :
    Leads (before ++ taken) t cs := by
  intro more hmore
  have hlike : QuotesLike (taken ++ cs) (taken ++ more) := by
    obtain ⟨c, taken, rfl⟩ := List.exists_cons_of_ne_nil hne
    exact id
  rw [List.append_assoc, h _ hlike, hread more hmore]

theorem Leads.step (h : Leads before s (c :: cs)) (hstep : StepsTo s c cs t) :
    Leads (before ++ [c]) t cs :=
  h.append [c] (List.cons_ne_nil c []) fun more hmore =>
    congrArg Except.isOk (hstep more hmore)

theorem withReturns_kept (h : ¬(c = '\n' ∧ readsOutside before = true)) :
    withReturns before (c :: cs) = c :: withReturns (before ++ [c]) cs :=
  if_neg h

theorem withReturns_feed (h : readsOutside before = true) :
    withReturns before ('\n' :: cs) = '\r' :: '\n' :: withReturns (before ++ ['\n']) cs :=
  if_pos ⟨rfl, h⟩

theorem quotesLike_withReturns (before cs : List Char) : QuotesLike cs (withReturns before cs) := by
  unfold QuotesLike
  cases cs with
  | nil => exact id
  | cons c cs =>
    rw [withReturns]
    split
    · nofun
    · exact id

end Leading

section Step

variable {line : Nat} {place : FieldPlace} {r : OpenRecord} {c : Char} {before cs : List Char}

/-- A double quote in quotes ends them, unless another one follows. -/
theorem steps_closed (h : cs.head? ≠ some '"') :
    StepsTo ⟨line, .quoted, r⟩ '"' cs ⟨line, .inside, r⟩ := by
  intro more hmore
  have hnext : ∀ rest, more ≠ '"' :: rest := by
    rintro rest rfl
    exact h (hmore rfl)
  rw [ReaderState.read, recordsFrom, if_pos rfl]
  · rfl
  · intro rest _ he
    exact hnext rest he

theorem steps_quoted (h : c ≠ '"') (cs : List Char) :
    StepsTo ⟨line, .quoted, r⟩ c cs
      ⟨if c = '\n' then line + 1 else line, .quoted, r.addChar c⟩ := by
  intro more _
  rw [ReaderState.read, recordsFrom, if_neg h]
  · rfl
  · intro _ he
    exact absurd he h

theorem read_outside (hplace : place ≠ .quoted) (c : Char) (cs : List Char) :
    ReaderState.read ⟨line, place, r⟩ (c :: cs) =
      if c = '"' ∧ place = .start then recordsFrom line .quoted r cs
      else if c = ',' then recordsFrom line .start r.endField cs
      else if c = '\r' ∧ cs.head? = some '\n' then recordsFrom line place r cs
      else if c = '\n' then
        (recordsFrom (line + 1) .start { line := line + 1 } cs).map r.close
      else recordsFrom line .inside (r.addChar c) cs := by
  rw [ReaderState.read, recordsFrom]
  · exact fun _ he => absurd he hplace
  · exact fun he => absurd he hplace

/-- Outside of quotes all but line feeds and carriage returns are read on their own. -/
theorem exists_step_outside (hplace : place ≠ .quoted) (hreturn : c ≠ '\r') (hfeed : c ≠ '\n')
    (cs : List Char) : ∃ t, StepsTo ⟨line, place, r⟩ c cs t := by
  have hend (more : List Char) : ¬(c = '\r' ∧ more.head? = some '\n') := fun he => hreturn he.1
  by_cases hopen : c = '"' ∧ place = .start
  · refine ⟨⟨line, .quoted, r⟩, fun more _ => ?_⟩
    rw [read_outside hplace, if_pos hopen]
    rfl
  by_cases hcomma : c = ','
  · refine ⟨⟨line, .start, r.endField⟩, fun more _ => ?_⟩
    rw [read_outside hplace, if_neg hopen, if_pos hcomma]
    rfl
  · refine ⟨⟨line, .inside, r.addChar c⟩, fun more _ => ?_⟩
    rw [read_outside hplace, if_neg hopen, if_neg hcomma, if_neg (hend more), if_neg hfeed]
    rfl

theorem read_feed (hplace : place ≠ .quoted) (cs : List Char) :
    ReaderState.read ⟨line, place, r⟩ ('\n' :: cs) =
      (ReaderState.read ⟨line + 1, .start, { line := line + 1 }⟩ cs).map r.close := by
  rw [read_outside hplace]
  rfl

theorem read_return (hplace : place ≠ .quoted) (cs : List Char) :
    ReaderState.read ⟨line, place, r⟩ ('\r' :: '\n' :: cs) =
      ReaderState.read ⟨line, place, r⟩ ('\n' :: cs) := by
  rw [read_outside hplace '\r']
  rfl

theorem read_doubled (cs : List Char) :
    ReaderState.read ⟨line, .quoted, r⟩ ('"' :: '"' :: cs) =
      ReaderState.read ⟨line, .quoted, r.addChar '"'⟩ cs :=
  rfl

theorem readsOutside_iff (h : Leads before ⟨line, place, r⟩ cs) :
    readsOutside before = true ↔ place ≠ .quoted := by
  rw [h.outside]
  cases place <;> simp [ReaderState.read, recordsFrom, Except.isOk, Except.toBool]

theorem Leads.doubled (h : Leads before ⟨line, .quoted, r⟩ ('"' :: '"' :: cs)) :
    Leads (before ++ ['"'] ++ ['"']) ⟨line, .quoted, r.addChar '"'⟩ cs := by
  rw [List.append_assoc]
  exact h.append ['"', '"'] (List.cons_ne_nil _ _) fun _ _ => rfl

theorem Leads.feed (hplace : place ≠ .quoted) (h : Leads before ⟨line, place, r⟩ ('\n' :: cs)) :
    Leads (before ++ ['\n']) ⟨line + 1, .start, { line := line + 1 }⟩ cs := by
  refine h.append ['\n'] (List.cons_ne_nil _ _) fun more _ => ?_
  rw [List.singleton_append, read_feed hplace]
  exact isOk_map _ _

end Step

section WithReturns

variable {line : Nat} {place : FieldPlace} {r : OpenRecord} {before cs : List Char}

/-- A character that is kept and read on its own may be taken away on both sides. -/
theorem read_withReturns_step {s t : ReaderState} {c : Char}
    (hkept : ¬(c = '\n' ∧ readsOutside before = true)) (hstep : StepsTo s c cs t)
    (h : t.read (withReturns (before ++ [c]) cs) = t.read cs) :
    s.read (withReturns before (c :: cs)) = s.read (c :: cs) := by
  rw [withReturns_kept hkept, hstep _ (quotesLike_withReturns _ cs), h, hstep _ quotesLike_self]

theorem read_withReturns_doubled
    (h : ReaderState.read ⟨line, .quoted, r.addChar '"'⟩
      (withReturns (before ++ ['"'] ++ ['"']) cs) =
        ReaderState.read ⟨line, .quoted, r.addChar '"'⟩ cs) :
    ReaderState.read ⟨line, .quoted, r⟩ (withReturns before ('"' :: '"' :: cs)) =
      ReaderState.read ⟨line, .quoted, r⟩ ('"' :: '"' :: cs) := by
  have hquote (before : List Char) : ¬('"' = '\n' ∧ readsOutside before = true) :=
    fun he => absurd he.1 (by decide)
  rw [withReturns_kept (hquote _), withReturns_kept (hquote _), read_doubled, h, read_doubled]

/-- A line feed outside of quotes ends the record with a carriage return before it or without. -/
theorem read_withReturns_feed (hplace : place ≠ .quoted) (hout : readsOutside before = true)
    (h : ReaderState.read ⟨line + 1, .start, { line := line + 1 }⟩
      (withReturns (before ++ ['\n']) cs) =
        ReaderState.read ⟨line + 1, .start, { line := line + 1 }⟩ cs) :
    ReaderState.read ⟨line, place, r⟩ (withReturns before ('\n' :: cs)) =
      ReaderState.read ⟨line, place, r⟩ ('\n' :: cs) := by
  rw [withReturns_feed hout, read_return hplace, read_feed hplace, h, read_feed hplace]

end WithReturns

/-- The carriage returns make no difference from any state on that the text before leads to. -/
theorem read_withReturns {cs : List Char} (hreturn : '\r' ∉ cs) {before : List Char}
    {s : ReaderState} (h : Leads before s cs) : s.read (withReturns before cs) = s.read cs := by
  induction hn : cs.length using Nat.strong_induction_on generalizing cs before s with
  | _ n ih =>
    cases cs with
    | nil => rfl
    | cons c cs =>
      obtain ⟨hc, hcs⟩ := not_or.mp (mt List.mem_cons.mpr hreturn)
      have hshorter : cs.length < n := hn ▸ Nat.lt_succ_self _
      have hkeep {t : ReaderState} (hkept : ¬(c = '\n' ∧ readsOutside before = true))
          (hstep : StepsTo s c cs t) : s.read (withReturns before (c :: cs)) = s.read (c :: cs) :=
        read_withReturns_step hkept hstep (ih _ hshorter hcs (h.step hstep) rfl)
      obtain ⟨line, place, r⟩ := s
      by_cases hplace : place = .quoted
      · subst hplace
        have hkept : ¬(c = '\n' ∧ readsOutside before = true) := fun hout =>
          (readsOutside_iff h).mp hout.2 rfl
        by_cases hquote : c = '"'
        · subst hquote
          by_cases hdouble : cs.head? = some '"'
          · -- the only step that takes two characters
            obtain ⟨rest, rfl⟩ := List.head?_eq_some_iff.mp hdouble
            have hrest : '\r' ∉ rest := fun hmem => hcs (List.mem_cons_of_mem _ hmem)
            have hlength : rest.length < n := Nat.lt_of_succ_lt hshorter
            exact read_withReturns_doubled (ih _ hlength hrest h.doubled rfl)
          · exact hkeep hkept (steps_closed hdouble)
        · exact hkeep hkept (steps_quoted hquote cs)
      by_cases hfeed : c = '\n'
      · subst hfeed
        have hout := (readsOutside_iff h).mpr hplace
        exact read_withReturns_feed hplace hout (ih _ hshorter hcs (h.feed hplace) rfl)
      · obtain ⟨t, hstep⟩ := @exists_step_outside line place r c hplace (Ne.symm hc) hfeed cs
        exact hkeep (fun hout => hfeed hout.1) hstep

/-- A text without carriage returns is the same table, or fails in the same way, with them. -/
theorem Table.ofCsv_withReturns {text : String} (h : '\r' ∉ text.toList) :
    ofCsv (String.ofList (withReturns [] text.toList)) = ofCsv text := by
  have hrecords : csvRecords (String.ofList (withReturns [] text.toList)) = csvRecords text := by
    rw [csvRecords, String.toList_ofList]
    exact read_withReturns h (leads_first text.toList)
  rw [ofCsv, hrecords, ofCsv]

/-- Of all line feeds only the one in quotes, before a doubled quote, stays alone. -/
theorem Table.ofCsv_withReturns_quotedFeed :
    let text := "a,b\n\n\"x\n\"\"y\",1\n2,\"\"\n"
    '\r' ∉ text.toList ∧
      withReturns [] text.toList = "a,b\r\n\r\n\"x\n\"\"y\",1\r\n2,\"\"\r\n".toList ∧
      ofCsv (String.ofList (withReturns [] text.toList)) = ofCsv text := by
  intro text
  have hreturn : '\r' ∉ text.toList := by decide
  exact ⟨hreturn, by decide, ofCsv_withReturns hreturn⟩

end TrialLoop
