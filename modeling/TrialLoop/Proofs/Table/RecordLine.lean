import TrialLoop.Proofs.Table.Csv
import TrialLoop.Proofs.Table.LineEnding

namespace TrialLoop

/--
The place in a field after some characters of one record. There is none if a line feed outside of
quotes ends the record among them.
-/
def endPlace? : FieldPlace → List Char → Option FieldPlace
  | place, [] => some place
  | .quoted, '"' :: '"' :: cs => endPlace? .quoted cs
  | .quoted, c :: cs => endPlace? (if c = '"' then .inside else .quoted) cs
  | place, c :: cs =>
    if c = '\n' then none
    else if c = '"' ∧ place = .start then endPlace? .quoted cs
    else endPlace? (if c = ',' then .start else .inside) cs

/-- A record with the line feed that ends it. All line feeds before that one are in quotes. -/
def IsWholeRecord (own : List Char) : Prop :=
  ∃ body place, own = body ++ ['\n'] ∧ endPlace? .start body = some place ∧ place ≠ .quoted

/-- A record of a text: whole ones stand before it, and it is whole or the last one. -/
structure RecordAt (text before own after : List Char) : Prop where
  text : text = before ++ own ++ after
  before : ∃ earlier : List (List Char), before = earlier.flatten ∧ ∀ w ∈ earlier, IsWholeRecord w
  own : IsWholeRecord own ∨ after = [] ∧ (endPlace? .start own).isSome

/-- What is read of a record so far. -/
structure PartRecord where
  place : FieldPlace
  fields : List String
  field : List Char

namespace PartRecord

/-- Nothing is read yet. -/
def empty : PartRecord :=
  ⟨.start, [], []⟩

/-- What is read from a line on, in a record that starts on a line. -/
def read (s : PartRecord) (line start : Nat) (cs : List Char) : Except CsvError (List CsvRecord) :=
  recordsFrom line s.place ⟨start, s.fields, s.field⟩ cs

/-- Before a text that begins in a way, the characters lead from one part of a record to another. -/
def Passes (s : PartRecord) (taken : List Char) (next : Option Char) (t : PartRecord) : Prop :=
  ∀ line start more, more.head? = next →
    s.read line start (taken ++ more) = t.read (line + taken.count '\n') start more

variable {s t u : PartRecord} {place p : FieldPlace} {fields : List String} {field : List Char}
  {c : Char} {taken body cs : List Char} {next : Option Char}

theorem Passes.refl (s : PartRecord) (next : Option Char) : s.Passes [] next s :=
  fun _ _ _ _ => rfl

theorem Passes.trans (h : s.Passes taken (body.head?.or next) t) (h' : t.Passes body next u) :
    s.Passes (taken ++ body) next u := by
  intro line start more hmore
  have hhead : (body ++ more).head? = body.head?.or next := by
    rw [List.head?_append, hmore]
  rw [List.append_assoc, h line start _ hhead, h' _ start more hmore, List.count_append,
    Nat.add_assoc]

theorem passes_doubled (next : Option Char) :
    Passes ⟨.quoted, fields, field⟩ ['"', '"'] next ⟨.quoted, fields, '"' :: field⟩ :=
  fun _ _ _ _ => rfl

theorem passes_closed (h : next ≠ some '"') :
    Passes ⟨.quoted, fields, field⟩ ['"'] next ⟨.inside, fields, field⟩ := by
  intro line start more hmore
  exact steps_closed (hmore ▸ h) more quotesLike_self

theorem passes_quoted (h : c ≠ '"') (next : Option Char) :
    Passes ⟨.quoted, fields, field⟩ [c] next ⟨.quoted, fields, c :: field⟩ := by
  intro line start more _
  refine (steps_quoted h more more quotesLike_self).trans ?_
  by_cases hfeed : c = '\n'
  · subst hfeed
    rfl
  · simp [hfeed]
    rfl

theorem passes_opened (next : Option Char) :
    Passes ⟨.start, fields, field⟩ ['"'] next ⟨.quoted, fields, field⟩ :=
  fun _ _ _ _ => rfl

theorem passes_comma (hplace : place ≠ .quoted) (next : Option Char) :
    Passes ⟨place, fields, field⟩ [','] next
      ⟨.start, String.ofList field.reverse :: fields, []⟩ := by
  intro line start more _
  exact read_outside hplace ',' more

theorem passes_return (hplace : place ≠ .quoted) :
    Passes ⟨place, fields, field⟩ ['\r'] (some '\n') ⟨place, fields, field⟩ := by
  intro line start more hmore
  obtain ⟨more, rfl⟩ := List.head?_eq_some_iff.mp hmore
  exact read_return hplace more

theorem passes_plain (hplace : place ≠ .quoted) (hopen : ¬(c = '"' ∧ place = .start))
    (hcomma : c ≠ ',') (hfeed : c ≠ '\n') (hreturn : ¬(c = '\r' ∧ next = some '\n')) :
    Passes ⟨place, fields, field⟩ [c] next ⟨.inside, fields, c :: field⟩ := by
  intro line start more hmore
  refine (read_outside hplace c more).trans ?_
  rw [if_neg hopen, if_neg hcomma, if_neg (hmore ▸ hreturn), if_neg hfeed,
    List.count_cons_of_ne hfeed]
  rfl

/-- The characters of one record lead on in it, into quotes exactly if their end place is there. -/
theorem exists_passes (h : endPlace? place body = some p) (next : Option Char)
    (hnext : next ≠ some '"') (fields : List String) (field : List Char) :
    ∃ t : PartRecord, (t.place = .quoted ↔ p = .quoted) ∧
      Passes ⟨place, fields, field⟩ body next t := by
  fun_induction endPlace? place body generalizing fields field with
  | case1 place =>
    cases Option.some.inj h
    exact ⟨_, Iff.rfl, .refl _ next⟩
  | case2 cs ih =>
    obtain ⟨t, ht, hpasses⟩ := ih h fields ('"' :: field)
    exact ⟨t, ht, (passes_doubled _).trans hpasses⟩
  | case3 c cs hsingle ih =>
    by_cases hc : c = '"'
    · subst hc
      obtain ⟨t, ht, hpasses⟩ := ih h fields field
      have hhead : cs.head?.or next ≠ some '"' := by
        cases cs with
        | nil => exact hnext
        | cons d cs => exact fun he => hsingle cs rfl (congrArg (· :: cs) (Option.some.inj he))
      exact ⟨t, ht, (passes_closed hhead).trans hpasses⟩
    · rw [if_neg hc] at ih h
      obtain ⟨t, ht, hpasses⟩ := ih h fields (c :: field)
      exact ⟨t, ht, (passes_quoted hc _).trans hpasses⟩
  | case4 => cases h
  | case5 place c cs _ hplace hfeed hopen ih =>
    obtain ⟨rfl, rfl⟩ := hopen
    obtain ⟨t, ht, hpasses⟩ := ih h fields field
    exact ⟨t, ht, (passes_opened _).trans hpasses⟩
  | case6 place c cs _ hplace hfeed hopen ih =>
    by_cases hcomma : c = ','
    · subst hcomma
      obtain ⟨t, ht, hpasses⟩ := ih h (String.ofList field.reverse :: fields) []
      exact ⟨t, ht, (passes_comma hplace _).trans hpasses⟩
    rw [if_neg hcomma] at ih h
    by_cases hreturn : c = '\r' ∧ cs.head?.or next = some '\n'
    · obtain ⟨rfl, hfeed'⟩ := hreturn
      cases cs with
      | nil =>
        cases Option.some.inj h
        obtain rfl : next = some '\n' := hfeed'
        exact ⟨⟨place, fields, field⟩, by simpa using hplace, passes_return hplace⟩
      | cons d cs =>
        obtain rfl : d = '\n' := Option.some.inj hfeed'
        cases h
    · obtain ⟨t, ht, hpasses⟩ := ih h fields (c :: field)
      exact ⟨t, ht, (passes_plain hplace hopen hcomma hfeed hreturn).trans hpasses⟩

end PartRecord

/-- What is read from a line on, on which a record starts. -/
def readRecord (line : Nat) (cs : List Char) : Except CsvError (List CsvRecord) :=
  recordsFrom line .start { line := line } cs

section Record

variable {place p : FieldPlace} {body cs : List Char}

theorem readRecord_whole (h : endPlace? .start body = some p) (hp : p ≠ .quoted) :
    ∃ fields field, ∀ line more, readRecord line (body ++ '\n' :: more) =
      (readRecord (line + body.count '\n' + 1) more).map
        (OpenRecord.close ⟨line, fields, field⟩) := by
  obtain ⟨⟨place, fields, field⟩, ht, hpasses⟩ :=
    PartRecord.exists_passes h (some '\n') (by decide) [] []
  have hplace : place ≠ .quoted := fun he => hp (ht.mp he)
  exact ⟨fields, field, fun line more =>
    (hpasses line line ('\n' :: more) rfl).trans (read_feed hplace more)⟩

theorem readRecord_last (h : endPlace? .start body = some p) (hp : p ≠ .quoted) :
    ∃ fields field, ∀ line,
      readRecord line body = .ok (OpenRecord.close ⟨line, fields, field⟩ []) := by
  obtain ⟨⟨place, fields, field⟩, ht, hpasses⟩ :=
    PartRecord.exists_passes h none (by decide) [] []
  refine ⟨fields, field, fun line => ?_⟩
  have hread := hpasses line line [] rfl
  rw [List.append_nil] at hread
  refine hread.trans ?_
  cases place with
  | quoted => exact absurd (ht.mp rfl) hp
  | start | inside => rfl

theorem readRecord_open (h : endPlace? .start body = some .quoted) (line : Nat) :
    readRecord line body = .error (.unterminatedQuote line) := by
  obtain ⟨⟨place, fields, field⟩, ht, hpasses⟩ :=
    PartRecord.exists_passes h none (by decide) [] []
  obtain rfl : place = .quoted := ht.mpr rfl
  have hread := hpasses line line [] rfl
  rw [List.append_nil] at hread
  exact hread

theorem endPlace?_quoted {c : Char} (h : c = '"' → cs.head? ≠ some '"') :
    endPlace? .quoted (c :: cs) = endPlace? (if c = '"' then .inside else .quoted) cs := by
  rw [endPlace?]
  intro rest hc hcs
  exact h hc (hcs ▸ rfl)

theorem endPlace?_outside (hplace : place ≠ .quoted) (c : Char) (cs : List Char) :
    endPlace? place (c :: cs) =
      if c = '\n' then none
      else if c = '"' ∧ place = .start then endPlace? .quoted cs
      else endPlace? (if c = ',' then .start else .inside) cs := by
  rw [endPlace?]
  · exact fun _ he => absurd he hplace
  · exact fun he => absurd he hplace

/-- A text is in one record, or a line feed ends its first one. -/
theorem exists_record (place : FieldPlace) (cs : List Char) :
    (∃ p, endPlace? place cs = some p) ∨
      ∃ body rest p, cs = body ++ '\n' :: rest ∧ endPlace? place body = some p ∧ p ≠ .quoted := by
  fun_induction endPlace? place cs with
  | case1 place => exact .inl ⟨place, rfl⟩
  | case2 cs ih =>
    refine ih.imp_right ?_
    rintro ⟨body, rest, p, rfl, hp, hne⟩
    exact ⟨'"' :: '"' :: body, rest, p, rfl, hp, hne⟩
  | case3 c cs hsingle ih =>
    refine ih.imp_right ?_
    rintro ⟨body, rest, p, rfl, hp, hne⟩
    refine ⟨c :: body, rest, p, rfl, ?_, hne⟩
    rwa [endPlace?_quoted]
    intro hc hhead
    obtain ⟨body, rfl⟩ := List.head?_eq_some_iff.mp hhead
    exact hsingle _ hc rfl
  | case4 place cs hplace => exact .inr ⟨[], cs, place, rfl, rfl, hplace⟩
  | case5 place c cs _ hplace hfeed hopen ih =>
    refine ih.imp_right ?_
    rintro ⟨body, rest, p, rfl, hp, hne⟩
    obtain ⟨rfl, rfl⟩ := hopen
    refine ⟨'"' :: body, rest, p, rfl, ?_, hne⟩
    rwa [endPlace?_outside hplace, if_neg hfeed, if_pos ⟨rfl, rfl⟩]
  | case6 place c cs _ hplace hfeed hopen ih =>
    refine ih.imp_right ?_
    rintro ⟨body, rest, p, rfl, hp, hne⟩
    refine ⟨c :: body, rest, p, rfl, ?_, hne⟩
    rwa [endPlace?_outside hplace, if_neg hfeed, if_neg hopen]

end Record

/-- Whether a record is kept does not depend on where it stands. -/
theorem close_keeps_or_drops (fields : List String) (field : List Char) :
    (∀ line records, OpenRecord.close ⟨line, fields, field⟩ records = records) ∨
      ∃ all, ∀ line records, OpenRecord.close ⟨line, fields, field⟩ records =
        ⟨line, all⟩ :: records := by
  by_cases hblank : fields = [] ∧ isBlankText field = true
  · exact .inl fun _ _ => if_pos hblank
  · exact .inr ⟨(String.ofList field.reverse :: fields).reverse, fun _ _ => if_neg hblank⟩

section Tags

variable {line : Nat} {text own rest before after : List Char}

theorem recordAt_first (h : IsWholeRecord own) (rest : List Char) :
    RecordAt (own ++ rest) [] own rest :=
  ⟨rfl, ⟨[], rfl, by simp⟩, .inl h⟩

theorem recordAt_last {p : FieldPlace} (h : endPlace? .start own = some p) :
    RecordAt own [] own [] :=
  ⟨by simp, ⟨[], rfl, by simp⟩, .inr ⟨rfl, by rw [h]; rfl⟩⟩

theorem RecordAt.behind (h : RecordAt rest before own after) {first : List Char}
    (hfirst : IsWholeRecord first) : RecordAt (first ++ rest) (first ++ before) own after := by
  obtain ⟨earlier, hearlier, hwhole⟩ := h.before
  refine ⟨?_, ⟨first :: earlier, ?_, ?_⟩, h.own⟩
  · rw [h.text]
    simp
  · rw [hearlier, List.flatten_cons]
  · exact List.forall_mem_cons.mpr ⟨hfirst, hwhole⟩

/-- The fields are read from a record of the text, with the line that it starts on. -/
def ReadAt (line : Nat) (text : List Char) (r : CsvRecord) : Prop :=
  ∃ before own after, RecordAt text before own after ∧ readRecord 1 own = .ok [⟨1, r.fields⟩] ∧
    r.line = line + before.count '\n'

/-- The quotes of the last record stay open. The error has the line that the record starts on. -/
def OpenAt (line : Nat) (text : List Char) (e : CsvError) : Prop :=
  ∃ before own, RecordAt text before own [] ∧ endPlace? .start own = some .quoted ∧
    e = .unterminatedQuote (line + before.count '\n')

theorem count_feed_record (body before : List Char) (line : Nat) :
    line + body.count '\n' + 1 + before.count '\n' =
      line + ((body ++ ['\n']) ++ before).count '\n' := by
  simp only [List.count_append, List.count_singleton_self]
  omega

theorem ReadAt.behind {body : List Char} {r : CsvRecord} (hbody : IsWholeRecord (body ++ ['\n']))
    (h : ReadAt (line + body.count '\n' + 1) rest r) : ReadAt line (body ++ '\n' :: rest) r := by
  obtain ⟨before, own, after, hat, hread, hline⟩ := h
  refine ⟨_, own, after, ?_, hread, hline.trans (count_feed_record body before line)⟩
  rw [List.append_cons]
  exact hat.behind hbody

theorem OpenAt.behind {body : List Char} {e : CsvError} (hbody : IsWholeRecord (body ++ ['\n']))
    (h : OpenAt (line + body.count '\n' + 1) rest e) : OpenAt line (body ++ '\n' :: rest) e := by
  obtain ⟨before, own, hat, hopen, he⟩ := h
  refine ⟨(body ++ ['\n']) ++ before, own, ?_, hopen, ?_⟩
  · rw [List.append_cons]
    exact hat.behind hbody
  · rw [he, count_feed_record]

theorem ReadAt.line_le {r : CsvRecord} (h : ReadAt line text r) : line ≤ r.line := by
  obtain ⟨before, -, -, -, -, hline⟩ := h
  omega

/-- Reading gives records with their lines in order, or fails in the last record. -/
def Tagged (line : Nat) (text : List Char) : Except CsvError (List CsvRecord) → Prop
  | .ok records => records.Pairwise (·.line < ·.line) ∧ ∀ r ∈ records, ReadAt line text r
  | .error e => OpenAt line text e

theorem readAt_last {p : FieldPlace} {fields : List String} {field : List Char} {all : List String}
    (hp : endPlace? .start own = some p)
    (hread : ∀ line, readRecord line own = .ok (OpenRecord.close ⟨line, fields, field⟩ []))
    (hkept : ∀ line records, OpenRecord.close ⟨line, fields, field⟩ records =
      ⟨line, all⟩ :: records) : ReadAt line own ⟨line, all⟩ :=
  ⟨[], own, [], recordAt_last hp, by rw [hread, hkept], by simp⟩

theorem tagged_last {p : FieldPlace} (hp : endPlace? .start text = some p) (line : Nat) :
    Tagged line text (readRecord line text) := by
  by_cases hopen : p = .quoted
  · subst hopen
    rw [readRecord_open hp]
    exact ⟨[], text, recordAt_last hp, hp, by simp⟩
  obtain ⟨fields, field, hread⟩ := readRecord_last hp hopen
  rw [hread]
  rcases close_keeps_or_drops fields field with hdropped | ⟨all, hkept⟩
  · rw [hdropped]
    exact ⟨.nil, by simp⟩
  · rw [hkept]
    refine ⟨List.pairwise_singleton _ _, ?_⟩
    rw [List.forall_mem_singleton]
    exact readAt_last hp hread hkept

theorem Tagged.behind {body : List Char} {p : FieldPlace}
    (hp : endPlace? .start body = some p) (hne : p ≠ .quoted)
    (h : Tagged (line + body.count '\n' + 1) rest
      (readRecord (line + body.count '\n' + 1) rest)) :
    Tagged line (body ++ '\n' :: rest) (readRecord line (body ++ '\n' :: rest)) := by
  have hbody : IsWholeRecord (body ++ ['\n']) := ⟨body, p, rfl, hp, hne⟩
  obtain ⟨fields, field, hread⟩ := readRecord_whole hp hne
  rw [hread]
  cases hrest : readRecord (line + body.count '\n' + 1) rest with
  | error e =>
    rw [hrest] at h
    exact OpenAt.behind hbody h
  | ok records =>
    rw [hrest] at h
    obtain ⟨hincreasing, hat⟩ := h
    have hlater : ∀ r ∈ records, ReadAt line (body ++ '\n' :: rest) r :=
      fun r hr => (hat r hr).behind hbody
    rcases close_keeps_or_drops fields field with hdropped | ⟨all, hkept⟩
    · show Tagged line _ (.ok (OpenRecord.close ⟨line, fields, field⟩ records))
      rw [hdropped]
      exact ⟨hincreasing, hlater⟩
    · show Tagged line _ (.ok (OpenRecord.close ⟨line, fields, field⟩ records))
      rw [hkept]
      have hfirst : ReadAt line (body ++ '\n' :: rest) ⟨line, all⟩ := by
        refine ⟨[], body ++ ['\n'], rest, ?_, ?_, by simp⟩
        · rw [List.append_cons]
          exact recordAt_first hbody rest
        · rw [hread]
          exact congrArg Except.ok (hkept 1 [])
      refine ⟨List.pairwise_cons.mpr ⟨fun r hr => ?_, hincreasing⟩,
        List.forall_mem_cons.mpr ⟨hfirst, hlater⟩⟩
      have hle := (hat r hr).line_le
      show line < r.line
      omega

/-- Each record has the line of its first character, whatever line feeds stand before it. -/
theorem readRecord_tagged (line : Nat) (text : List Char) :
    Tagged line text (readRecord line text) := by
  induction hn : text.length using Nat.strong_induction_on generalizing line text with
  | _ n ih =>
    rcases exists_record .start text with ⟨p, hp⟩ | ⟨body, rest, p, rfl, hp, hne⟩
    · exact tagged_last hp line
    · have hshorter : rest.length < n := by
        simp only [List.length_append, List.length_cons] at hn
        omega
      exact Tagged.behind hp hne (ih _ hshorter _ rest rfl)

/-- If the quotes of a record stay open, it is the last one, and nothing of the text is read. -/
theorem readRecord_openAt {e : CsvError} (h : OpenAt line text e) :
    readRecord line text = .error e := by
  obtain ⟨before, own, hat, hopen, rfl⟩ := h
  obtain ⟨earlier, rfl, hwhole⟩ := hat.before
  rw [hat.text, List.append_nil]
  clear hat
  induction earlier generalizing line with
  | nil => exact readRecord_open hopen line
  | cons first earlier ih =>
    obtain ⟨⟨body, p, rfl, hp, hne⟩, hlater⟩ := List.forall_mem_cons.mp hwhole
    obtain ⟨fields, field, hread⟩ := readRecord_whole hp hne
    rw [List.flatten_cons, List.append_assoc, List.append_assoc, List.singleton_append, hread,
      ih hlater, count_feed_record, List.append_assoc, List.singleton_append]
    rfl

theorem readRecord_eq_error_iff {e : CsvError} :
    readRecord line text = .error e ↔ OpenAt line text e := by
  refine ⟨fun h => ?_, readRecord_openAt⟩
  have htagged := readRecord_tagged line text
  rwa [h] at htagged

end Tags

section Width

variable {width : Nat} {records : List CsvRecord}

/-- The first record of another width ends the table. -/
theorem mapM_cells_eq_error_iff {e : CsvError} :
    records.mapM (CsvRecord.cells width) = .error e ↔
      ∃ earlier r later, records = earlier ++ r :: later ∧
        (∀ s ∈ earlier, s.fields.length = width) ∧ r.fields.length ≠ width ∧
        e = .recordLength r.line width r.fields.length := by
  induction records with
  | nil =>
    constructor
    · nofun
    · rintro ⟨earlier, r, later, h, -⟩
      simp at h
  | cons first records ih =>
    rw [List.mapM_cons]
    by_cases hwidth : first.fields.length = width
    · have hcells : first.cells width = .ok (textCells first.fields) := if_pos hwidth
      have hrest : (do
          let a ← first.cells width
          let as ← records.mapM (CsvRecord.cells width)
          pure (a :: as)) = .error e ↔ records.mapM (CsvRecord.cells width) = .error e := by
        rw [hcells]
        cases records.mapM (CsvRecord.cells width) with
        | error e' => exact Iff.rfl
        | ok as => exact ⟨nofun, nofun⟩
      rw [hrest, ih]
      constructor
      · rintro ⟨earlier, r, later, rfl, hearlier, hr⟩
        exact ⟨first :: earlier, r, later, rfl, List.forall_mem_cons.mpr ⟨hwidth, hearlier⟩, hr⟩
      · rintro ⟨earlier, r, later, heq, hearlier, hr⟩
        cases earlier with
        | nil =>
          obtain ⟨rfl, rfl⟩ := List.cons.inj heq
          exact absurd hwidth hr.1
        | cons s earlier =>
          obtain ⟨rfl, rfl⟩ := List.cons.inj heq
          exact ⟨earlier, r, later, rfl, (List.forall_mem_cons.mp hearlier).2, hr⟩
    · have hcells : first.cells width =
          .error (.recordLength first.line width first.fields.length) := if_neg hwidth
      rw [hcells]
      constructor
      · intro h
        exact ⟨[], first, records, rfl, by simp, hwidth, (Except.error.inj h).symm⟩
      · rintro ⟨earlier, r, later, heq, hearlier, hr, rfl⟩
        cases earlier with
        | nil =>
          obtain ⟨rfl, rfl⟩ := List.cons.inj heq
          rfl
        | cons s earlier =>
          obtain ⟨rfl, rfl⟩ := List.cons.inj heq
          exact absurd (hearlier _ List.mem_cons_self) hwidth

end Width

namespace Table

variable {text : String} {e : CsvError}

theorem csvRecords_eq (text : String) : csvRecords text = readRecord 1 text.toList := rfl

theorem ofCsv_of_error (h : csvRecords text = .error e) : ofCsv text = .error e := by
  rw [ofCsv, h]
  rfl

theorem ofCsv_of_nil (h : csvRecords text = .ok []) : ofCsv text = .error .noHeader := by
  rw [ofCsv, h]
  rfl

/-- Once all records are read, the rows fail as the table does, names of columns aside. -/
theorem ofCsv_eq_error_iff_of_header {header : CsvRecord} {records : List CsvRecord}
    (h : csvRecords text = .ok (header :: records)) (e : CsvError)
    (he : ∀ cause, e ≠ .table cause) :
    ofCsv text = .error e ↔ records.mapM (CsvRecord.cells header.fields.length) = .error e := by
  have heq : ofCsv text = (do
      let rows ← records.mapM (CsvRecord.cells header.fields.length)
      (ofRows header.fields rows.toArray).mapError .table) := by
    rw [ofCsv, h]
    rfl
  rw [heq]
  cases records.mapM (CsvRecord.cells header.fields.length) with
  | error e' =>
    constructor <;> exact fun he => congrArg Except.error (Except.error.inj he)
  | ok rows =>
    refine iff_of_false (fun htable => ?_) (fun hok => by cases hok)
    cases hrows : ofRows header.fields rows.toArray with
    | ok table => simp [hrows, bind, Except.bind, Except.mapError] at htable
    | error cause =>
      refine he cause ?_
      simpa [hrows, bind, Except.bind, Except.mapError, eq_comm] using htable

/-- Quotes that stay open are found before any record of another width. -/
theorem ofCsv_unterminated_iff {line : Nat} :
    ofCsv text = .error (.unterminatedQuote line) ↔
      OpenAt 1 text.toList (.unterminatedQuote line) := by
  rw [← readRecord_eq_error_iff, ← csvRecords_eq]
  refine ⟨fun h => ?_, ofCsv_of_error⟩
  cases hread : csvRecords text with
  | error e => exact congrArg Except.error (Except.error.inj ((ofCsv_of_error hread).symm.trans h))
  | ok records =>
    cases records with
    | nil =>
      rw [ofCsv_of_nil hread] at h
      cases h
    | cons header records =>
      rw [ofCsv_eq_error_iff_of_header hread (.unterminatedQuote line) nofun,
        mapM_cells_eq_error_iff] at h
      obtain ⟨earlier, r, later, -, -, -, he⟩ := h
      cases he

theorem ofCsv_recordLength_iff {line width found : Nat} :
    ofCsv text = .error (.recordLength line width found) ↔
      ∃ header earlier r later, csvRecords text = .ok (header :: (earlier ++ r :: later)) ∧
        (∀ s ∈ earlier, s.fields.length = width) ∧ r.fields.length ≠ width ∧
        header.fields.length = width ∧ r.fields.length = found ∧ r.line = line := by
  constructor
  · intro h
    cases hread : csvRecords text with
    | error e =>
      rw [ofCsv_of_error hread] at h
      obtain rfl := Except.error.inj h
      obtain ⟨before, own, -, -, he⟩ := readRecord_eq_error_iff.mp hread
      cases he
    | ok records =>
      cases records with
      | nil =>
        rw [ofCsv_of_nil hread] at h
        cases h
      | cons header records =>
        rw [ofCsv_eq_error_iff_of_header hread (.recordLength line width found) nofun,
          mapM_cells_eq_error_iff] at h
        obtain ⟨earlier, r, later, rfl, hearlier, hr, he⟩ := h
        cases he
        exact ⟨header, earlier, r, later, rfl, hearlier, hr, rfl, rfl, rfl⟩
  · rintro ⟨header, earlier, r, later, hread, hearlier, hr, rfl, rfl, rfl⟩
    have hcells : (earlier ++ r :: later).mapM (CsvRecord.cells header.fields.length) =
        .error (.recordLength r.line header.fields.length r.fields.length) :=
      mapM_cells_eq_error_iff.mpr ⟨earlier, r, later, rfl, hearlier, hr, rfl⟩
    exact (ofCsv_eq_error_iff_of_header hread (.recordLength _ _ _) nofun).mpr hcells

/--
Every record has the line of its first character: one more than the line feeds before it, in quotes,
in other records or after empty ones. These lines increase, and they are what errors point at: where
the quotes of the last record stay open, that of this record, and else that of the first record with
another number of fields than the header.
-/
theorem csv_lines_are_first_lines (text : String) :
    (∀ records, csvRecords text = .ok records →
      records.Pairwise (·.line < ·.line) ∧ ∀ r ∈ records, ReadAt 1 text.toList r) ∧
    (∀ line, ofCsv text = .error (.unterminatedQuote line) ↔
      OpenAt 1 text.toList (.unterminatedQuote line)) ∧
    ∀ line width found, ofCsv text = .error (.recordLength line width found) ↔
      ∃ header earlier r later, csvRecords text = .ok (header :: (earlier ++ r :: later)) ∧
        (∀ s ∈ earlier, s.fields.length = width) ∧ r.fields.length ≠ width ∧
        header.fields.length = width ∧ r.fields.length = found ∧ r.line = line := by
  refine ⟨fun records hread => ?_, fun line => ofCsv_unterminated_iff,
    fun line width found => ofCsv_recordLength_iff⟩
  have htagged := readRecord_tagged 1 text.toList
  rwa [← csvRecords_eq, hread] at htagged

/-- An empty line and a line feed in quotes stand before the record that is too short. -/
theorem csv_lines_are_first_lines_ragged :
    let text := "a,b\n \n\"x\n\"\"y\",1\n2\n"
    csvRecords text = .ok [⟨1, ["a", "b"]⟩, ⟨3, ["x\n\"y", "1"]⟩, ⟨5, ["2"]⟩] ∧
      ReadAt 1 text.toList ⟨5, ["2"]⟩ ∧ ofCsv text = .error (.recordLength 5 2 1) := by
  intro text
  have hread : csvRecords text =
      .ok [⟨1, ["a", "b"]⟩, ⟨3, ["x\n\"y", "1"]⟩, ⟨5, ["2"]⟩] := by
    have hchars : text.toList = ['a', ',', 'b', '\n', ' ', '\n', '"', 'x', '\n', '"', '"', 'y', '"',
        ',', '1', '\n', '2', '\n'] := by simp [text]
    rw [csvRecords, hchars]
    rfl
  obtain ⟨htagged, -, hlength⟩ := csv_lines_are_first_lines text
  refine ⟨hread, (htagged _ hread).2 _ (by simp), (hlength 5 2 1).mpr ?_⟩
  exact ⟨⟨1, ["a", "b"]⟩, [⟨3, ["x\n\"y", "1"]⟩], ⟨5, ["2"]⟩, [], hread, by simp, by decide, rfl,
    rfl, rfl⟩

end Table

end TrialLoop
