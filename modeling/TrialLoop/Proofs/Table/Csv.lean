import TrialLoop.Proofs.Table.Rectangular
import TrialLoop.Proofs.Text.Blank
import TrialLoop.Table.Csv

namespace TrialLoop

/-- The text with each double quote written twice. -/
def doubleQuotes : List Char → List Char
  | [] => []
  | c :: cs => if c = '"' then '"' :: '"' :: doubleQuotes cs else c :: doubleQuotes cs

/-- A field in double quotes, between which any text may stand. -/
def csvField (s : String) : List Char :=
  '"' :: (doubleQuotes s.toList ++ ['"'])

/-- What ends a line of a file. -/
inductive LineEnding where
  | feed | returnFeed

def LineEnding.text : LineEnding → List Char
  | feed => ['\n']
  | returnFeed => ['\r', '\n']

/-- A record with all fields in quotes and a comma between each two. -/
def csvLine (ending : LineEnding) (fields : List String) : List Char :=
  [','].intercalate (fields.map csvField) ++ ending.text

/-- The file of some records. -/
def csvText (ending : LineEnding) (records : List (List String)) : String :=
  String.ofList (records.flatMap (csvLine ending))

/-- A record of one blank field, in quotes or not, counts as an empty line. -/
def isBlankRecord : List String → Bool
  | [s] => isBlankText s.toList
  | _ => false

/-- The record in front of others, unless it is blank. -/
def keepRecord (line : Nat) (fields : List String) (records : List CsvRecord) : List CsvRecord :=
  if isBlankRecord fields then records else ⟨line, fields⟩ :: records

/-- The line feeds inside the fields of a record. -/
def innerFeeds (fields : List String) : Nat :=
  (fields.flatMap String.toList).count '\n'

/-- The line after a record that starts on a line. -/
def lineAfter (line : Nat) (fields : List String) : Nat :=
  line + innerFeeds fields + 1

theorem lineAfter_cons (line : Nat) (s : String) (fields : List String) :
    lineAfter line (s :: fields) = lineAfter (line + s.toList.count '\n') fields := by
  simp only [lineAfter, innerFeeds, List.flatMap_cons, List.count_append]
  omega

/-- The records that are read from the file of some records, each with its first line. -/
def keptRecords : Nat → List (List String) → List CsvRecord
  | _, [] => []
  | line, fields :: records =>
    keepRecord line fields (keptRecords (lineAfter line fields) records)

theorem keptRecords_fields (line : Nat) (records : List (List String)) :
    (keptRecords line records).map (·.fields) = records.filter fun r => !isBlankRecord r := by
  induction records generalizing line with
  | nil => rfl
  | cons fields records ih =>
    cases h : isBlankRecord fields <;> simp [keptRecords, keepRecord, h, ih]

namespace OpenRecord

theorem close_eq (line : Nat) (before : List String) (s : String) (records : List CsvRecord) :
    close ⟨line, before, s.toList.reverse⟩ records =
      keepRecord line (before.reverse ++ [s]) records := by
  cases before with
  | nil => simp [close, keepRecord, isBlankRecord, isBlankText, endField]
  | cons f fs =>
    have hblank : isBlankRecord ((f :: fs).reverse ++ [s]) = false := by
      cases h : (f :: fs).reverse with
      | nil => simp at h
      | cons g gs => cases gs <;> rfl
    rw [keepRecord, hblank]
    simp [close, endField]

end OpenRecord

/-- The doubled quotes of a field are read as one each, up to the quote that ends the field. -/
theorem recordsFrom_doubleQuotes (s : List Char) {rest : List Char}
    (hr : rest.head? ≠ some '"') (line : Nat) (r : OpenRecord) :
    recordsFrom line .quoted r (doubleQuotes s ++ '"' :: rest) =
      recordsFrom (line + s.count '\n') .inside { r with field := s.reverse ++ r.field } rest := by
  induction s generalizing line r with
  | nil =>
    cases rest with
    | nil => simp [doubleQuotes, recordsFrom]
    | cons c cs =>
      have hc : c ≠ '"' := fun h => hr (by rw [h]; rfl)
      simp [doubleQuotes, recordsFrom, hc]
  | cons c s ih =>
    by_cases hc : c = '"'
    · subst hc
      simp [doubleQuotes, recordsFrom, ih, OpenRecord.addChar]
    · have hstep : recordsFrom line .quoted r (c :: (doubleQuotes s ++ '"' :: rest)) =
          recordsFrom (if c = '\n' then line + 1 else line) .quoted (r.addChar c)
            (doubleQuotes s ++ '"' :: rest) := by
        rw [recordsFrom, if_neg hc]
        intro _ he
        exact absurd he hc
      rw [doubleQuotes, if_neg hc, List.cons_append, hstep, ih]
      by_cases hn : c = '\n'
      · subst hn
        simp [OpenRecord.addChar, Nat.add_assoc, Nat.add_comm 1]
      · simp [OpenRecord.addChar, hn]

theorem recordsFrom_field (s : String) {rest : List Char} (hr : rest.head? ≠ some '"')
    (line start : Nat) (before : List String) :
    recordsFrom line .start ⟨start, before, []⟩ (csvField s ++ rest) =
      recordsFrom (line + s.toList.count '\n') .inside ⟨start, before, s.toList.reverse⟩ rest := by
  have hopen : ∀ cs, recordsFrom line .start ⟨start, before, []⟩ ('"' :: cs) =
      recordsFrom line .quoted ⟨start, before, []⟩ cs := by
    intro cs
    simp [recordsFrom]
  rw [csvField, List.cons_append, hopen, List.append_assoc, List.singleton_append,
    recordsFrom_doubleQuotes _ hr]
  simp

theorem recordsFrom_ending (ending : LineEnding) (line : Nat) (r : OpenRecord)
    (rest : List Char) :
    recordsFrom line .inside r (ending.text ++ rest) =
      (recordsFrom (line + 1) .start { line := line + 1 } rest).map r.close := by
  cases ending <;> simp [LineEnding.text, recordsFrom]

theorem ending_head (ending : LineEnding) (rest : List Char) :
    (ending.text ++ rest).head? ≠ some '"' := by
  cases ending <;> simp [LineEnding.text]

theorem csvLine_single (ending : LineEnding) (s : String) :
    csvLine ending [s] = csvField s ++ ending.text := by
  simp [csvLine]

theorem csvLine_cons (ending : LineEnding) (s t : String) (fields : List String) :
    csvLine ending (s :: t :: fields) = csvField s ++ ',' :: csvLine ending (t :: fields) := by
  simp [csvLine, List.intercalate_cons_cons]

/-- The line of a record is read as the record, and the next line starts a new one. -/
theorem recordsFrom_line (ending : LineEnding) (line start : Nat) (before : List String)
    (s : String) (fields : List String) (rest : List Char) :
    recordsFrom line .start ⟨start, before, []⟩ (csvLine ending (s :: fields) ++ rest) =
      (recordsFrom (lineAfter line (s :: fields)) .start ⟨lineAfter line (s :: fields), [], []⟩
        rest).map (keepRecord start (before.reverse ++ s :: fields)) := by
  induction fields generalizing line before s with
  | nil =>
    have hclose : OpenRecord.close ⟨start, before, s.toList.reverse⟩ =
        keepRecord start (before.reverse ++ [s]) :=
      funext (OpenRecord.close_eq start before s)
    rw [csvLine_single, List.append_assoc, recordsFrom_field s (ending_head ending rest),
      recordsFrom_ending, hclose, lineAfter_cons]
    rfl
  | cons t fields ih =>
    have hcomma : ∀ cs, recordsFrom (line + s.toList.count '\n') .inside
        ⟨start, before, s.toList.reverse⟩ (',' :: cs) =
          recordsFrom (line + s.toList.count '\n') .start ⟨start, s :: before, []⟩ cs := by
      intro cs
      simp [recordsFrom, OpenRecord.endField]
    rw [csvLine_cons, List.append_assoc, List.cons_append, recordsFrom_field s (by simp), hcomma,
      ih, ← lineAfter_cons, List.reverse_cons, List.append_assoc, List.singleton_append]

theorem recordsFrom_text (ending : LineEnding) {records : List (List String)}
    (h : ∀ fields ∈ records, fields ≠ []) (line : Nat) :
    recordsFrom line .start { line := line } (records.flatMap (csvLine ending)) =
      .ok (keptRecords line records) := by
  induction records generalizing line with
  | nil => rfl
  | cons fields records ih =>
    obtain ⟨s, fields, rfl⟩ := List.exists_cons_of_ne_nil (h fields (by simp))
    rw [List.flatMap_cons, recordsFrom_line, ih fun f hf => h f (by simp [hf])]
    rfl

/-- The cells of a row of a file. -/
def textCells (fields : List String) : Array Cell :=
  (fields.map fun s => Cell.literal (.ofText s)).toArray

theorem mapM_cells {width : Nat} {records : List CsvRecord}
    (h : ∀ r ∈ records, r.fields.length = width) :
    records.mapM (CsvRecord.cells width) = .ok (records.map fun r => textCells r.fields) := by
  induction records with
  | nil => rfl
  | cons r records ih =>
    have hcells : r.cells width = .ok (textCells r.fields) := if_pos (h r (by simp))
    rw [List.mapM_cons, hcells, ih fun s hs => h s (by simp [hs])]
    rfl

namespace Table

/-- Records of one width are a table, with the fields of the first as columns. -/
theorem ofCsv_of_records {text : String} {header : CsvRecord} {records : List CsvRecord}
    (hread : csvRecords text = .ok (header :: records))
    (h : ∀ r ∈ records, r.fields.length = header.fields.length) :
    ofCsv text =
      .ok ⟨header.fields, ((records.map (·.fields)).map textCells).toArray⟩ := by
  have hsize : ∀ row ∈ records.map fun r => textCells r.fields,
      row.size = header.fields.length := by
    rw [List.forall_mem_map]
    exact fun r hr => by simp [textCells, h r hr]
  rw [ofCsv, hread, List.map_map]
  show (do
    let rows ← records.mapM (CsvRecord.cells header.fields.length)
    (ofRows header.fields rows.toArray).mapError CsvError.table) = _
  rw [mapM_cells h]
  exact congrArg (Except.mapError CsvError.table) (ofRows_eq_ok hsize)

/--
A file of records in quotes is read as the table of those that are not blank, the first of which
names the columns.
-/
theorem ofCsv_csvText {width : Nat} (hwidth : 0 < width) {records : List (List String)}
    (h : ∀ fields ∈ records, fields.length = width) (ending : LineEnding) :
    ofCsv (csvText ending records) =
      match records.filter fun r => !isBlankRecord r with
      | [] => .error .noHeader
      | header :: rows => .ok ⟨header, (rows.map textCells).toArray⟩ := by
  have hne : ∀ fields ∈ records, fields ≠ [] := by
    rintro fields hf rfl
    exact absurd (h [] hf) (Nat.ne_of_lt hwidth)
  have hread : csvRecords (csvText ending records) = .ok (keptRecords 1 records) := by
    rw [csvRecords, csvText, String.toList_ofList]
    exact recordsFrom_text ending hne 1
  have hkept := keptRecords_fields 1 records
  cases hk : keptRecords 1 records with
  | nil =>
    rw [hk] at hkept hread
    rw [← hkept, ofCsv, hread]
    rfl
  | cons header rest =>
    rw [hk] at hkept hread
    have hlength : ∀ fields ∈ (header :: rest).map (·.fields), fields.length = width := by
      rw [hkept]
      exact fun fields hf => h fields (List.mem_filter.mp hf).1
    simp only [List.map_cons, List.forall_mem_cons, List.forall_mem_map] at hlength
    rw [← hkept, ofCsv_of_records hread fun r hr => (hlength.2 r hr).trans hlength.1.symm]
    rfl

/-- A written table is read as it was exactly if none of its records is a single blank field. -/
theorem ofCsv_csvText_eq_iff {width : Nat} (hwidth : 0 < width) {header : List String}
    {rows : List (List String)} (h : ∀ fields ∈ header :: rows, fields.length = width)
    (ending : LineEnding) :
    ofCsv (csvText ending (header :: rows)) = .ok ⟨header, (rows.map textCells).toArray⟩ ↔
      ∀ fields ∈ header :: rows, isBlankRecord fields = false := by
  rw [ofCsv_csvText hwidth h]
  constructor
  · intro hread
    -- No record is missing, as otherwise there would be fewer rows.
    have hlength : ((header :: rows).filter fun r => !isBlankRecord r).length =
        (header :: rows).length := by
      cases hf : (header :: rows).filter fun r => !isBlankRecord r with
      | nil =>
        rw [hf] at hread
        cases hread
      | cons header' rows' =>
        rw [hf] at hread
        have hsize := congrArg (·.rows.size) (Except.ok.inj hread)
        simpa using hsize
    intro fields hf
    simpa using List.length_filter_eq_length_iff.mp hlength fields hf
  · intro hall
    have hfilter : ((header :: rows).filter fun r => !isBlankRecord r) = header :: rows :=
      List.filter_eq_self.mpr fun fields hf => by simp [hall fields hf]
    rw [hfilter]

/-- With two columns or more, every table is read as it was written. -/
theorem ofCsv_csvText_wide {width : Nat} (hwidth : 2 ≤ width) {header : List String}
    {rows : List (List String)} (h : ∀ fields ∈ header :: rows, fields.length = width)
    (ending : LineEnding) :
    ofCsv (csvText ending (header :: rows)) = .ok ⟨header, (rows.map textCells).toArray⟩ := by
  refine (ofCsv_csvText_eq_iff (by omega) h ending).mpr fun fields hf => ?_
  have hlength := h fields hf
  match fields with
  | [] => simp at hlength; omega
  | [s] => simp at hlength; omega
  | _ :: _ :: _ => rfl

/-- A row of one empty field in quotes is lost. -/
theorem ofCsv_empty_row : ofCsv "\"a\"\n\"\"\n" = .ok ⟨["a"], #[]⟩ :=
  @ofCsv_csvText 1 (by decide) [["a"], [""]] (by simp) .feed

end Table

end TrialLoop
