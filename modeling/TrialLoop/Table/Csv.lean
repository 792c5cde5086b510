import TrialLoop.Table.Basic

namespace TrialLoop

/-- Why a text is no table. -/
inductive CsvError where
  | unterminatedQuote (line : Nat)
  | recordLength (line expected found : Nat)
  | noHeader
  | table (cause : ValidationError)

def CsvError.message : CsvError → String
  | unterminatedQuote line => "line " ++ toString line ++ ": unterminated quoted field"
  | recordLength line expected found =>
    "line " ++ toString line ++ ": expected " ++ toString expected ++ " fields, found " ++
      toString found
  | noHeader => "missing header row"
  | table cause => cause.message

/-- The fields of a record and the line that it starts on. -/
structure CsvRecord where
  line : Nat
  fields : List String

/-- Where the reader is in a field. -/
inductive FieldPlace where
  | start | inside | quoted
  deriving DecidableEq

/-- A record that is read: its first line, its fields and its last field, the last one first. -/
structure OpenRecord where
  line : Nat
  fields : List String := []
  field : List Char := []

namespace OpenRecord

def addChar (r : OpenRecord) (c : Char) : OpenRecord :=
  { r with field := c :: r.field }

def endField (r : OpenRecord) : OpenRecord :=
  { r with fields := String.ofList r.field.reverse :: r.fields, field := [] }

/-- The record in front of others, unless it is one blank field. -/
def close (r : OpenRecord) (records : List CsvRecord) : List CsvRecord :=
  if r.fields = [] ∧ isBlankText r.field then records
  else ⟨r.line, r.endField.fields.reverse⟩ :: records

end OpenRecord

/--
The records of a text that goes on in a record. A field may stand in double quotes, in which a
double quote is written twice and a line may end.
-/
def recordsFrom : (line : Nat) → FieldPlace → OpenRecord → List Char →
    Except CsvError (List CsvRecord)
  | _, .quoted, r, [] => .error (.unterminatedQuote r.line)
  | _, _, r, [] => .ok (r.close [])
  | line, .quoted, r, '"' :: '"' :: cs => recordsFrom line .quoted (r.addChar '"') cs
  | line, .quoted, r, c :: cs =>
    if c = '"' then recordsFrom line .inside r cs
    else recordsFrom (if c = '\n' then line + 1 else line) .quoted (r.addChar c) cs
  | line, place, r, c :: cs =>
    if c = '"' ∧ place = .start then recordsFrom line .quoted r cs
    else if c = ',' then recordsFrom line .start r.endField cs
    else if c = '\r' ∧ cs.head? = some '\n' then recordsFrom line place r cs
    else if c = '\n' then
      (recordsFrom (line + 1) .start { line := line + 1 } cs).map r.close
    else recordsFrom line .inside (r.addChar c) cs

/-- The records of a text; those that are blank are left out. -/
def csvRecords (text : String) : Except CsvError (List CsvRecord) :=
  recordsFrom 1 .start { line := 1 } text.toList

/-- The cells of a record with a number of fields. -/
def CsvRecord.cells (width : Nat) (r : CsvRecord) : Except CsvError (Array Cell) :=
  if r.fields.length = width then .ok (r.fields.map fun s => Cell.literal (.ofText s)).toArray
  else .error (.recordLength r.line width r.fields.length)

/-- The table of a text, whose first record names the columns. -/
def Table.ofCsv (text : String) : Except CsvError Table := do
  match ← csvRecords text with
  | [] => throw .noHeader
  | header :: records =>
    let rows ← records.mapM (·.cells header.fields.length)
    (Table.ofRows header.fields rows.toArray).mapError .table

end TrialLoop
