import VardrMap.Lib.Text

/-!
# Comma separated values

The reader of `csv` in its default dialect: fields between commas, quotes that double inside
quotes, records that end with their line. It goes through the text line by line, in one state
between two characters. A reader of dictionaries names the fields by the first record.
-/
namespace Lib
namespace Csv

/-- Where in a record the reader is. -/
inductive State where
  | startRecord
  | startField
  | inField
  | inQuotedField
  | quoteInQuotedField
  | eatCrnl
  deriving DecidableEq

structure Reader where
  state : State
  field : Text
  fields : List Text

/-- A reader before a record. -/
def Reader.fresh : Reader := ⟨.startRecord, [], []⟩

/-- `field_size_limit()`. -/
def fieldSizeLimit : ℕ := 131072

/-- The field read so far is one of the record. -/
def Reader.save (r : Reader) (state : State) : Reader := ⟨state, [], r.fields ++ [r.field]⟩

/-- A character of the field, unless it is too long. -/
def Reader.add (r : Reader) (state : State) (c : Char) : Option Reader :=
  if fieldSizeLimit ≤ r.field.length then none
  else some { r with state, field := r.field ++ [c] }

def isNewline (c : Char) : Bool := c == '\n' || c == '\r'

/-- The first character of a field. -/
def Reader.begin (r : Reader) (c : Char) : Option Reader :=
  if isNewline c then some (r.save .eatCrnl)
  else if c == '"' then some { r with state := .inQuotedField }
  else if c == ',' then some (r.save .startField)
  else r.add .inField c

/-- One character; nothing is a text that the reader refuses. -/
def Reader.step (r : Reader) (c : Char) : Option Reader :=
  match r.state with
  | .startRecord => if isNewline c then some { r with state := .eatCrnl } else r.begin c
  | .startField => r.begin c
  | .inField =>
    if isNewline c then some (r.save .eatCrnl)
    else if c == ',' then some (r.save .startField)
    else r.add .inField c
  | .inQuotedField =>
    if c == '"' then some { r with state := .quoteInQuotedField } else r.add .inQuotedField c
  | .quoteInQuotedField =>
    if c == '"' then r.add .inQuotedField c
    else if c == ',' then some (r.save .startField)
    else if isNewline c then some (r.save .eatCrnl)
    else r.add .inField c
  | .eatCrnl => if isNewline c then some r else none

/-- The end of a line ends the record, unless a quote is open. -/
def Reader.endLine (r : Reader) : Reader :=
  match r.state with
  | .startRecord | .inQuotedField => r
  | .eatCrnl => { r with state := .startRecord }
  | .startField | .inField | .quoteInQuotedField => r.save .startRecord

/-- The lines of a text, each with its newline. -/
def lines : Text → List Text
  | [] => []
  | c :: cs =>
    if c == '\n' then [c] :: lines cs
    else match lines cs with
      | [] => [[c]]
      | l :: ls => (c :: l) :: ls

/-- What reading gave: the records up to the end, or up to a text that is refused. -/
structure Records where
  rows : List (List Text)
  refused : Bool
  deriving DecidableEq

/-- A record in front. -/
def Records.cons (row : List Text) (r : Records) : Records := { r with rows := row :: r.rows }

/-- The records of the lines; the end of the text closes an open quote. -/
def Reader.records (r : Reader) : List Text → Records
  | [] => if r.state = .inQuotedField then ⟨[(r.save .startRecord).fields], false⟩ else ⟨[], false⟩
  | l :: ls =>
    match l.foldlM Reader.step r with
    | none => ⟨[], true⟩
    | some r' =>
      let r' := r'.endLine
      if r'.state = .startRecord then (fresh.records ls).cons r'.fields else r'.records ls

/-- `csv.reader(io.StringIO(text))`. -/
def read (text : Text) : Records := Reader.fresh.records (lines text)

/-! ## Dictionaries -/

/-- A record under the names of its fields. -/
structure Row where
  fieldnames : List Text
  row : List Text

/-- `row.get(name)`: the last field of that name decides, and is missing in a short record. -/
def Row.get (r : Row) (name : Text) : Option Text :=
  match r.fieldnames.reverse.idxOf? name with
  | none => none
  | some i => r.row[r.fieldnames.length - 1 - i]?

/-- `csv.DictReader`: the names, and the records under them but for the empty ones. -/
def dictRows (r : Records) : Option (List Text × List Row) :=
  match r.rows with
  | [] => none
  | fieldnames :: rows => some (fieldnames, (rows.filter fun row => !row.isEmpty).map fun row =>
      ⟨fieldnames, row⟩)

example : read "a,\"b\n\"\"\"\r\n\nc".toList =
    ⟨[[['a'], ['b', '\n', '"']], [], [['c']]], false⟩ := by decide

end Csv
end Lib
