import VardrMap.AuthorityRecords
import VardrMap.EvidenceRecords
import VardrMap.Lib.Csv
import VardrMap.Lib.Dedup

/-!
# Importing a scope export

The scope export of a program is a table of assets. Each row becomes a scope item, is skipped with
a reason, or is blank. An import without `commit` is a preview; with it, the items whose pair of
type and value is not stored yet are added, and only then the authority revision is raised.
-/
namespace VardrMap.ScopeImport
open Lib Parsers Deliverables

/-! ## Rows -/

/-- `_H1_KIND`. -/
def h1Kind : List (String × String) := [
  ("WILDCARD", "domain"),
  ("API", "api"),
  ("CIDR", "cidr"),
  ("IP_ADDRESS", "cidr"),
  ("GOOGLE_PLAY_APP_ID", "mobile"),
  ("APPLE_STORE_APP_ID", "mobile"),
  ("WINDOWS_APP_STORE_APP_ID", "mobile"),
  ("TESTFLIGHT", "mobile"),
  ("OTHER_APK", "mobile"),
  ("OTHER_IPA", "mobile")]

/-- `_SEVERITIES`. -/
def severities : List String := ["info", "low", "medium", "high", "critical"]

/-- `_MAX_IMPORT_ROWS`. -/
def maxImportRows : ℕ := 5000

structure ParsedItem where
  value : String
  kind : String
  scopeType : String
  maxSeverity : String
  notes : String
  deriving DecidableEq

/-- A row that is skipped, by its number. -/
structure SkippedRow where
  line : ℕ
  identifier : String
  reason : String
  deriving DecidableEq

/-- What becomes of a row. -/
inductive RowResult where
  | blank
  | skipped (identifier reason : String)
  | item (i : ParsedItem)

/-- What an item is compared by. -/
def ParsedItem.key (i : ParsedItem) : String × String := (i.scopeType, i.value)

section
variable [Unicode]

/-- `(row.get(name) or default).strip()`. -/
def cell (row : Csv.Row) (name default : String) : Text :=
  let value := (row.get name.toList).getD []
  Text.strip (if value.isEmpty then default.toList else value)

/-- `_kind_for`. -/
def kindFor (assetType value : Text) : String :=
  match h1Kind.lookup (String.ofList assetType) with
  | some mapped => mapped
  | none =>
    let v := Unicode.lower (Text.strip value)
    if "http://".toList.isPrefixOf v || "https://".toList.isPrefixOf v || v.contains '/' then "url"
    else "domain"

/-- The item of a row with an identifier that could be sanitized. -/
def itemOf (row : Csv.Row) (value : Text) : ParsedItem :=
  let assetType := Unicode.upper (cell row "asset_type" "")
  let eligible := Unicode.lower (cell row "eligible_for_submission" "true")
  let severity := String.ofList (Unicode.lower (cell row "max_severity" ""))
  let instruction := cell row "instruction" ""
  let note := "HackerOne ".toList ++ if assetType.isEmpty then "asset".toList else assetType
  let note := if instruction.isEmpty then note else note ++ " \u2014 ".toList ++ instruction
  { value := String.ofList value
    kind := kindFor assetType value
    scopeType := if eligible == "false".toList then "out" else "in"
    maxSeverity := if severities.contains severity then severity else ""
    notes := String.ofList (note.take 2000) }

variable [WordTable] [Sanitizer]

/-- One row of the export. -/
def parseRow (row : Csv.Row) : RowResult :=
  let identifier := cell row "identifier" ""
  let shown := String.ofList (identifier.take 120)
  if identifier.isEmpty then .blank
  else if 500 < identifier.length then .skipped shown "identifier too long"
  else match sanitizeIdentifier identifier with
    | none => .skipped shown "invalid characters"
    | some value =>
      if value.isEmpty then .skipped shown "empty after sanitizing" else .item (itemOf row value)

/-- The rows one after the other, numbered from `line`. -/
def parseRows (line : ℕ) (rows : List Csv.Row) (items : List ParsedItem)
    (skipped : List SkippedRow) : Except Refusal (List ParsedItem × List SkippedRow) :=
  match rows with
  | [] => .ok (items, skipped)
  | row :: rows =>
    if maxImportRows ≤ items.length + skipped.length then
      .error (.http 400 "too many rows; the limit is 5000")
    else match parseRow row with
      | .blank => parseRows (line + 1) rows items skipped
      | .skipped identifier reason =>
        parseRows (line + 1) rows items (skipped ++ [⟨line, identifier, reason⟩])
      | .item i => parseRows (line + 1) rows (items ++ [i]) skipped

/-- `_parse_hackerone_scope`. A text that the reader refuses is found after the rows before it. -/
def parseHackeroneScope (text : Text) : Except Refusal (List ParsedItem × List SkippedRow) := do
  let records := Csv.read text
  let header := Csv.dictRows records
  ensure (header.isSome || !records.refused) (.http 500 "Internal Server Error")
  let (fieldnames, rows) := header.getD ([], [])
  ensure (fieldnames.contains "identifier".toList) (.http 400
    "CSV must have a header row with an 'identifier' column (HackerOne scope export).")
  let parsed ← parseRows 2 rows [] []
  ensure (!records.refused) (.http 500 "Internal Server Error")
  return parsed

end

/-! ## The import -/

structure ScopeImportRequest where
  csv : Text
  format : String
  commit : Bool

structure ImportSummary where
  inScope : ℕ
  outOfScope : ℕ
  duplicates : ℕ
  skipped : ℕ
  totalRows : ℕ

structure ScopeImportResponse where
  format : String
  committed : Bool
  created : ℕ
  summary : ImportSummary
  newItems : List ParsedItem
  duplicates : List ParsedItem
  skipped : List SkippedRow

/-- The pairs that an engagement has in scope. -/
def scopeKeys (db : Db) (programId : String) : List (String × String) :=
  (db.scopeItems.rows.filter fun r => r.programId == programId).map fun r =>
    (r.scopeType, r.value)

/-- The items that are new, and those that are stored or seen before. -/
def classify (existing seen : List (String × String)) :
    List ParsedItem → List ParsedItem × List ParsedItem
  | [] => ([], [])
  | item :: parsed =>
    if existing.contains item.key || seen.contains item.key then
      let (newItems, duplicates) := classify existing seen parsed
      (newItems, item :: duplicates)
    else
      let (newItems, duplicates) := classify existing (item.key :: seen) parsed
      (item :: newItems, duplicates)

/-- The row of a new item, under an identifier drawn for it. -/
def ParsedItem.row (newId : ParsedItem → String) (i : ParsedItem) : ImportRow where
  id := newId i
  scopeType := i.scopeType
  value := i.value
  kind := some i.kind

/-- The answer, from what was parsed and how it was classified. -/
def respond (payload : ScopeImportRequest) (created : ℕ)
    (parsed newItems duplicates : List ParsedItem) (skipped : List SkippedRow) :
    ScopeImportResponse where
  format := payload.format
  committed := payload.commit
  created
  summary := {
    inScope := newItems.countP fun i => i.scopeType == "in"
    outOfScope := newItems.countP fun i => i.scopeType == "out"
    duplicates := duplicates.length
    skipped := skipped.length
    totalRows := parsed.length + skipped.length }
  newItems
  duplicates
  skipped

variable [Unicode]

/-- The new items are stored and the revision is raised, if there are any. -/
def storeItems (db : Db) (engagement : Engagement) (newId : ParsedItem → String)
    (newItems : List ParsedItem) : Except Refusal Db :=
  if newItems.isEmpty then .ok db
  else addRows engagement.id (newItems.map (ParsedItem.row newId))
    (db.putEngagement engagement.advance)

variable [WordTable] [Sanitizer]

/-- `import_scope`. -/
def importExport (p : Platform) (request : HttpRequest) (programId : String)
    (payload : ScopeImportRequest) (newId : ParsedItem → String) (db : Db) :
    Except Refusal (Db × ScopeImportResponse) := do
  let user ← getCurrentUser p.identity db request
  let engagement ← writableEngagement db programId user
  let (parsed, skipped) ← parseHackeroneScope payload.csv
  let (newItems, duplicates) := classify (scopeKeys db programId) [] parsed
  let stored ← storeItems db engagement newId (if payload.commit then newItems else [])
  let created := if payload.commit then newItems.length else 0
  return (stored, respond payload created parsed newItems duplicates skipped)

end VardrMap.ScopeImport
