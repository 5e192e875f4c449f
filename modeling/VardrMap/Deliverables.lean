import VardrMap.Deps
import VardrMap.Parsers
import VardrMap.Redaction
import VardrMap.Lib.Sorting
import Mathlib.Data.Prod.Lex
import Mathlib.Data.String.Basic
import Mathlib.Order.WithBot

/-!
# Engagement reports

A revision of a report is a snapshot of the engagement's testing record, taken when the
revision is written, and the text that is rendered from this snapshot and from nothing else.
-/
namespace VardrMap.Deliverables
open Lib Parsers

/-! ## The testing record -/

/-- The columns of an engagement that only reports read. -/
structure EngagementProfile where
  id : String
  name : String
  clientId : Option String

structure Client where
  id : String
  name : String

structure Finding where
  id : String
  programId : String
  title : String
  severity : Option String
  asset : Option String
  status : Option String
  summary : Option String
  steps : Option String
  impact : Option String
  remediation : Option String
  createdAt : Option DateTime

structure FindingActivity where
  id : String
  programId : String
  findingId : String
  kind : String
  outcome : Option String
  notes : String
  createdAt : DateTime

structure ReportedEvidence extends Evidence where
  findingId : Option String
  kind : String
  title : Option String
  body : Option String
  caseRef : Option String
  source : Option String
  sensitivity : Option String
  createdAt : Instant

structure ReportedScopeItem extends ScopeItem where
  notes : Option String
  maxSeverity : Option String

structure ReportedAuthorization extends Authorization where
  createdAt : Instant

instance : Keyed EngagementProfile String := ⟨EngagementProfile.id⟩
instance : Keyed Client String := ⟨Client.id⟩
instance : Keyed Finding String := ⟨Finding.id⟩
instance : Keyed FindingActivity String := ⟨FindingActivity.id⟩
instance : Keyed ReportedEvidence String := ⟨fun e => e.id⟩
instance : Keyed ReportedScopeItem String := ⟨fun s => s.id⟩
instance : Keyed ReportedAuthorization String := ⟨fun a => a.id⟩

/-- The tables that reports read. -/
structure Record where
  profiles : Table EngagementProfile
  clients : Table Client
  findings : Table Finding
  activities : Table FindingActivity
  evidence : Table ReportedEvidence
  scope : Table ReportedScopeItem
  authorizations : Table ReportedAuthorization

def Record.empty : Record := ⟨.empty, .empty, .empty, .empty, .empty, .empty, .empty⟩

/-! ## Reports and their revisions -/

inductive ReportStatus where
  | draft
  | internalReview
  | final
  | delivered
  | archived
  deriving DecidableEq

structure EngagementDeliverable where
  id : String
  programId : String
  title : String
  latestRevision : ℕ
  createdAt : Instant

structure DeliverableRevision where
  id : String
  deliverableId : String
  revision : ℕ
  status : ReportStatus
  snapshot : Json
  markdown : Text
  contentHash : String
  actor : String
  createdAt : Instant

instance : Keyed EngagementDeliverable String := ⟨EngagementDeliverable.id⟩
instance : Keyed DeliverableRevision String := ⟨DeliverableRevision.id⟩

/-- What the author of a revision sends. No list of findings selects all of them. -/
structure ReportContent where
  title : String
  executiveSummary : String
  methodology : String
  limitations : String
  remediationPriorities : String
  findingIds : Option (List String)
  evidenceIds : List String

/-- The lengths of the body, each with its field and its bounds. -/
def ReportContent.lengths (b : ReportContent) : List (String × ℕ × ℕ × ℕ) :=
  [("title", 1, b.title.length, 200), ("executive_summary", 0, b.executiveSummary.length, 20000),
    ("methodology", 0, b.methodology.length, 20000),
    ("limitations", 0, b.limitations.length, 20000),
    ("remediation_priorities", 0, b.remediationPriorities.length, 20000),
    ("finding_ids", 0, (b.findingIds.getD []).length, 1000),
    ("evidence_ids", 0, b.evidenceIds.length, 100)]

/-- The fields that the schema refuses. -/
def ReportContent.invalid (b : ReportContent) : List String :=
  (b.lengths.filter fun f => !(f.2.1 ≤ f.2.2.1 && f.2.2.1 ≤ f.2.2.2)).map Prod.fst

/-- `MAX_SNAPSHOT_BYTES`. -/
def maxSnapshotBytes : ℕ := 4 * 1024 * 1024

/-! ## Texts -/

/-- `n` in decimal, padded to `width` digits. -/
def decimal : (width : ℕ) → ℕ → Text
  | 0, _ => []
  | width + 1, n => decimal width (n / 10) ++ [DateTime.digit n]

/-- A time of day; seconds and microseconds of an offset only when it has some. -/
def timeText (always : Bool) (micros : ℕ) : Text :=
  let s := micros / 1000000
  let seconds :=
    if always || micros % 60000000 != 0 then ':' :: DateTime.twoDigits (s % 60) else []
  let fraction := if micros % 1000000 != 0 then '.' :: decimal 6 (micros % 1000000) else []
  DateTime.twoDigits (s / 3600) ++ ':' :: DateTime.twoDigits (s % 3600 / 60) ++ seconds ++ fraction

/-- `value.isoformat()`. -/
def isoformat (t : DateTime) : Text :=
  let day := 86400 * 1000000
  let d := Calendar.date (t.wall / day)
  let offset := match t.offset with
    | some o => (if o < 0 then '-' else '+') :: timeText false o.natAbs
    | none => []
  decimal 4 d.1 ++ '-' :: DateTime.twoDigits d.2.1 ++ '-' :: DateTime.twoDigits d.2.2 ++
    'T' :: timeText true (t.wall % day) ++ offset

/-- `_iso`. -/
def iso : Option DateTime → Json
  | some t => .str (String.ofList (isoformat t))
  | none => .null

/-- A nullable text. -/
def nullable : Option String → Json
  | some s => .str s
  | none => .null

/-- `value or ""` of a nullable text. -/
def orEmpty (s : Option String) : Json := .str (s.getD "")

/-- One code point inside a JSON string that keeps what is not ASCII. -/
def escapePlain (c : Char) : Text :=
  if c == '"' || c == '\\' then ['\\', c]
  else if c == '\n' then ['\\', 'n']
  else if c == '\r' then ['\\', 'r']
  else if c == '\t' then ['\\', 't']
  else if c.toNat == 12 then ['\\', 'f']
  else if c.toNat == 8 then ['\\', 'b']
  else if c.toNat < 32 then Json.escapeUnit c.toNat
  else [c]

def quotePlain (s : String) : Text := '"' :: s.toList.flatMap escapePlain ++ ['"']

mutual

/-- `json.dumps(value, ensure_ascii=False)`. -/
def dumpsPlain : Json → Text
  | .null => "null".toList
  | .bool b => (if b then "true" else "false").toList
  | .int n => (toString n).toList
  | .float _ r => r.toList
  | .nonfinite r => r.toList
  | .str s => quotePlain s
  | .arr xs => '[' :: join ", ".toList (dumpsPlainList xs) ++ [']']
  | .obj fs => '{' :: join ", ".toList (dumpsPlainFields fs) ++ ['}']

def dumpsPlainList : List Json → List Text
  | [] => []
  | x :: xs => dumpsPlain x :: dumpsPlainList xs

def dumpsPlainFields : List (String × Json) → List Text
  | [] => []
  | (k, x) :: fs => (quotePlain k ++ ": ".toList ++ dumpsPlain x) :: dumpsPlainFields fs

end

/-- A code point that ends a line. -/
def isLineBreak (c : Char) : Bool :=
  [10, 11, 12, 13, 28, 29, 30, 0x85, 0x2028, 0x2029].contains c.toNat

/-- `str.splitlines`, from inside a line. -/
def splitlinesFrom (line : Text) : Text → List Text
  | [] => if line.isEmpty then [] else [line]
  | '\r' :: '\n' :: l => line :: splitlinesFrom [] l
  | c :: l => if isLineBreak c then line :: splitlinesFrom [] l else splitlinesFrom (line ++ [c]) l

/-- `str.splitlines`. -/
def splitlines (l : Text) : List Text := splitlinesFrom [] l

/-! ## What a snapshot selects -/

/-- `serialize_finding`. -/
def serializeFinding (f : Finding) : Json :=
  .obj [("id", .str f.id), ("title", .str f.title), ("severity", nullable f.severity),
    ("asset", orEmpty f.asset), ("status", nullable f.status), ("summary", orEmpty f.summary),
    ("steps", orEmpty f.steps), ("impact", orEmpty f.impact),
    ("remediation", orEmpty f.remediation), ("created_at", iso f.createdAt)]

/-- `serialize_scope_item`, with the type of the item. -/
def serializeScopeItem (s : ReportedScopeItem) : Json :=
  .obj [("id", .str s.id), ("value", .str s.value), ("kind", nullable s.kind),
    ("notes", orEmpty s.notes), ("max_severity", orEmpty s.maxSeverity),
    ("scope_type", .str s.scopeType)]

def serializeAuthorization (a : ReportedAuthorization) : Json :=
  .obj [("reference", .str a.reference), ("authorized_by", .str a.authorizedBy),
    ("window_start", iso a.windowStart), ("window_end", iso a.windowEnd), ("status", .str a.status)]

def serializeActivity (a : FindingActivity) : Json :=
  .obj [("finding_id", .str a.findingId), ("kind", .str a.kind), ("outcome", nullable a.outcome),
    ("notes", .str a.notes), ("created_at", iso (some a.createdAt))]

def serializeEvidence (e : ReportedEvidence) : Json :=
  .obj [("id", .str e.id), ("finding_id", nullable e.findingId), ("title", nullable e.title),
    ("kind", .str e.kind), ("body", nullable e.body), ("content_hash", .str e.contentHash),
    ("sensitivity", nullable e.sensitivity), ("source", nullable e.source),
    ("job_id", nullable e.jobId), ("case_id", nullable e.caseId), ("case_ref", nullable e.caseRef),
    ("identity_id", nullable e.identityId), ("observed_outcome", nullable e.observedOutcome),
    ("expected_decision", nullable e.expectedDecision)]

/-- The order of findings in a report: after the known severities comes everything else. -/
def severityRank (severity : Option String) : ℕ :=
  ["critical", "high", "medium", "low", "info"].findIdx fun s => severity == some s

/-- The selected findings, by severity and then by age; the store keeps undated rows last. -/
def selectFindings (view : Record) (programId : String) (findingIds : Option (List String)) :
    Except Refusal (List Finding) := do
  let rows := view.findings.rows.filter fun f =>
    f.programId == programId && findingIds.all fun ids => ids.contains f.id
  ensure (findingIds.all fun ids => rows.length == ids.dedup.length)
    (.http 404 "Finding not found")
  let aged := sortBy (fun f : Finding =>
    (toLex ((f.createdAt.map DateTime.instant : WithTop ℤ), f.id) : WithTop ℤ ×ₗ String)) rows
  return sortBy (fun f => severityRank f.severity) aged

/-- The selected evidence, which belongs to selected findings. -/
def selectEvidence (view : Record) (programId : String) (evidenceIds ids : List String) :
    Except Refusal (List ReportedEvidence) := do
  let rows := view.evidence.rows.filter fun e =>
    e.programId == programId && evidenceIds.contains e.id
  ensure (rows.length == evidenceIds.dedup.length) (.http 404 "Evidence not found")
  ensure (!rows.any fun e => e.findingId.any fun id => !id.isEmpty && !ids.contains id)
    (.http 400 "Selected evidence belongs to an omitted finding")
  return sortBy (fun e : ReportedEvidence => (toLex (e.createdAt, e.id) : ℤ ×ₗ String)) rows

/-- Remediations and retests of the selected findings. -/
def selectHistory (view : Record) (programId : String) (ids : List String) :
    List FindingActivity :=
  sortBy (fun a : FindingActivity => (toLex (a.createdAt.instant, a.id) : ℤ ×ₗ String))
    (view.activities.rows.filter fun a => a.programId == programId && ids.contains a.findingId &&
      ["remediation", "retest"].contains a.kind)

def selectScope (view : Record) (programId : String) : List ReportedScopeItem :=
  sortBy (fun s : ReportedScopeItem => s.id)
    (view.scope.rows.filter fun s => s.programId == programId)

def selectAuthorizations (view : Record) (programId : String) : List ReportedAuthorization :=
  sortBy (fun a : ReportedAuthorization => (toLex (a.createdAt, a.id) : ℤ ×ₗ String))
    (view.authorizations.rows.filter fun a => a.programId == programId)

/-- The name of the client, empty without one. -/
def clientName (view : Record) (profile : EngagementProfile) : String :=
  ((profile.clientId.bind view.clients.get?).map Client.name).getD ""

/-- `body.model_dump(exclude={"base_revision"})`. -/
def ReportContent.dump (b : ReportContent) : Json :=
  .obj [("title", .str b.title), ("executive_summary", .str b.executiveSummary),
    ("methodology", .str b.methodology), ("limitations", .str b.limitations),
    ("remediation_priorities", .str b.remediationPriorities),
    ("finding_ids", b.findingIds.elim .null fun ids => .arr (ids.map .str)),
    ("evidence_ids", .arr (b.evidenceIds.map .str))]

variable [Unicode] [WordTable]

/-- `_snapshot` of what its queries have read. -/
def snapshot (engagement : Engagement) (profile : EngagementProfile) (body : ReportContent)
    (revision : ℕ) (now : DateTime) (view : Record) : Except Refusal Json := do
  ensure (!(Text.strip body.title.toList).isEmpty) (.http 400 "Title is required")
  let findings ← selectFindings view engagement.id body.findingIds
  let ids := findings.map Finding.id
  let evidence ← selectEvidence view engagement.id body.evidenceIds ids
  let snapshot := cleanTree (.obj [("schema_version", .int 1), ("revision", .int revision),
    ("generated_at", iso (some now)), ("editorial", body.dump),
    ("engagement", .obj [("id", .str engagement.id), ("name", .str profile.name),
      ("type", nullable engagement.engagementType),
      ("status", nullable engagement.engagementStatus),
      ("client", .str (clientName view profile)), ("starts_at", iso engagement.startsAt),
      ("ends_at", iso engagement.endsAt)]),
    ("scope", .arr ((selectScope view engagement.id).map serializeScopeItem)),
    ("authorizations",
      .arr ((selectAuthorizations view engagement.id).map serializeAuthorization)),
    ("findings", .arr (findings.map serializeFinding)),
    ("activity", .arr ((selectHistory view engagement.id ids).map serializeActivity)),
    ("evidence", .arr (evidence.map serializeEvidence))])
  ensure ((Sha256.utf8 (dumpsPlain snapshot)).length ≤ maxSnapshotBytes)
    (.http 413 "Report exceeds 4 MiB; select fewer findings or evidence items")
  return snapshot

/-! ## The text of a report -/

omit [WordTable] in
/-- A value inside an f-string. -/
def shown (j : Json) : Text := j.toStr.toList

omit [WordTable] in
/-- `f"{j[k]}"`. -/
def shownAt (j : Json) (k : String) : Text := shown (j.field k)

omit [WordTable] in
/-- `f"{j[k] or default}"`. -/
def shownOr (j : Json) (k default : String) : Text := shown ((j.field k).orElse (.str default))

omit [WordTable] in
/-- `str.capitalize` of an ASCII text. -/
def capitalize : Text → Text
  | [] => []
  | c :: l => Unicode.upper [c] ++ Unicode.lower l

omit [WordTable] in
/-- What the list under a key holds. -/
def listAt (j : Json) (k : String) : List Json := ((j.field k).arr?).getD []

omit [WordTable] in
def scopeLine (r : Json) : Text :=
  "- ".toList ++ Unicode.upper (shownAt r "scope_type") ++ ": ".toList ++ shownAt r "value" ++
    " (".toList ++ shownAt r "kind" ++ ") ".toList ++ shownAt r "notes"

omit [WordTable] in
def authorizationLine (a : Json) : Text :=
  "- Authorization: ".toList ++ shownAt a "reference" ++ " — ".toList ++
    shownAt a "authorized_by" ++ " (".toList ++ shownAt a "status" ++ "), ".toList ++
    shownAt a "window_start" ++ " to ".toList ++ shownAt a "window_end"

omit [WordTable] in
def activityLines (a : Json) : List Text :=
  ["#### ".toList ++ capitalize (shownAt a "kind") ++ " — ".toList ++ shownAt a "created_at",
    shownOr a "outcome" "", shownAt a "notes"]

omit [WordTable] in
/-- A finding, and what happened to it. -/
def findingLines (activity : List Json) (f : Json) : List Text :=
  ["### ".toList ++ shownAt f "title", "Severity: ".toList ++ shownAt f "severity" ++
    " | Status: ".toList ++ shownAt f "status" ++ " | Asset: ".toList ++ shownAt f "asset"] ++
  ["summary", "steps", "impact", "remediation"].flatMap (fun key =>
    ["#### ".toList ++ capitalize key.toList, shownAt f key]) ++
  (activity.filter fun a => (a.field "finding_id").pyEq (f.field "id")).flatMap activityLines

omit [WordTable] in
def provenance (item : Json) : Text :=
  "Job: ".toList ++ shownOr item "job_id" "unknown" ++ " | Case: ".toList ++
    shownOr item "case_ref" "unknown" ++ " (".toList ++ shownOr item "case_id" "unknown" ++
    ") | Identity: ".toList ++ shownOr item "identity_id" "unknown" ++ " | Expected: ".toList ++
    shownOr item "expected_decision" "unknown" ++ " | Observed: ".toList ++
    shownOr item "observed_outcome" "unknown"

omit [WordTable] in
/-- A piece of evidence. A body that is absent has no lines to split. -/
def evidenceLines (item : Json) : Except Exn (List Text) :=
  match item.field "body" with
  | .str body => .ok ["### ".toList ++ shown ((item.field "title").orElse (item.field "id")),
      "Sensitivity: ".toList ++ shownAt item "sensitivity" ++ " | Source: ".toList ++
        shownAt item "source" ++ " | SHA-256: ".toList ++ shownAt item "content_hash",
      provenance item,
      join ['\n'] ((splitlines body.toList).map fun line => "    ".toList ++ line)]
  | _ => .error .attributeError

omit [WordTable] in
/-- `_markdown`, of a snapshot, which has every key that is read here. -/
def markdown (s : Json) : Except Exn Text := do
  let e := s.field "engagement"
  let content := s.field "editorial"
  let evidence ← (listAt s "evidence").mapM evidenceLines
  let head := ["# ".toList ++ shownAt content "title",
    "Revision ".toList ++ shownAt s "revision" ++ " | Generated ".toList ++
      shownAt s "generated_at",
    "Engagement: ".toList ++ shownAt e "name",
    "Client: ".toList ++ shownOr e "client" "Not recorded",
    "Testing window: ".toList ++ shownOr e "starts_at" "Not recorded" ++ " — ".toList ++
      shownOr e "ends_at" "Not recorded",
    "## Executive summary".toList, shownAt content "executive_summary",
    "## Scope and authorization".toList]
  let editorial := ["## Methodology".toList, shownAt content "methodology", "## Limitations".toList,
    shownAt content "limitations", "## Remediation priorities".toList,
    shownAt content "remediation_priorities", "## Findings".toList]
  let lines := head ++ (listAt s "scope").map scopeLine ++
    (listAt s "authorizations").map authorizationLine ++ editorial ++
    (listAt s "findings").flatMap (findingLines (listAt s "activity")) ++
    "## Selected evidence".toList :: evidence.flatten
  return join "\n\n".toList lines ++ ['\n']

/-- The revision that `_save_revision` adds. -/
def newRevision (engagement : Engagement) (profile : EngagementProfile)
    (report : EngagementDeliverable) (body : ReportContent) (actor : String) (view : Record)
    (now : DateTime) (createdAt : Instant) (newId : String) :
    Except Refusal DeliverableRevision := do
  let revision := report.latestRevision + 1
  let snapshot ← snapshot engagement profile body revision now view
  let markdown ← raise (markdown snapshot)
  return {
    id := newId
    deliverableId := report.id
    revision
    status := .draft
    snapshot
    markdown
    contentHash := Sha256.ofText markdown
    actor
    createdAt }

/-- What the added revision holds. -/
theorem newRevision_eq_ok {engagement : Engagement} {profile : EngagementProfile}
    {report : EngagementDeliverable} {body : ReportContent} {actor : String} {view : Record}
    {now : DateTime} {createdAt : Instant} {newId : String} {row : DeliverableRevision}
    (h : newRevision engagement profile report body actor view now createdAt newId = .ok row) :
    (row.id = newId ∧ row.deliverableId = report.id ∧ row.revision = report.latestRevision + 1) ∧
      snapshot engagement profile body row.revision now view = .ok row.snapshot ∧
      markdown row.snapshot = .ok row.markdown ∧
      row.contentHash = Sha256.ofText row.markdown := by
  obtain ⟨s, hs, h⟩ := bind_eq_ok h
  obtain ⟨m, hm, h⟩ := bind_eq_ok h
  obtain rfl := Except.ok.inj h
  exact ⟨⟨rfl, rfl, rfl⟩, hs, raise_eq_ok hm, rfl⟩

variable [Sanitizer]

/-- `clean` of one field. -/
def cleanField (s : String) : String := redact (String.ofList (stripText s.toList))

/-- The body as the schema hands it on: lengths are checked first, then texts are cleaned. -/
def ReportContent.validate (b : ReportContent) (others : List String) :
    Except Refusal ReportContent :=
  let invalid := b.invalid ++ others
  if invalid.isEmpty then
    .ok { b with
      title := cleanField b.title
      executiveSummary := cleanField b.executiveSummary
      methodology := cleanField b.methodology
      limitations := cleanField b.limitations
      remediationPriorities := cleanField b.remediationPriorities }
  else .error (.http 422 (", ".intercalate invalid))

end VardrMap.Deliverables
