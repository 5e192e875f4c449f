import VardrMap.Deliverables

/-!
# Writing evidence

Evidence is written by hand or with the result of a job. Its text is redacted before it is
stored, and the digest that is stored with it is the one of the stored text.
-/
namespace VardrMap.Deliverables
open Lib Regex Parsers

/-! ## Identifiers -/

section
variable [Unicode] [WordTable]

/-- `_INJECT_RE`. -/
def injection : Regex :=
  let tags := ["<script", "<iframe", "<object", "<embed", "<svg", "<img"].map anyCase
  let script := seqs [anyCase "javascript", star (one Unicode.isSpace), literal ":"]
  let document := seqs [anyCase "data", star (one Unicode.isSpace), literal ":", star (one dot),
    anyCase "text/html"]
  tags.foldr alt (alt script document)

/-- `_EVENT_HANDLER_RE`. -/
def eventHandler : Regex :=
  seqs [anyCase "on", atLeast 1 (one WordTable.isWord), star (one Unicode.isSpace), literal "="]

/-- `sanitize_identifier`, nothing for a value that is refused. -/
def sanitizeIdentifier [Sanitizer] (value : Text) : Option Text :=
  let raw := value.filter fun c => c != Char.ofNat 0
  if value.isEmpty then some []
  else if injection.search raw || eventHandler.search raw then none
  else some (Text.strip (Sanitizer.clean raw))

end

/-! ## Evidence written by hand -/

/-- `KINDS`. -/
def evidenceKinds : List String :=
  ["http_request", "http_response", "terminal_output", "tool_result", "note", "screenshot"]

/-- `SENSITIVITIES`. -/
def evidenceSensitivities : List String := ["public", "internal", "confidential", "restricted"]

/-- `RETENTIONS`. -/
def evidenceRetentions : List String := ["engagement", "90d", "permanent"]

/-- `MAX_BODY_CHARS`. -/
def maxBodyChars : ℕ := 200000

structure EvidenceCreate where
  kind : String
  title : String
  body : String
  findingId : Option String
  collector : String
  source : String
  sensitivity : String
  retention : String

section
variable [Unicode] [WordTable] [Sanitizer]

/-- `clean_short` and the bound of the field, which the refusal names. -/
def cleanShort (field : String) (limit : ℕ) (value : String) : Except Refusal String := do
  let text ← found (sanitizeIdentifier value.toList) (.http 422 field)
  ensure (text.length ≤ limit) (.http 422 field)
  return String.ofList text

/-- The payload as the schema hands it on. -/
def EvidenceCreate.validate (p : EvidenceCreate) : Except Refusal EvidenceCreate := do
  let title ← cleanShort "title" 200 p.title
  ensure (p.body.length ≤ maxBodyChars) (.http 422 "body")
  ensure ((p.findingId.getD "").length ≤ 100) (.http 422 "finding_id")
  let collector ← cleanShort "collector" 100 p.collector
  let source ← cleanShort "source" 60 p.source
  return { p with title, collector, source }

/-- The text that is stored of a body: redacted, and without markup when it is a note. -/
def storedBody (kind : String) (body : Text) : Text :=
  let body := redactText body
  if kind == "note" then stripText body else body

/-- The row that `create_evidence` adds. -/
def createEvidence (view : Record) (programId : String) (payload : EvidenceCreate)
    (newId : String) (createdAt : Instant) : Except Refusal ReportedEvidence := do
  let payload ← payload.validate
  ensure (evidenceKinds.contains payload.kind) (.http 400 ("kind must be one of ['http_request', " ++
    "'http_response', 'note', 'screenshot', 'terminal_output', 'tool_result']"))
  ensure (evidenceSensitivities.contains payload.sensitivity)
    (.http 400 "sensitivity must be one of ['confidential', 'internal', 'public', 'restricted']")
  ensure (evidenceRetentions.contains payload.retention)
    (.http 400 "retention must be one of ['90d', 'engagement', 'permanent']")
  let findingId := payload.findingId.filter fun id => !id.isEmpty
  ensure (findingId.all fun id => (view.findings.get? id).any fun f => f.programId == programId)
    (.http 400 "finding_id must belong to this engagement")
  let body := storedBody payload.kind payload.body.toList
  return {
    id := newId
    programId
    jobId := none
    caseId := none
    identityId := none
    observedOutcome := none
    expectedDecision := none
    contentHash := Sha256.ofText body
    collectedAt := none
    findingId
    kind := payload.kind
    title := some payload.title
    body := some (String.ofList body)
    caseRef := none
    source := some payload.source
    sensitivity := some payload.sensitivity
    createdAt }

/-- The record after `create_evidence`; a refused call leaves it. -/
def Record.collect (record : Record) (programId : String) (payload : EvidenceCreate)
    (newId : String) (createdAt : Instant) : Record :=
  match createEvidence record programId payload newId createdAt with
  | .ok e => { record with evidence := (record.evidence.insert e).getD record.evidence }
  | .error _ => record

end

/-! ## Evidence of a result -/

/-- A line break before an entry at this depth. -/
def newline (level : ℕ) : Text := '\n' :: List.replicate (2 * level) ' '

mutual

/-- `json.dumps(value, indent=2, sort_keys=True)`, from inside a document. -/
def dumpsIndented (level : ℕ) : Json → Text
  | .null => "null".toList
  | .bool b => (if b then "true" else "false").toList
  | .int n => (toString n).toList
  | .float _ r => r.toList
  | .nonfinite r => r.toList
  | .str s => Json.quote s
  | .arr [] => "[]".toList
  | .arr (x :: xs) => '[' :: newline (level + 1) ++
      join (',' :: newline (level + 1)) (dumpsIndented (level + 1) x ::
        dumpsIndentedList (level + 1) xs) ++ newline level ++ [']']
  | .obj [] => "\x7b\x7d".toList
  | .obj (f :: fs) =>
    let items := (f.1, dumpsIndented (level + 1) f.2) :: dumpsIndentedFields (level + 1) fs
    let sorted := items.insertionSort fun a b => ¬ b.1 < a.1
    '\x7b' :: newline (level + 1) ++
      join (',' :: newline (level + 1)) (sorted.map fun p => Json.quote p.1 ++ ": ".toList ++ p.2) ++
      newline level ++ ['\x7d']

def dumpsIndentedList (level : ℕ) : List Json → List Text
  | [] => []
  | x :: xs => dumpsIndented level x :: dumpsIndentedList level xs

def dumpsIndentedFields (level : ℕ) : List (String × Json) → List (String × Text)
  | [] => []
  | (k, x) :: fs => (k, dumpsIndented level x) :: dumpsIndentedFields level fs

end

section
variable [Unicode] [WordTable]

/-- What `redact_mapping` replaces whole. -/
def sensitiveField (k : String) : Bool :=
  let name := Unicode.lower k.toList
  sensitiveKeys.contains name || sensitiveHeaders.contains name

mutual

/-- `redact_mapping`. -/
def redactMapping : Json → Json
  | .str s => .str (redact s)
  | .arr xs => .arr (redactMappingList xs)
  | .obj fs => .obj (redactMappingFields fs)
  | j => j

def redactMappingList : List Json → List Json
  | [] => []
  | x :: xs => redactMapping x :: redactMappingList xs

def redactMappingFields : List (String × Json) → List (String × Json)
  | [] => []
  | (k, x) :: fs =>
    (k, if sensitiveField k then .str (String.ofList placeholder) else redactMapping x) ::
      redactMappingFields fs

end

/-- The text that `store_gate_result` stores of an execution. -/
def resultBody (detail : Json) : Text := dumpsIndented 0 (redactMapping detail)

end

/-! ## Stored evidence -/

variable [Unicode] [WordTable] [Sanitizer]

/-- A text that some evidence may have. -/
inductive StoredText : Text → Prop
  | created (kind : String) (body : Text) : StoredText (storedBody kind body)
  | uploaded (detail : Json) : StoredText (resultBody detail)

/-- Evidence as it was written: with a stored text, and the digest of this text. -/
def ReportedEvidence.Written (e : ReportedEvidence) : Prop :=
  ∃ body, StoredText body ∧ e.body = some (String.ofList body) ∧
    e.contentHash = Sha256.ofText body

theorem written_createEvidence {view : Record} {programId : String} {payload : EvidenceCreate}
    {newId : String} {createdAt : Instant} {e : ReportedEvidence}
    (h : createEvidence view programId payload newId createdAt = .ok e) : e.Written := by
  obtain ⟨p, -, h⟩ := bind_eq_ok h
  obtain ⟨-, -, h⟩ := bind_eq_ok h
  obtain ⟨-, -, h⟩ := bind_eq_ok h
  obtain ⟨-, -, h⟩ := bind_eq_ok h
  obtain ⟨-, -, h⟩ := bind_eq_ok h
  obtain rfl := Except.ok.inj h
  exact ⟨_, .created p.kind p.body.toList, rfl, rfl⟩

end VardrMap.Deliverables
