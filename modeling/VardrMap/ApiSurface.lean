import VardrMap.AuthorizationCoverage
import VardrMap.EvidenceRecords

/-!
# The observed operations of an engagement

An exchange that was captured in a proxy is stored under the operation that it was sent to, and
an operation is stored when its first exchange is. Two captures belong to one operation when
they agree on the method and on the canonical key: scheme, host, port and path template.
-/
namespace VardrMap.ApiSurface
open Lib Parsers Deliverables

/-- The row of an operation, with what its captures leave on it. -/
structure ObservedEndpoint extends ApiEndpoint where
  canonicalKey : String
  source : String
  observationCount : ℕ
  firstSeenAt : Instant
  lastSeenAt : Instant

/-- The row of an exchange, redacted. -/
structure CapturedExchange extends ApiExchange where
  sourceTool : String
  requestHeaders : String
  requestBody : String
  responseHeaders : String
  responseBody : String
  requestHash : String
  responseHash : String
  responseLength : Option ℤ
  responseMime : String
  responseTimeMs : Option ℤ
  note : String
  capturedAt : Instant
  createdAt : Instant

instance : Keyed ObservedEndpoint String := ⟨fun e => e.id⟩
instance : Keyed CapturedExchange String := ⟨fun x => x.id⟩

/-- `MAX_MESSAGE_CHARS`. -/
def maxMessageChars : ℕ := 200000

/-- `METHODS`. -/
def methods : List String :=
  ["GET", "POST", "PUT", "PATCH", "DELETE", "OPTIONS", "HEAD", "TRACE"]

/-- `TOOLS`. -/
def tools : List String := ["proxy", "repeater", "intruder", "scanner", "organizer", "unknown"]

/-- The payload; the method is the text of what was sent. -/
structure ExchangeCreate where
  method : String
  url : String
  pathTemplate : Option String
  sourceTool : String
  identityLabel : String
  requestHeaders : String
  requestBody : String
  responseHeaders : String
  responseBody : String
  responseStatus : Option ℤ
  responseLength : Option ℤ
  responseMime : String
  responseTimeMs : Option ℤ
  note : String
  capturedAt : Option Instant

/-! ## Names of parameters -/

mutual

/-- The keys of a document, in the order of the walk. -/
def walk : Json → List String
  | .obj fs => walkFields fs
  | .arr xs => walkList 50 xs
  | _ => []

/-- The keys of the first elements of a list. -/
def walkList : ℕ → List Json → List String
  | n + 1, x :: xs => walk x ++ walkList n xs
  | _, _ => []

def walkFields : List (String × Json) → List String
  | [] => []
  | (k, x) :: fs => String.ofList (k.toList.take 100) :: walk x ++ walkFields fs

end

/-- `_parameter_names`, of what `json.loads` makes of a body that it accepts. -/
def parameterNames (loads : Text → Option Json) (body : Text) : List String :=
  if body.isEmpty then [] else ((loads body).elim [] fun j => sortedSet (walk j)).take 200

section
variable [Unicode] [WordTable] [Sanitizer]

/-! ## The payload -/

/-- The payload as the schema hands it on. -/
def ExchangeCreate.validate (p : ExchangeCreate) : Except Refusal ExchangeCreate := do
  let method := String.ofList (Unicode.upper p.method.toList)
  ensure (method.length ≤ 10) (.http 422 "method")
  ensure (p.url.length ≤ 4000) (.http 422 "url")
  ensure ((p.pathTemplate.getD "").length ≤ 1000) (.http 422 "path_template")
  ensure (p.sourceTool.length ≤ 30) (.http 422 "source_tool")
  let identityLabel ← cleanShort "identity_label" 100 p.identityLabel
  ensure (p.requestHeaders.length ≤ maxMessageChars) (.http 422 "request_headers")
  ensure (p.requestBody.length ≤ maxMessageChars) (.http 422 "request_body")
  ensure (p.responseHeaders.length ≤ maxMessageChars) (.http 422 "response_headers")
  ensure (p.responseBody.length ≤ maxMessageChars) (.http 422 "response_body")
  ensure (p.responseStatus.all fun s => 100 ≤ s && s ≤ 599) (.http 422 "response_status")
  ensure (p.responseLength.all fun n => 0 ≤ n) (.http 422 "response_length")
  let responseMime ← cleanShort "response_mime" 100 p.responseMime
  ensure (p.responseTimeMs.all fun t => 0 ≤ t && t ≤ 86400000) (.http 422 "response_time_ms")
  ensure (p.note.length ≤ 1000) (.http 422 "note")
  return { p with method, identityLabel, responseMime }

/-- A capture that was let through, with the operation that it belongs to. -/
structure Capture where
  programId : String
  payload : ExchangeCreate
  scheme : String
  host : String
  port : Option ℕ
  template : String
  canonical : String

/-- What an operation is stored once for. -/
structure OperationKey where
  programId : String
  method : String
  canonical : String
  deriving DecidableEq

omit [Unicode] [WordTable] [Sanitizer] in
def Capture.key (c : Capture) : OperationKey := ⟨c.programId, c.payload.method, c.canonical⟩

omit [Unicode] [WordTable] [Sanitizer] in
def ObservedEndpoint.operation (e : ObservedEndpoint) : OperationKey :=
  ⟨e.programId, e.method, e.canonicalKey⟩

omit [WordTable] [Sanitizer] in
/-- `payload.path_template or infer_path_template(parsed.path)`. -/
def templateOf (payload : ExchangeCreate) (path : Text) : Text :=
  match payload.pathTemplate with
  | some t => if t.isEmpty then inferPathTemplate path else t.toList
  | none => inferPathTemplate path

omit [WordTable] [Sanitizer] in
/-- The checks of `create_exchange` and the canonical key. -/
def captureOf (programId : String) (payload : ExchangeCreate) : Except Refusal Capture := do
  ensure (methods.contains payload.method) (.http 400 "Unsupported HTTP method")
  ensure (tools.contains payload.sourceTool) (.http 400 ("source_tool must be one of " ++
    "['intruder', 'organizer', 'proxy', 'repeater', 'scanner', 'unknown']"))
  let parsed ← raise (Url.urlsplit payload.url.toList)
  let absolute := ["http".toList, "https".toList].contains parsed.scheme
  let hostname ← found (parsed.hostname.filter fun _ => absolute)
    (.http 400 "url must be an absolute HTTP(S) URL")
  let template := templateOf payload parsed.path
  ensure (template.head? == some '/' && !template.contains '?' && !template.contains '#')
    (.http 400 "path_template must be an absolute path without query or fragment")
  let host := Unicode.lower hostname
  let port ← raise parsed.port
  let canonical := parsed.scheme ++ "://".toList ++ host ++ ':' ::
    (toString (portOf parsed.scheme port)).toList ++ template
  return {
    programId
    payload
    scheme := String.ofList parsed.scheme
    host := String.ofList host
    port
    template := String.ofList template
    canonical := String.ofList canonical }

/-! ## The rows -/

omit [Unicode] [WordTable] [Sanitizer] in
/-- The row of an operation that is not stored yet. -/
def Capture.endpoint (c : Capture) (newId : String) (now : Instant) : ObservedEndpoint where
  id := newId
  programId := c.programId
  method := c.payload.method
  scheme := some c.scheme
  host := c.host
  port := c.port
  pathTemplate := c.template
  canonicalKey := c.canonical
  source := "burp"
  observationCount := 0
  firstSeenAt := now
  lastSeenAt := now

/-- The row of the captured exchange. -/
def Capture.exchange (loads : Text → Option Json) (c : Capture) (endpointId newId : String)
    (now createdAt : Instant) : CapturedExchange :=
  let requestHeaders := redactText c.payload.requestHeaders.toList
  let requestBody := redactText c.payload.requestBody.toList
  let responseHeaders := redactText c.payload.responseHeaders.toList
  let responseBody := redactText c.payload.responseBody.toList
  { id := newId
    programId := c.programId
    endpointId
    identityLabel :=
      some (if c.payload.identityLabel.isEmpty then "anonymous" else c.payload.identityLabel)
    responseStatus := c.payload.responseStatus
    parameterNames := .arr ((parameterNames loads requestBody).map .str)
    sourceTool := c.payload.sourceTool
    requestHeaders := String.ofList requestHeaders
    requestBody := String.ofList requestBody
    responseHeaders := String.ofList responseHeaders
    responseBody := String.ofList responseBody
    requestHash := Sha256.ofText (requestHeaders ++ ['\n', '\n'] ++ requestBody)
    responseHash := Sha256.ofText (responseHeaders ++ ['\n', '\n'] ++ responseBody)
    responseLength := c.payload.responseLength
    responseMime := c.payload.responseMime
    responseTimeMs := c.payload.responseTimeMs
    note := String.ofList (stripText c.payload.note.toList)
    capturedAt := c.payload.capturedAt.getD now
    createdAt }

end

/-- The row of an operation after one more exchange was stored for it. -/
def ObservedEndpoint.observed (e : ObservedEndpoint) (now : Instant) : ObservedEndpoint :=
  { e with observationCount := e.observationCount + 1, lastSeenAt := now }

end VardrMap.ApiSurface
