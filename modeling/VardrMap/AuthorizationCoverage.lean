import Mathlib.Algebra.GroupWithZero.Nat
import Mathlib.Data.Prod.Lex
import VardrMap.Assessments

/-!
# Authorization coverage of the observed operations

`buildCoverage` joins the observed operations of an engagement with its reviewed cases,
the runs of those cases, and the candidates the runs produced. A case covers an operation
by its route; a run counts for a case only while its frozen snapshot is the case's present
specification.
-/
namespace VardrMap
open Lib

variable [Unicode]

/-! ## Routes -/

/-- The fields of a versioned UUID. -/
def isUuid (segment : Text) : Bool :=
  match Text.fields '-' segment with
  | [a, b, c, d, e] =>
    [a, b, c, d, e].map List.length == [8, 4, 4, 4, 12] &&
      [a, b, c, d, e].all Url.hexDigits &&
      c.head?.any (fun x => "12345".toList.contains x) &&
      d.head?.any (fun x => "89abAB".toList.contains x)
  | _ => false

/-- One or more decimal digits. -/
def isInteger (segment : Text) : Bool :=
  !segment.isEmpty && segment.all fun c => (Unicode.decimal c).isSome

/-- Sixteen or more identifier characters; a type prefix is made of the same ones. -/
def isOpaque (segment : Text) : Bool :=
  16 ≤ segment.length && segment.all fun c => c.isAlphanum || c == '_' || c == '-'

def collapseSegment (segment : Text) : Text :=
  if isUuid segment then "{uuid}".toList
  else if isInteger segment then "{id}".toList
  else if isOpaque segment then "{opaque_id}".toList
  else segment

/-- `infer_path_template`. -/
def inferPathTemplate (path : Text) : Text :=
  let parts := (Text.fields '/' (if path.isEmpty then ['/'] else path)).map collapseSegment
  let result := List.intercalate ['/'] parts
  if result.head? == some '/' then result else '/' :: result

/-- The comparable shape of a case's request. -/
structure Request where
  method : Text
  scheme : Text
  host : Text
  port : ℕ
  template : Text
  path : Text
  deriving DecidableEq

/-- `_port`: zero and no port are the default of the scheme. -/
def portOf (scheme : Text) (port : Option ℕ) : ℕ :=
  match port with
  | some (n + 1) => n + 1
  | _ => if scheme == "https".toList then 443 else 80

/-- The request of a split URL, `None` when it is unusable. -/
def requestOf (method : Text) (url : SplitUrl) : Option Request :=
  match url.port, url.hostname with
  | .ok port, some host =>
    if method.isEmpty || !(["http".toList, "https".toList].contains url.scheme) then none
    else
      let path := if url.path.isEmpty then ['/'] else url.path
      some {
        method
        scheme := url.scheme
        host := Unicode.lower host
        port := portOf url.scheme port
        template := inferPathTemplate path
        path }
  | _, _ => none

/-- `parse_request`. -/
def parseRequest (request : Json) : Option Request :=
  if !request.isObj then none
  else
    match Url.urlsplit ((request.field "url").toStrOr "").toList with
    | .ok url => requestOf (Unicode.upper ((request.field "method").toStrOr "").toList) url
    | .error _ => none

/-- A placeholder of an inventory template. -/
def isPlaceholder (segment : Text) : Bool :=
  segment.head? == some '{' && segment.getLast? == some '}' && 3 ≤ segment.length &&
    (segment.drop 1).dropLast.all (· != '\n')

/-- `_template_matches`: literals and empty segments match exactly. -/
def templateMatches (endpointTemplate casePath : Text) : Bool :=
  let left := Text.fields '/' endpointTemplate
  let right := Text.fields '/' casePath
  endpointTemplate == casePath ||
    (left.length == right.length &&
      (left.zip right).all fun p => p.1 == p.2 || (!p.2.isEmpty && isPlaceholder p.1))

/-- A stored text, with the default of an absent or empty one. -/
def textOr (value : Option String) (default : String) : String :=
  match value with
  | some s => if s.isEmpty then default else s
  | none => default

/-- `operation_matches`. -/
def operationMatches (endpoint : ApiEndpoint) (request : Request) : Bool :=
  let scheme := (textOr endpoint.scheme "https").toList
  endpoint.method.toList == request.method && scheme == request.scheme &&
    Unicode.lower endpoint.host.toList == request.host &&
    portOf scheme endpoint.port == request.port &&
    templateMatches endpoint.pathTemplate.toList request.path

/-! ## Cases -/

/-- `_identity_ids`. -/
def identityIds (spec : Json) : Except Exn (List String) := do
  let identities ← ((spec.field "identities").orElse (.arr [])).iter
  return sortedSet (identities.filterMap fun i =>
    if i.isObj && (i.field "id").truthy then some (i.field "id").toStr else none)

/-- The decisions a specification expects, with the identities they are about. -/
def declaredDecisions (spec : Json) : Except Exn (List (String × String)) := do
  let expected ← ((spec.field "expected_access").orElse (.arr [])).iter
  return expected.filterMap fun item =>
    if item.isObj && (item.field "identity_id").truthy then
      some ((item.field "identity_id").toStr, (item.field "decision").toStrOr "unknown")
    else none

/-- The declared decision of an identity; conflicting declarations have none. -/
def decisionFor (decisions : List (String × String)) (identity : String) : String :=
  match ((decisions.filter fun p => p.1 == identity).map Prod.snd).dedup with
  | [d] => d
  | _ => "unknown"

/-- The hash of the present specification of a case. -/
def presentHash (spec : Json) : Except Exn (Option String) :=
  if spec.isObj && spec.truthy then (caseHash spec).map some else .ok none

/-- A case as coverage reads it. -/
structure CaseRow where
  case : AuthorizationTestCase
  hash : Option String
  identities : List String
  decisions : List (String × String)
  request : Option Request

def readCase (case : AuthorizationTestCase) : Except Exn CaseRow := do
  let spec := objOrEmpty case.spec
  let hash ← presentHash case.spec
  let identities ← identityIds spec
  let decisions ← declaredDecisions spec
  return ⟨case, hash, identities, decisions, parseRequest (spec.field "request")⟩

/-- A stored case without an allow or deny expectation reviews nothing yet. -/
def CaseRow.reviewed (row : CaseRow) : Bool :=
  row.decisions.any fun p => ["allow", "deny"].contains (decisionFor row.decisions p.1)

/-- The request of the case reaches the operation. -/
def requestMatches (endpoint : ApiEndpoint) (request : Option Request) : Bool :=
  request.any (operationMatches endpoint)

/-! ## Runs -/

/-- One executed job and what its own frozen snapshot says it exercised. -/
structure Run where
  job : ScanJob
  caseId : String
  request : Option Request
  snapshotHash : Option String
  verified : Bool

def runOf (job : ScanJob) : Except Exn Run := do
  let caseId ← job.testCaseId
  let hash ← presentHash job.caseSnapshot
  let verified ← (job.assessment.orElse (.obj [])).get "case_snapshot_verified"
  return ⟨job, caseId, parseRequest ((objOrEmpty job.caseSnapshot).field "request"), hash,
    verified.truthy⟩

def Run.isCurrentFor (run : Run) (caseId : String) (currentHash : Option String) : Bool :=
  run.caseId == caseId && currentHash.isSome && run.verified && run.snapshotHash == currentHash

/-- The lexicographic order of the times and then the identifier, from the computable orders of
the components. -/
@[reducible] def recencyOrder : LinearOrder (ℤ ×ₗ ℤ ×ₗ String) :=
  @Prod.Lex.instLinearOrder ℤ (ℤ ×ₗ String) Int.instLinearOrder
    (@Prod.Lex.instLinearOrder ℤ String Int.instLinearOrder inferInstance)

/-- What the latest run is the greatest in. -/
def recency (job : ScanJob) : ℤ ×ₗ ℤ ×ₗ String :=
  toLex (job.completedAt.getD job.createdAt, toLex (job.createdAt, job.id))

/-- `_latest`. -/
def latest (jobs : List ScanJob) : Option ScanJob :=
  @List.argmax _ _ recencyOrder.toPreorder recencyOrder.toDecidableLT recency
    (jobs.filter fun j => j.assessment.truthy)

/-! ## One case of an operation -/

/-- What a run reported about one identity. -/
structure Cell where
  state : String
  reason : String
  expected : String
  deriving DecidableEq

/-- The identities of an assessment, in order. -/
def reportedCells (assessment : Json) : Except Exn (List (String × Cell)) := do
  let items ← ((← assessment.get "identities").orElse (.arr [])).iter
  let cells ← items.mapM fun item => do
    let id ← item.get "identity_id"
    return if id.truthy then
      some (id.toStr, {
        state := (item.field "state").toStrOr "missing"
        reason := (item.field "reason").toStrOr ""
        expected := (item.field "expected_decision").toStrOr "unknown" : Cell })
    else none
  return cells.reduceOption

/-- A matching case with its latest current run. -/
structure MatchedCase where
  row : CaseRow
  staleRuns : ℕ
  latest : Option ScanJob
  status : Json
  reasons : List Json
  cells : List (String × Cell)

/-- The runs of a case that ran its present specification. -/
def currentJobs (runs : List Run) (row : CaseRow) : List ScanJob :=
  (runs.filter fun r => r.caseId == row.case.id && r.isCurrentFor row.case.id row.hash).map Run.job

def staleCount (runs : List Run) (row : CaseRow) : ℕ :=
  runs.countP fun r => r.caseId == row.case.id && !r.isCurrentFor row.case.id row.hash

/-- Status, reasons and cells of the latest run. -/
def readLatest : Option ScanJob → Except Exn (Json × List Json × List (String × Cell))
  | none => .ok (.null, [], [])
  | some job => do
    let assessment := job.assessment.orElse (.obj [])
    let status ← assessment.get "status"
    let reasons ← ((← assessment.get "reasons").orElse (.arr [])).iter
    let cells ← reportedCells assessment
    return (status, reasons, cells)

def matchedCase (runs : List Run) (row : CaseRow) : Except Exn MatchedCase := do
  let job := latest (currentJobs runs row)
  let (status, reasons, cells) ← readLatest job
  return ⟨row, staleCount runs row, job, status, reasons, cells⟩

def MatchedCase.executed (m : MatchedCase) : Bool := m.latest.isSome

/-- The cell of an identity the case declares: the last report about it, missing when the
run has none, `None` without a run. -/
def MatchedCase.cell (m : MatchedCase) (identity : String) : Option Cell :=
  if m.executed then
    some ((m.cells.reverse.lookup identity).getD
      ⟨"missing", "execution_missing", decisionFor m.row.decisions identity⟩)
  else none

/-- The entry of a matching case in the report. -/
structure CaseEntry where
  caseId : String
  name : String
  testCaseId : String
  identities : List String
  expected : List (String × String)
  queuedJobs : ℕ
  executed : Bool
  identityStates : List (String × String)
  staleRuns : ℕ
  latestJobId : Option String
  assessmentStatus : Json
  reasons : List Json

def caseEntry (queued : List String) (m : MatchedCase) : CaseEntry where
  caseId := m.row.case.id
  name := m.row.case.name
  testCaseId := m.row.case.testCaseId
  identities := m.row.identities
  expected := (m.row.decisions.map Prod.fst).dedup.map fun i => (i, decisionFor m.row.decisions i)
  queuedJobs := queued.count m.row.case.id
  executed := m.executed
  identityStates := m.row.identities.filterMap fun i =>
    (m.cells.reverse.lookup i).map fun c => (i, c.state)
  staleRuns := m.staleRuns
  latestJobId := m.latest.map ScanJob.id
  assessmentStatus := m.status
  reasons := m.reasons

/-! ## One identity of an operation -/

structure IdentityRow where
  identityId : String
  state : String
  reason : String
  expected : Option String
  deriving DecidableEq

def identityRank (state : String) : ℕ :=
  if state == "evaluated" then 4
  else if state == "inconclusive" then 3
  else if state == "missing" then 2
  else if state == "skipped" then 1
  else 0

/-- The only expectation of the cells. -/
def commonExpectation (cells : List Cell) : String :=
  match (cells.map Cell.expected).dedup with
  | [e] => e
  | _ => "varies"

/-- An identity whose declaring cases reported `ran`, out of `declaring` of them. -/
def ranRow (identity : String) (declaring : ℕ) (ran : List Cell) : IdentityRow :=
  let expected := some (commonExpectation ran)
  match ran.filter fun c => c.state == "evaluated" with
  | [] =>
    match ran.argmax fun c => identityRank c.state with
    | some best => ⟨identity, best.state, best.reason, expected⟩
    | none => ⟨identity, "missing", "", expected⟩
  | first :: rest =>
    if (first :: rest).length == declaring then ⟨identity, "evaluated", first.reason, expected⟩
    else ⟨identity, "mixed", "evaluated_in_some_cases_only", expected⟩

def identityRow (matched : List MatchedCase) (identity : String) : IdentityRow :=
  let cells := (matched.filter fun m => m.row.identities.contains identity).map fun m =>
    m.cell identity
  if cells.isEmpty then
    ⟨identity, "not_reviewed", "not_in_a_reviewed_case_for_this_operation", none⟩
  else if cells.reduceOption.isEmpty then
    ⟨identity, "reviewed_not_run",
      if (matched.map MatchedCase.staleRuns).sum != 0 then "case_changed_since_last_run"
      else "no_executed_assessment", none⟩
  else ranRow identity cells.length cells.reduceOption

/-! ## Candidates and history -/

def isOpenCandidate (status : String) : Bool := ["new", "reviewed"].contains status

/-- The candidates of one run. -/
structure Candidates where
  opened : ℕ
  promoted : ℕ
  falsePositive : ℕ
  deriving DecidableEq

def candidatesOf (items : List (String × String)) (jobId : String) : Candidates where
  opened := items.countP fun p => p.1 == jobId && isOpenCandidate p.2
  promoted := items.countP fun p => p.1 == jobId && p.2 == "promoted"
  falsePositive := items.countP fun p => p.1 == jobId && p.2 == "false_positive"

structure HistoryEntry where
  jobId : String
  caseId : Option String
  caseName : Option String
  reason : String
  assessmentStatus : Json
  completedAt : Option Instant
  candidates : Candidates

/-- `_historical_reason`. -/
def historicalReason (cases : List AuthorizationTestCase) (run : Run) : String :=
  if !cases.any (fun c => c.id == run.caseId) then "case_deleted"
  else if !run.verified then "snapshot_unverified"
  else "case_modified"

def nonempty (text : String) : Option String := if text.isEmpty then none else some text

def historyEntry (cases : List AuthorizationTestCase) (items : List (String × String))
    (run : Run) : HistoryEntry where
  jobId := run.job.id
  caseId := nonempty run.caseId
  caseName := (cases.find? fun c => c.id == run.caseId).map AuthorizationTestCase.name
  reason := historicalReason cases run
  -- reading the run has already established that the assessment is a dictionary
  assessmentStatus := run.job.assessment.field "status"
  completedAt := run.job.completedAt
  candidates := candidatesOf items run.job.id

/-- The latest entries, at most ten of them. -/
def recentHistory (history : List HistoryEntry) : List HistoryEntry :=
  ((sortBy (fun h : HistoryEntry =>
    (toLex ((h.completedAt : WithBot ℤ), h.jobId) : WithBot ℤ ×ₗ String)) history).reverse).take 10

/-! ## Priority -/

structure Reason where
  code : String
  detail : String

def stateChangingMethods : List String := ["POST", "PUT", "PATCH", "DELETE"]

def boundaryFields : List String := ["role", "roles", "is_admin", "admin", "permissions", "scope",
  "scopes", "tenant_id", "org_id", "organization_id", "account_id", "owner_id", "user_id", "price",
  "balance", "credit", "status"]

/-- A segment with a placeholder, a final line break aside. -/
def hasObjectSegment (template : Text) : Bool :=
  (Text.fields '/' template).any fun part =>
    isPlaceholder part || (part.getLast? == some '\n' && isPlaceholder part.dropLast)

/-- `priority_reasons`. -/
def priorityReasons (endpoint : ApiEndpoint) (success fields : List String) : List Reason :=
  (if hasObjectSegment endpoint.pathTemplate.toList then
    [⟨"object_identifier_in_path",
      "The route addresses an object by identifier (object-level access)."⟩] else []) ++
  (if stateChangingMethods.contains endpoint.method then
    [⟨"state_changing_method", endpoint.method ++ " changes server state."⟩] else []) ++
  (if fields.isEmpty then [] else
    [⟨"boundary_fields_in_requests",
      "Captured requests carry: " ++ String.intercalate ", " fields ++ "."⟩]) ++
  (if 2 ≤ success.length then
    [⟨"success_for_multiple_identities",
      "Captured 2xx responses for: " ++ String.intercalate ", " success ++ "."⟩] else []) ++
  (if success.contains "anonymous" then
    [⟨"anonymous_success_observed",
      "A captured request without credentials returned 2xx."⟩] else [])

/-- The boundary fields that a captured request names. -/
def exchangeFields (exchange : ApiExchange) : Except Exn (String × List String) := do
  let names ← (exchange.parameterNames.orElse (.arr [])).iter
  return (exchange.endpointId, (names.map fun n =>
    String.ofList (Unicode.lower n.toStr.toList)).filter boundaryFields.contains)

def exchangeLabel (exchange : ApiExchange) : String := textOr exchange.identityLabel "anonymous"

/-! ## Operations -/

inductive OperationState where
  | violationCandidate
  | inconclusive
  | partial_
  | conclusive
  | reviewedNotExecuted
  | stale
  | untested
  deriving DecidableEq

/-- `STATES`. -/
def operationStates : List OperationState :=
  [.violationCandidate, .inconclusive, .partial_, .conclusive, .reviewedNotExecuted, .stale,
    .untested]

structure Operation where
  endpoint : ApiEndpoint
  observedIdentities : List String
  priorityReasons : List Reason
  state : OperationState
  cases : List CaseEntry
  identityCoverage : List IdentityRow
  candidates : Candidates
  backingEvidence : ℕ
  candidateEvidence : List Evidence
  historicalAssessments : List HistoryEntry

/-- Some status is conclusive or partial; a list or dictionary among them raises. -/
def anyDefinite : List Json → Except Exn Bool
  | [] => .ok false
  | s :: rest => do
    let key ← s.asKey
    if key == .str "conclusive" || key == .str "partial" then return true
    else anyDefinite rest

/-- The state of an operation: a candidate first, then what its matching cases show. -/
def operationState (flagged : Bool) (matched : List MatchedCase) : Except Exn OperationState :=
  let executed := matched.filter MatchedCase.executed
  if flagged then .ok .violationCandidate
  else if matched.isEmpty then .ok .untested
  else if executed.isEmpty then
    .ok (if (matched.map MatchedCase.staleRuns).sum != 0 then .stale else .reviewedNotExecuted)
  else if (executed.map MatchedCase.status).all (· == .str "conclusive") &&
      matched.all MatchedCase.executed then .ok .conclusive
  else (anyDefinite (executed.map MatchedCase.status)).map fun definite =>
    if definite then .partial_ else .inconclusive

/-- What every operation of an engagement is computed from. -/
structure Joined where
  cases : List AuthorizationTestCase
  rows : List CaseRow
  runs : List Run
  queued : List String
  items : List (String × String)
  evidence : List Evidence
  exchanges : List ApiExchange
  fields : List (String × List String)
  universe_ : List String

/-- The reviewed cases that match an operation. -/
def Joined.matchedRows (j : Joined) (endpoint : ApiEndpoint) : List CaseRow :=
  (j.rows.filter CaseRow.reviewed).filter fun r => requestMatches endpoint r.request

/-- The runs that exercised an operation, by the request they executed. -/
def Joined.attributed (j : Joined) (endpoint : ApiEndpoint) : List Run :=
  j.runs.filter fun r => requestMatches endpoint r.request

/-- The candidates of the runs that exercised an operation. -/
def Joined.candidates (j : Joined) (endpoint : ApiEndpoint) : Candidates :=
  let all := (j.attributed endpoint).map fun r => candidatesOf j.items r.job.id
  ⟨(all.map Candidates.opened).sum, (all.map Candidates.promoted).sum,
    (all.map Candidates.falsePositive).sum⟩

def Candidates.unresolved (c : Candidates) : Bool := c.opened != 0 || c.promoted != 0

def Joined.labels (j : Joined) (endpoint : ApiEndpoint) (p : ApiExchange → Bool) : List String :=
  sortedSet (((j.exchanges.filter fun x => x.endpointId == endpoint.id).filter p).map exchangeLabel)

/-- A captured success. -/
def answered (exchange : ApiExchange) : Bool := exchange.responseStatus.any success

/-- `_operation`. -/
def Joined.operation (j : Joined) (endpoint : ApiEndpoint) : Except Exn Operation := do
  let matched ← (j.matchedRows endpoint).mapM (matchedCase j.runs)
  let attributed := j.attributed endpoint
  let candidates := j.candidates endpoint
  let backing := attributed.flatMap fun r => j.evidence.filter fun e => e.jobId == some r.job.id
  let historical := attributed.filter fun r =>
    !(j.matchedRows endpoint).any fun row => r.isCurrentFor row.case.id row.hash
  let state ← operationState candidates.unresolved matched
  return {
    endpoint
    observedIdentities := j.labels endpoint fun _ => true
    priorityReasons := priorityReasons endpoint (j.labels endpoint answered)
      (sortedSet ((j.fields.filter fun p => p.1 == endpoint.id).flatMap Prod.snd))
    state
    cases := matched.map (caseEntry j.queued)
    identityCoverage := j.universe_.map (identityRow matched)
    candidates
    backingEvidence := backing.length
    candidateEvidence := backing.take 10
    historicalAssessments := recentHistory (historical.map (historyEntry j.cases j.items)) }

/-! ## The engagement -/

structure UnmatchedCase where
  caseId : String
  name : String
  reason : String
  request : Option String

structure UnattributedRun where
  jobId : String
  caseId : Option String
  assessmentStatus : Json
  reason : String

structure Coverage where
  operations : List Operation
  total : ℕ
  counts : List (OperationState × ℕ)
  identities : List String
  unmatchedCases : List UnmatchedCase
  unattributedAssessments : List UnattributedRun

def requestText (r : Request) : String :=
  String.ofList (r.method ++ ' ' :: r.scheme ++ "://".toList ++ r.host ++ ':' ::
    (toString r.port).toList ++ r.template)

/-- The reviewed cases that no operation matches, then those that review nothing. -/
def Joined.unmatched (j : Joined) (endpoints : List ApiEndpoint) : List UnmatchedCase :=
  ((j.rows.filter CaseRow.reviewed).filter fun r =>
    !endpoints.any fun e => (j.matchedRows e).any fun m => m.case.id == r.case.id).map (fun r =>
      { caseId := r.case.id
        name := r.case.name
        reason := if r.request.isSome then "no_observed_operation" else "unusable_request"
        request := r.request.map requestText }) ++
  (j.rows.filter fun r => !r.reviewed).map fun r =>
    { caseId := r.case.id
      name := r.case.name
      reason := "no_reviewed_expectation"
      request := none }

/-- The executed runs that no operation was exercised by. -/
def Joined.unattributed (j : Joined) (endpoints : List ApiEndpoint) : List UnattributedRun :=
  (j.runs.filter fun r =>
    !endpoints.any fun e => (j.attributed e).any fun a => a.job.id == r.job.id).map fun r =>
      { jobId := r.job.id
        caseId := nonempty r.caseId
        assessmentStatus := r.job.assessment.field "status"
        reason := if r.request.isSome then "no_observed_operation" else "no_usable_snapshot" }

/-- The observed operations of an engagement, in order. -/
def endpointsOf (inventory : Inventory) (programId : String) : List ApiEndpoint :=
  sortBy (fun e : ApiEndpoint =>
      (toLex (e.host, toLex (e.pathTemplate, toLex (e.method, e.id))) :
        String ×ₗ String ×ₗ String ×ₗ String))
    (inventory.endpoints.rows.filter fun e => e.programId == programId)

/-- The stored cases of an engagement, in order. -/
def casesOf (db : Db) (programId : String) : List AuthorizationTestCase :=
  sortBy (fun c : AuthorizationTestCase => (toLex (c.createdAt, c.id) : ℤ ×ₗ String))
    (db.testCases.rows.filter fun c => c.programId == programId)

/-- The test-case jobs of an engagement. -/
def gateJobs (db : Db) (programId : String) : List ScanJob :=
  db.jobs.rows.filter fun j => j.programId == programId && j.toolType == gateTool

/-- A job that is still to be executed. -/
def isQueued (job : ScanJob) : Bool :=
  (job.status == .pending || job.status == .running) && !job.assessment.truthy

/-- The candidates of some jobs with their statuses. -/
def candidateItems (inventory : Inventory) (programId : String) (jobs : List ScanJob) :
    List (String × String) :=
  inventory.scanItems.rows.filterMap fun item =>
    match item.jobId with
    | some jobId =>
      if item.programId == programId && item.source == "vardrgate" &&
          (jobs.map ScanJob.id).contains jobId then some (jobId, textOr item.status "new")
      else none
    | none => none

/-- The evidence that an expected denial was observed as an access. -/
def backingEvidence (inventory : Inventory) (programId : String) (jobs : List ScanJob) :
    List Evidence :=
  sortBy (fun e : Evidence => (toLex ((e.collectedAt : WithBot ℤ), e.id) : WithBot ℤ ×ₗ String))
    (inventory.evidence.rows.filter fun e => e.programId == programId &&
      e.jobId.any (jobs.map ScanJob.id).contains && e.expectedDecision == some "deny" &&
      e.observedOutcome == some "allow")

/-- The rows of an engagement, joined. -/
def joinCoverage (db : Db) (inventory : Inventory) (programId : String) : Except Exn Joined := do
  let cases := casesOf db programId
  let jobs := gateJobs db programId
  let exchanges := inventory.exchanges.rows.filter fun x => x.programId == programId
  let runs ← (jobs.filter fun j => j.assessment.truthy).mapM runOf
  let queued ← (jobs.filter isQueued).mapM ScanJob.testCaseId
  let fields ← exchanges.mapM exchangeFields
  let rows ← cases.mapM readCase
  return {
    cases
    rows
    runs
    queued
    items := candidateItems inventory programId jobs
    evidence := backingEvidence inventory programId jobs
    exchanges
    fields
    universe_ := sortedSet (rows.flatMap CaseRow.identities) }

/-- `build_coverage`. -/
def buildCoverage (db : Db) (inventory : Inventory) (programId : String) :
    Except Exn Coverage := do
  let joined ← joinCoverage db inventory programId
  let endpoints := endpointsOf inventory programId
  let operations ← endpoints.mapM joined.operation
  return {
    operations
    total := operations.length
    counts := operationStates.map fun s => (s, operations.countP fun o => o.state == s)
    identities := joined.universe_
    unmatchedCases := joined.unmatched endpoints
    unattributedAssessments := joined.unattributed endpoints }

end VardrMap
