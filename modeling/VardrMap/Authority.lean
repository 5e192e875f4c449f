import VardrMap.Models
import VardrMap.Policy

/-!
# Projecting current authority

The issuance adapter reads the facts an approval rests on, asks the policy evaluator
about every dispatch of the plan, and returns an unsigned review request whose context
lists the origin of each dispatch. The origin is derived with `urlsplit`, the decision
with the evaluator's own reading of the URL.
-/
namespace VardrMap
open Lib Policy

variable [Unicode]

/-- `case_hash`: the digest of a case document, `NaN` included. -/
def caseHash (spec : Json) : Except Exn String := do return Sha256.ofText (← spec.dumps true)

/-- `_digest`: the digest of a document without `NaN`. -/
def digest (value : Json) : Except Exn String := do return Sha256.ofText (← value.dumps false)

/-- `_time`: a whole-second text, or `None`. -/
def timeText : Option DateTime → Except Exn Json
  | none => .ok .null
  | some t => do return .str (String.ofList (← t.stamp))

/-- The test case a job's configuration names, the empty text when it names none. -/
def ScanJob.testCaseId (job : ScanJob) : Except Exn String := do
  let config := job.config.orElse (.obj [])
  return (← config.get "test_case_id").toStrOr ""

/-- The case of a job, looked up inside its engagement. -/
def Db.jobCase (db : Db) (job : ScanJob) (engagementId : String) :
    Except Exn (Option AuthorizationTestCase) := do
  let id ← job.testCaseId
  return (db.testCases.get? id).filter fun c => c.programId == engagementId

/-- The scope rows of an engagement, ordered by id. -/
def Db.scopeRows (db : Db) (engagementId : String) : List ScopeItem :=
  (db.scopeItems.rows.filter fun r => r.programId == engagementId).insertionSort
    fun a b => ¬ b.id < a.id

/-- `r.kind or "domain"`. -/
def ScopeItem.kindOrDomain (r : ScopeItem) : String :=
  match r.kind with
  | some k => if k == "" then "domain" else k
  | none => "domain"

def ScopeItem.rule (r : ScopeItem) : ScopeRule :=
  { value := r.value.toList, kind := r.kindOrDomain, excluded := r.scopeType == "out" }

/-- The policy decision about a decoded target: only a text has a `strip`. -/
def evaluateTarget (candidate : PolicyInput) (target : Json) : Except Exn PolicyDecision :=
  match target with
  | .str s => evaluate { candidate with target := s.toList }
  | j =>
    let gate := evaluateEngagement candidate
    if !gate.allowed then .ok gate
    else if j.truthy then .error .attributeError
    else .ok (deny .scopeAmbiguous
      s!"Target '{j.toStr}' could not be resolved to a host, IP, or URL.")

/-- The host of an origin text, an IPv6 literal in brackets. -/
def bracketed (host : Text) : Text := if host.contains ':' then '[' :: host ++ [']'] else host

/-- `parsed.port or (443 if parsed.scheme == "https" else 80)`. -/
def effectivePort (scheme : Text) (port : Option ℕ) : ℕ :=
  match port with
  | some 0 | none => if scheme == "https".toList then 443 else 80
  | some n => n

/-- `f"{scheme}://{host}:{port}"`. -/
def originText (scheme host : Text) (port : ℕ) : String :=
  String.ofList (scheme ++ "://".toList ++ bracketed host ++ ':' :: (toString port).toList)

/-- The entry of the signed scope for one dispatch. -/
def narrow (candidate : PolicyInput) (dispatch : Json) : Except Refusal Json := do
  let request ← raise (dispatch.item "request")
  let url ← raise (request.item "url")
  let decision ← raise (evaluateTarget candidate url)
  ensure decision.allowed (.issuance "recorded_scope_or_window_denied")
  let parsed ← raise (Url.urlsplit (url.str?.getD "").toList)
  let port ← raise parsed.port
  let some host := parsed.hostname | .error (.raised .typeError)
  let method ← raise (request.item "method")
  return .obj [
    ("origin", .str (originText parsed.scheme host (effectivePort parsed.scheme port))),
    ("path", .str (if parsed.path.isEmpty then "/" else String.ofList parsed.path)),
    ("method", method),
    ("excluded", .bool false),
    ("reason", .str "")]

/-- The arguments of a projection besides the database. -/
structure Projection where
  jobId : String
  authorizationId : String
  actor : String
  plan : Json
  runnerId : String
  authorityRevision : ℤ
  expiresAt : DateTime
  maxExecutions : Json
  maxDurationSeconds : Json
  maxArtifactBytes : Json
  credentialGrants : Json
  now : DateTime
  jobStatuses : List JobStatus

/-- An integer, not a boolean, between the bounds. -/
def intWithin (lo hi : ℤ) (j : Json) : Bool := j.int?.any fun n => lo ≤ n && n ≤ hi

def optStr : Option String → Json
  | some s => .str s
  | none => .null

/-- The recorded authority and scope, as the snapshot lists them. -/
def authoritySnapshot (engagement : Engagement) (authority : Authorization)
    (scopeRows : List ScopeItem) : Except Exn Json := do
  let windowStart ← timeText authority.windowStart
  let windowEnd ← timeText authority.windowEnd
  return .obj [
    ("authorization", .obj [
      ("id", .str authority.id),
      ("status", .str authority.status),
      ("permits", .str authority.permits),
      ("authorized_by", .str authority.authorizedBy),
      ("reference", .str authority.reference),
      ("window_start", windowStart),
      ("window_end", windowEnd)]),
    ("scope", .arr (scopeRows.map fun r => .obj [
      ("value", .str r.value), ("kind", optStr r.kind), ("scope_type", .str r.scopeType)])),
    ("engagement_id", .str engagement.id)]

/-- A nullable text as the evaluator compares and prints it. -/
def shown (text : Option String) : String := text.getD "None"

/-- What the policy evaluator is asked for a dispatch of the plan. -/
def policyCandidate (engagement : Engagement) (authority : Authorization) (job : ScanJob)
    (rows : List ScopeItem) (now : DateTime) : PolicyInput where
  engagementStatus := shown engagement.engagementStatus
  engagementType := shown engagement.engagementType
  target := []
  capability := job.toolType
  now
  stopWork := false
  authorization := some {
    status := authority.status
    windowStart := authority.windowStart
    windowEnd := authority.windowEnd
    permittedCapabilities := [] }
  scopeRules := rows.map ScopeItem.rule

/-- The rows a projection reads, once its first checks pass. -/
structure Facts where
  job : ScanJob
  engagement : Engagement
  authority : Authorization
  case : AuthorizationTestCase

/-- The checks on the stored rows, up to the binding of the plan to the case. -/
def projectionFacts (db : Db) (p : Projection) : Except Refusal Facts := do
  let some job := (db.jobs.get? p.jobId).filter fun j =>
      p.jobStatuses.contains j.status && j.toolType == "vardrgate_api_test"
    | .error (.issuance "pending_gate_job_required")
  let some engagement := (db.engagements.get? job.programId).filter fun e =>
      p.actor == e.ownerGithubId
    | .error (.issuance "owner_approval_required")
  ensure engagement.stopWorkAt.isNone (.issuance "stop_work_active")
  let some authority := (db.authorizations.get? p.authorizationId).filter fun a =>
      a.programId == engagement.id && a.status == "active"
    | .error (.issuance "explicit_active_authority_required")
  let some case ← raise (db.jobCase job engagement.id)
    | .error (.issuance "reviewed_case_binding_required")
  let schema ← raise (p.plan.get "schema")
  ensure (schema == .str "vardr.execution-plan/1") (.issuance "reviewed_case_binding_required")
  let profile ← raise (p.plan.get "profile")
  ensure (profile == .str "gate-fixed-http/1") (.issuance "reviewed_case_binding_required")
  let planHash ← raise (p.plan.get "case_hash")
  let hash ← raise (caseHash case.spec)
  ensure (planHash == .str hash) (.issuance "reviewed_case_binding_required")
  return ⟨job, engagement, authority, case⟩

/-- The dispatches of a plan. -/
def planDispatches (plan : Json) : Except Exn (List Json) := do
  (← plan.getD "dispatches" (.arr [])).iter

/-- `project_current_authority`: the unsigned review request. -/
def projectCurrentAuthority (db : Db) (p : Projection) : Except Refusal Json := do
  let facts ← projectionFacts db p
  ensure (intWithin 1 1000 p.maxExecutions && 0 ≤ p.authorityRevision)
    (.issuance "invalid_allowance")
  ensure (p.now.aware && p.expiresAt.aware && p.now.instant < p.expiresAt.instant)
    (.issuance "bounded_validity_required")
  let rows := db.scopeRows facts.engagement.id
  let dispatches ← raise (planDispatches p.plan)
  let narrowed ← dispatches.mapM
    (narrow (policyCandidate facts.engagement facts.authority facts.job rows p.now))
  ensure (!narrowed.isEmpty) (.issuance "empty_plan")
  let start := facts.authority.windowStart.getD p.now
  let stop := facts.authority.windowEnd.getD p.expiresAt
  ensure (p.expiresAt.instant ≤ stop.instant) (.issuance "approval_exceeds_authority_window")
  let snapshot ← raise (authoritySnapshot facts.engagement facts.authority rows)
  let authorityHash ← raise (digest snapshot)
  let planHash ← raise (digest p.plan)
  let notBefore ← raise (timeText p.now)
  let expiresAt ← raise (timeText p.expiresAt)
  let testingStart ← raise (timeText start)
  let testingEnd ← raise (timeText stop)
  let maxHttpDispatches ← raise (p.plan.item "max_http_dispatches")
  return .obj [
    ("schema", .str "vardr.map-issuance-request/1"),
    ("origin", .str "map"),
    ("approver_id", .str p.actor),
    ("authority_snapshot", snapshot),
    ("case", facts.case.spec),
    ("context", .obj [
      ("runner_id", .str p.runnerId),
      ("engagement_id", .str facts.engagement.id),
      ("job_id", .str facts.job.id),
      ("authority_revision", .int p.authorityRevision),
      ("authority_sha256", .str authorityHash),
      ("plan_sha256", .str planHash),
      ("mode", .str "strict"),
      ("scope", .arr narrowed),
      ("exceptions", .arr []),
      ("not_before", notBefore),
      ("expires_at", expiresAt),
      ("testing_start", testingStart),
      ("testing_end", testingEnd),
      ("max_executions", p.maxExecutions),
      ("max_duration_seconds", p.maxDurationSeconds),
      ("max_http_dispatches", maxHttpDispatches),
      ("max_artifact_bytes", p.maxArtifactBytes),
      ("credential_grants", p.credentialGrants),
      ("control", .str "managed_online")])]

/-! ## What an accepted projection rests on -/

/-- The parts of an accepted projection: the rows it read, the signed scope entries, and
the texts of the four times. -/
structure Projected (db : Db) (p : Projection) (result : Json) (facts : Facts)
    (dispatches narrowed : List Json) : Prop where
  facts_ok : projectionFacts db p = .ok facts
  dispatches_ok : planDispatches p.plan = .ok dispatches
  narrow_ok : List.Forall₂ (fun d e => narrow (policyCandidate facts.engagement facts.authority
    facts.job (db.scopeRows facts.engagement.id) p.now) d = .ok e) dispatches narrowed
  nonempty : narrowed ≠ []
  now_lt : p.now.instant < p.expiresAt.instant
  expires_le : p.expiresAt.instant ≤ (facts.authority.windowEnd.getD p.expiresAt).instant
  scope : (result.field "context").field "scope" = .arr narrowed
  not_before : timeText p.now = .ok ((result.field "context").field "not_before")
  expires_at : timeText p.expiresAt = .ok ((result.field "context").field "expires_at")
  testing_start : timeText (facts.authority.windowStart.getD p.now) =
    .ok ((result.field "context").field "testing_start")
  testing_end : timeText (facts.authority.windowEnd.getD p.expiresAt) =
    .ok ((result.field "context").field "testing_end")
  case_spec : result.field "case" = facts.case.spec
  revision : (result.field "context").field "authority_revision" = .int p.authorityRevision
  max_executions : (result.field "context").field "max_executions" = p.maxExecutions
  runner_id : (result.field "context").field "runner_id" = .str p.runnerId
  max_duration_seconds : (result.field "context").field "max_duration_seconds" =
    p.maxDurationSeconds
  credential_grants : (result.field "context").field "credential_grants" = p.credentialGrants
  plan_sha256 : ∃ s, digest p.plan = .ok s ∧ (result.field "context").field "plan_sha256" = .str s
  job_id : (result.field "context").field "job_id" = .str facts.job.id
  isObj : result.isObj = true ∧ (result.field "context").isObj = true

theorem projectCurrentAuthority_eq_ok {db : Db} {p : Projection} {result : Json}
    (h : projectCurrentAuthority db p = .ok result) :
    ∃ facts dispatches narrowed, Projected db p result facts dispatches narrowed := by
  unfold projectCurrentAuthority at h
  obtain ⟨facts, hfacts, h⟩ := bind_eq_ok h
  obtain ⟨-, -, h⟩ := bind_eq_ok h
  obtain ⟨_, hbounded, h⟩ := bind_eq_ok h
  obtain ⟨dispatches, hdispatches, h⟩ := bind_eq_ok h
  obtain ⟨narrowed, hnarrow, h⟩ := bind_eq_ok h
  obtain ⟨_, hnonempty, h⟩ := bind_eq_ok h
  obtain ⟨_, hexpires, h⟩ := bind_eq_ok h
  obtain ⟨snapshot, -, h⟩ := bind_eq_ok h
  obtain ⟨authorityHash, -, h⟩ := bind_eq_ok h
  obtain ⟨planHash, hplan, h⟩ := bind_eq_ok h
  obtain ⟨notBefore, hnb, h⟩ := bind_eq_ok h
  obtain ⟨expiresAt, hea, h⟩ := bind_eq_ok h
  obtain ⟨testingStart, hts, h⟩ := bind_eq_ok h
  obtain ⟨testingEnd, hte, h⟩ := bind_eq_ok h
  obtain ⟨dispatchCount, -, h⟩ := bind_eq_ok h
  obtain rfl := Except.ok.inj h
  have hbounded := ensure_eq_ok hbounded
  have hnonempty := ensure_eq_ok hnonempty
  simp only [Bool.and_eq_true, decide_eq_true_eq] at hbounded
  exact ⟨facts, dispatches, narrowed, {
    facts_ok := hfacts
    dispatches_ok := raise_eq_ok hdispatches
    narrow_ok := mapM_eq_ok hnarrow
    nonempty := by simpa using hnonempty
    now_lt := hbounded.2
    expires_le := of_decide_eq_true (ensure_eq_ok hexpires)
    scope := rfl
    not_before := raise_eq_ok hnb
    expires_at := raise_eq_ok hea
    testing_start := raise_eq_ok hts
    testing_end := raise_eq_ok hte
    case_spec := rfl
    revision := rfl
    max_executions := rfl
    runner_id := rfl
    max_duration_seconds := rfl
    credential_grants := rfl
    plan_sha256 := ⟨planHash, raise_eq_ok hplan, rfl⟩
    job_id := rfl
    isObj := ⟨rfl, rfl⟩ }⟩

/-- The moment that the examples look at. -/
def exampleNoon : DateTime := ⟨63900000000000000, some 0, by decide⟩

end VardrMap
