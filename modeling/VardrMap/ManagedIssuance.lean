import VardrMap.ClaimGates
import VardrMap.ManagedWire

/-!
# Managed issuance

An owner registers a signed approval of a job, and the enrolled runner claims the job under
it: one transaction charges the ledgers, starts the execution and signs the one contract of
the job. The runner then checks, renews and consumes that contract. Every operation reads a
trusted clock that never goes back, and re-projects the current authority.
-/
namespace VardrMap
open Lib Wire

/-! ## The trusted clock -/

/-- The number of the reading that records the exit of a refused operation. -/
def Clocks.exit : ℕ := 9

/-- `_now`: the later of the wall clock and the anchor with the elapsed time, in UTC. -/
def Clocks.now (clocks : Clocks) (i : ℕ) : Except Refusal DateTime := do
  let wall := clocks.wall i
  let _ ← stamp wall
  let elapsed := clocks.monotonic i - clocks.entered
  require (0 ≤ elapsed) "clock_rollback"
  let projected ← raise (clocks.anchor.plus elapsed)
  raise (wall.later projected).utc

/-- `_observe`: record a reading in a transaction of its own. -/
def observe (clocks : Clocks) (i : ℕ) (db : Db) : Except Refusal Db := do
  let now ← clocks.now i
  require (db.observed.all (· ≤ now.instant)) "clock_rollback"
  return { db with observed := some now.instant }

/-- `_locked_time`: record a reading with the transaction of the operation. -/
def lockedTime (clocks : Clocks) (i : ℕ) (db : Db) : Except Refusal Db := do
  let now ← clocks.now i
  require (db.observed.any (· ≤ now.instant)) "clock_rollback"
  return { db with observed := some now.instant }

/-- `operation`: the clock is observed on entry, and once more when the body refuses and its
transaction is rolled back. -/
def operation (clocks : Clocks) (db : Db) (body : Db → Commit) : Db × Except Refusal Reply :=
  match (do let _ ← stamp clocks.anchor; observe clocks 0 db) with
  | .error e => (db, .error e)
  | .ok db =>
    match body db with
    | .ok (db, reply) => (db, .ok reply)
    | .error e =>
      match observe clocks Clocks.exit db with
      | .ok db => (db, .error e)
      | .error e => (db, .error e)

/-! ## The issuer -/

/-- `Issuer`: the configured origin, the signed wire, and who resolves callers. -/
structure Issuer where
  origin : String
  wire : ContractWire
  identity : Identity

/-- What names an attempt to the issuer. -/
structure AttemptRef where
  contractId : String
  attemptId : String
  fence : ℤ
  deriving DecidableEq

/-- The attempt a contract was issued for. -/
def ManagedContract.ref (c : ManagedContract) : AttemptRef := ⟨c.id, c.attemptId, c.fence⟩

/-- The contract of a job. -/
def Db.contractOf (db : Db) (jobId : String) : Option ManagedContract :=
  db.contracts.rows.find? fun c => c.jobId == jobId

/-- The approval a job is currently bound to. -/
def Db.approvalOf (db : Db) (job : ScanJob) : Option ManagedApproval :=
  job.managedApprovalId.bind db.approvals.get?

namespace Issuer

variable [Unicode]

/-- `_operator`: a full-scope session or signed token, never an API key. -/
def operator (issuer : Issuer) (db : Db) (request : HttpRequest) : Except Refusal User := do
  require (!request.hasApiKey) "operator_session_required"
  let user ← getCurrentUser issuer.identity db request
  require (user.scope == "full") "operator_session_required"
  let authMethod := if user.authMethod == some "local" then "local_session" else "github_session"
  require (authMethod == "local_session" || bearerPrefix.isPrefixOf request.header)
    "operator_session_required"
  return { user with authMethod := some authMethod }

omit [Unicode] in
/-- `_enrollment`. -/
def enrollment (issuer : Issuer) (db : Db) (enrollmentId owner : String) :
    Except Refusal (ManagedEnrollment × ApiKey) := do
  let row ← found ((db.enrollments.get? enrollmentId).filter fun r =>
    !r.revoked && r.owner == owner && r.origin == issuer.origin) (.wire "enrollment_unavailable")
  let key ← found ((db.apiKeys.get? row.apiKeyId).filter fun k =>
    k.githubId == owner && (k.scope == "runner" || k.scope == "full"))
    (.wire "enrollment_key_unavailable")
  let _ ← integer (.int row.revision) 1 maxInteger
  return (row, key)

/-- A limit as the snapshot lists it. -/
def optNat : Option ℕ → Json
  | some n => .int n
  | none => .null

/-- The managed authority snapshot, around the recorded one. -/
def managedSnapshot (issuer : Issuer) (engagement : Engagement) (enrollment : ManagedEnrollment)
    (recorded : Json) : Json :=
  .obj [
    ("schema", .str "vardr.map-managed-authority/1"),
    ("origin", .str issuer.origin),
    ("authority_revision", .int engagement.managedAuthorityRevision),
    ("authority", recorded),
    ("owner", .str engagement.ownerGithubId),
    ("engagement_type", optStr engagement.engagementType),
    ("engagement_status", optStr engagement.engagementStatus),
    ("limits", .obj [
      ("concurrency", optNat engagement.concurrencyLimit),
      ("targets", optNat engagement.targetLimit),
      ("duration", optNat engagement.durationLimit)]),
    ("enrollment", .obj [
      ("id", .str enrollment.id),
      ("revision", .int enrollment.revision),
      ("api_key_id", .str enrollment.apiKeyId),
      ("principal_sha256", .str enrollment.principalHash),
      ("runner_id", .str enrollment.runnerId)])]

/-- `permission[name]` as an integer between the bounds. -/
def permitted (permission : Json) (name : String) (maximum : ℤ) : Except Refusal ℤ := do
  integer (← raise (permission.item name)) 1 maximum

/-- `_projection`: the current authority, at the revision that the approval names. -/
def projection (issuer : Issuer) (db : Db) (job : ScanJob) (actor : String)
    (enrollment : ManagedEnrollment) (authorizationId : String) (plan permission : Json)
    (revision : ℕ) (jobStatuses : List JobStatus) : Except Refusal Json := do
  let engagement ← found (db.engagements.get? job.programId) (.raised .attributeError)
  require (revision == engagement.managedAuthorityRevision) "authority_revision_changed"
  let maxExecutions ← permitted permission "max_executions" 1000
  let maxDurationSeconds ← permitted permission "max_duration_seconds" 86400
  let maxArtifactBytes ← permitted permission "max_artifact_bytes" (1024 ^ 3)
  let expiresAt ← timestamp (← raise (permission.item "expires_at"))
  let credentialGrants ← raise (permission.item "credential_grants")
  let notBefore ← timestamp (← raise (permission.item "not_before"))
  let result ← projectCurrentAuthority db {
    jobId := job.id
    authorizationId
    actor
    plan
    runnerId := enrollment.runnerId
    authorityRevision := revision
    expiresAt
    maxExecutions := .int maxExecutions
    maxDurationSeconds := .int maxDurationSeconds
    maxArtifactBytes := .int maxArtifactBytes
    credentialGrants
    now := notBefore
    jobStatuses }
  let snapshot := issuer.managedSnapshot engagement enrollment (result.field "authority_snapshot")
  let authorityHash ← Wire.digest snapshot
  return (result.set "authority_snapshot" snapshot).set "context"
    ((result.field "context").set "authority_sha256" (.str authorityHash))

/-- `_review_locked`. -/
def reviewLocked (issuer : Issuer) (db : Db) (job : ScanJob) (actor : User)
    (enrollmentId authorizationId : String) (plan permission : Json) : Except Refusal Json := do
  require (job.status == .pending) "pending_job_required"
  let (enrollment, _) ← issuer.enrollment db enrollmentId actor.githubId
  let engagement ← found (db.engagements.get? job.programId) (.raised .attributeError)
  issuer.projection db job actor.githubId enrollment authorizationId plan permission
    engagement.managedAuthorityRevision [.pending]

/-- The limits an owner asks to have reviewed. -/
structure ReviewRequest where
  enrollmentId : String
  authorizationId : String
  plan : Json
  expiresAt : Json
  maxExecutions : Json
  maxDurationSeconds : Json
  maxArtifactBytes : Json
  credentialGrants : Json

/-- `review`: the unsigned request; nothing is kept. -/
def review (issuer : Issuer) (clocks : Clocks) (request : HttpRequest) (jobId : String)
    (r : ReviewRequest) (db : Db) : Commit := do
  let actor ← issuer.operator db request
  let job ← lockJob db jobId actor
  let notBefore ← stamp (← clocks.now 1)
  let result ← issuer.reviewLocked db job actor r.enrollmentId r.authorizationId r.plan (.obj [
    ("not_before", .str (String.ofList notBefore)),
    ("expires_at", r.expiresAt),
    ("max_executions", r.maxExecutions),
    ("max_duration_seconds", r.maxDurationSeconds),
    ("max_artifact_bytes", r.maxArtifactBytes),
    ("credential_grants", r.credentialGrants)])
  return (db, .document result)

/-- A signed approval with what it approves. -/
structure Registration where
  jobId : String
  enrollmentId : String
  authorizationId : String
  plan : Json
  approval : Json

/-- The record id of an approval. -/
def recordId (issuer : Issuer) (receipt : Json) : String :=
  issuer.wire.issuerId ++ ":" ++ (receipt.field "approval_id").str?.getD ""

/-- The stored row of an approval. -/
def approvalRow (issuer : Issuer) (r : Registration) (job : ScanJob) (actor : User)
    (receipt result : Json) (revision : ℕ) : ManagedApproval where
  id := issuer.recordId receipt
  issuer := issuer.wire.issuerId
  approvalId := (receipt.field "approval_id").str?.getD ""
  jobId := job.id
  engagementId := job.programId
  enrollmentId := r.enrollmentId
  authorizationId := r.authorizationId
  revision
  owner := actor.githubId
  envelope := r.approval
  plan := r.plan
  context := result.field "context"
  authoritySnapshot := result.field "authority_snapshot"
  issued := 0
  revoked := false

/-- A repeated registration of the current approval of a job. -/
def registerAgain (clocks : Clocks) (db : Db) (r : Registration) (job : ScanJob)
    (existing : ManagedApproval) : Commit := do
  let stored ← Wire.digest existing.envelope
  let given ← Wire.digest r.approval
  require (existing.jobId == r.jobId && job.managedApprovalId == some existing.id &&
    stored == given) "approval_id_reused"
  require (!existing.revoked) "approval_unavailable"
  let db ← lockedTime clocks 2 db
  return (db, .stored)

/-- A first registration, which supersedes the current approval of the job. -/
def registerNew (issuer : Issuer) (clocks : Clocks) (db : Db) (r : Registration) (job : ScanJob)
    (actor : User) (receipt : Json) : Commit := do
  let permission ← raise (receipt.item "context")
  let result ← issuer.reviewLocked db job actor r.enrollmentId r.authorizationId r.plan permission
  let context := result.field "context"
  let _ ← issuer.wire.approval r.approval context actor.githubId (← clocks.now 2)
  let engagement ← found (db.engagements.get? job.programId) (.raised .attributeError)
  let row := issuer.approvalRow r job actor receipt result engagement.managedAuthorityRevision
  let approvals ← found (db.approvals.insert row) .integrity
  let job := { job with managedApprovalId := some row.id, authorizationContractRequired := true }
  let db ← lockedTime clocks 3 { db with approvals, jobs := db.jobs.put job }
  let _ ← issuer.wire.approval r.approval context actor.githubId (← clocks.now 4)
  return (db, .stored)

/-- `register`: keep an exact, separately signed receipt. -/
def register (issuer : Issuer) (clocks : Clocks) (request : HttpRequest) (r : Registration)
    (db : Db) : Commit := do
  let actor ← issuer.operator db request
  let job ← lockJob db r.jobId actor
  let payload ← issuer.wire.decode (← raise (r.approval.item "payload"))
  let context ← raise (payload.item "context")
  let receipt ← issuer.wire.approval r.approval context actor.githubId (← clocks.now 1)
  match db.approvals.get? (issuer.recordId receipt) with
  | some existing => registerAgain clocks db r job existing
  | none => issuer.registerNew clocks db r job actor receipt

/-- `revoke`: there is no way back. -/
def revoke (issuer : Issuer) (clocks : Clocks) (request : HttpRequest) (jobId : String)
    (db : Db) : Commit := do
  let actor ← issuer.operator db request
  let job ← lockJob db jobId actor
  let row ← found ((db.approvalOf job).filter fun a => a.owner == actor.githubId)
    (.wire "owner_approval_required")
  let db ← lockedTime clocks 1 db
  return ({ db with approvals := db.approvals.put { row with revoked := true } }, .stored)

/-- `_claim_permission`: the current approval of the job, re-projected for the enrolled
runner and checked at a moment. -/
def claimPermission (issuer : Issuer) (db : Db) (request : HttpRequest) (job : ScanJob)
    (body : ClaimControl) (now : Except Refusal DateTime) (jobStatuses : List JobStatus) :
    Except Refusal (ManagedApproval × Json) := do
  let approval ← found ((db.approvalOf job).filter fun a =>
    !a.revoked && a.jobId == job.id && a.engagementId == job.programId)
    (.wire "approval_unavailable")
  let (enrollment, key) ← issuer.enrollment db approval.enrollmentId approval.owner
  require (request.hasApiKey &&
    Sha256.ofText (request.header.drop bearerPrefix.length) == key.keyHash &&
    Sha256.ofText request.header == enrollment.principalHash &&
    body.origin == issuer.origin && body.runnerId == enrollment.runnerId)
    "enrolled_principal_runner_required"
  let result ← issuer.projection db job approval.owner enrollment approval.authorizationId
    approval.plan approval.context approval.revision jobStatuses
  let _ ← issuer.wire.approval approval.envelope (result.field "context") approval.owner (← now)
  return (approval, result)

/-! ## The claim -/

/-- `_budgets`: a managed claim always asks for every budget. -/
def budgets (body : ClaimControl) (approval : ManagedApproval) : Except Refusal Unit := do
  require (body.concurrencyBudget && body.targetBinding.isSome && body.durationSeconds.isSome)
    "managed_budget_controls_required"
  let maximum ← raise (approval.context.item "max_duration_seconds")
  require ((body.durationSeconds.getD 0 : ℤ) ≤ maximum.int?.getD 0)
    "managed_budget_controls_required"

/-- The identifiers a managed claim draws. -/
structure ClaimIds where
  token : String
  contractId : String
  attemptId : String

/-- A document that is kept unless it is `None`. -/
def present (value : Json) : Option Json := if value == .null then none else some value

/-- `claim`: ownership, fees and the contract are committed together. -/
def claim (issuer : Issuer) (clocks : Clocks) (request : HttpRequest) (jobId : String)
    (body : ClaimControl) (ids : ClaimIds) (db : Db) : Commit := do
  let user ← getCurrentUser issuer.identity db request
  let job ← lockJob db jobId user
  require (job.status == .pending) "pending_job_required"
  let (approval, result) ← issuer.claimPermission db request job body (clocks.now 1) [.pending]
  budgets body approval
  let db ← lockedTime clocks 2 db
  let engagement ← found (db.engagements.get? job.programId) (.raised .attributeError)
  beforeClaim db engagement (some body)
  let snapshot := result.field "case"
  let (engagement, targets) ← charge engagement job (present snapshot) (some body)
  let (engagement, duration) ← allocate engagement (some body)
  let startedAt ← clocks.now 3
  require (job.status == .pending && job.managedApprovalId == some approval.id) "claim_conflict"
  let running := { job with
    status := .running, startedAt := some startedAt.instant, caseSnapshot := snapshot }
  let (row, capability) ← issue jobId user request body ids.token (clocks.control 0) targets
    duration
  let executions ← found (db.executions.insert row) .integrity
  let ordinal := approval.issued + 1
  let maximum ← raise (approval.context.item "max_executions")
  require ((ordinal : ℤ) ≤ maximum.int?.getD 0) "approval_exhausted"
  require (db.contractOf jobId).isNone "attempt_already_issued"
  mint db ids.contractId
  let envelope ← issuer.wire.issue approval.envelope (result.field "context") approval.owner
    (← clocks.now 4) ⟨ids.contractId, ids.attemptId, 1, ordinal⟩
  let contract : ManagedContract := {
    id := ids.contractId, jobId, approvalRecordId := approval.id, ordinal
    attemptId := ids.attemptId, fence := 1, envelope, consumed := false }
  -- the two unique constraints of the contract table
  ensure (!db.contracts.rows.any fun c => c.approvalRecordId == approval.id && c.ordinal == ordinal)
    .integrity
  let contracts ← found (db.contracts.insert contract) .integrity
  let db ← lockedTime clocks 5 { db.minted ids.contractId with
    engagements := db.engagements.put engagement
    jobs := db.jobs.put running
    executions
    approvals := db.approvals.put { approval with issued := ordinal }
    contracts }
  let _ ← issuer.wire.approval approval.envelope (result.field "context") approval.owner
    (← clocks.now 6)
  return (db, .claimed (some capability) (.obj [
    ("approval", approval.envelope), ("contract", envelope), ("plan", approval.plan),
    ("authority_snapshot", result.field "authority_snapshot")]) none)

/-! ## The attempt -/

/-- The rows of a live attempt and its current permission. -/
structure Live where
  execution : JobExecution
  job : ScanJob
  contract : ManagedContract
  approval : ManagedApproval
  permission : Json

/-- The first part of `_current`: the caller owns a live attempt with current authority. -/
def live (issuer : Issuer) (clocks : Clocks) (request : HttpRequest) (jobId : String)
    (body : ControlRequest) (ref : AttemptRef) (db : Db) : Except Refusal (Db × Live) := do
  let user ← getCurrentUser issuer.identity db request
  let execution ← owned db jobId user request body
  let job ← found (db.jobs.get? jobId) (.raised .attributeError)
  let contract ← found ((db.contractOf jobId).filter fun c => c.ref == ref)
    (.wire "owned_contract_fence_required")
  let (approval, result) ← issuer.claimPermission db request job body.toClaimControl
    (clocks.now 1) [.running]
  let db ← lockedTime clocks 2 db
  require (execution.state == .active && clocks.control 0 < execution.expiresAt)
    "live_control_expired_or_stopped"
  let permission := result.field "context"
  let _ ← issuer.wire.approval approval.envelope permission approval.owner (← clocks.now 3)
  return (db, ⟨execution, job, contract, approval, permission⟩)

/-- What every answer about a live attempt lists. -/
def Live.document (l : Live) : List (String × Json) := [
  ("contract_id", .str l.contract.id),
  ("attempt_id", .str l.contract.attemptId),
  ("fence", .int l.contract.fence),
  ("authority_revision", .int l.approval.revision),
  ("authority_sha256", l.permission.field "authority_sha256")]

/-- `binding`. -/
def binding (row : JobExecution) : List (String × Json) := [
  ("job_id", .str row.jobId), ("runner_id", .str row.runnerId), ("origin", .str row.origin)]

/-- The ends that a permission states: its own, the testing window's and each grant's. -/
def permissionEnds (permission : Json) : Except Refusal (List Instant) := do
  let expiresAt ← timestamp (← raise (permission.item "expires_at"))
  let testingEnd ← timestamp (← raise (permission.item "testing_end"))
  let grants ← raise (do (← permission.item "credential_grants").iter)
  let ends ← grants.mapM fun grant => do timestamp (← raise (grant.item "expires_at"))
  return expiresAt.instant :: testingEnd.instant :: ends.map DateTime.instant

/-- The end of the allocated seconds, and of the permitted duration. -/
def allocationEnd (job : ScanJob) (execution : JobExecution) (permission : Json) :
    Except Refusal Instant := do
  let startedAt ← found job.startedAt (.wire "finite_allocation_required")
  require (0 < execution.durationSeconds) "finite_allocation_required"
  let maximum ← raise (permission.item "max_duration_seconds")
  let maximum ← found maximum.int? (.raised .typeError)
  return startedAt + seconds (min execution.durationSeconds maximum)

/-- The naive time of a trusted reading and of a control reading, whichever is later. -/
def latest (now : DateTime) (control : Instant) : Instant := max now.instant control

/-- `current`: the authority of a live attempt, with nothing renewed. -/
def current (issuer : Issuer) (clocks : Clocks) (request : HttpRequest) (jobId : String)
    (body : ControlRequest) (ref : AttemptRef) (db : Db) : Commit := do
  let (db, l) ← issuer.live clocks request jobId body ref db
  return (db, .document (.obj l.document))

/-- `refresh`: renew the lease within every bound of the permission. -/
def refresh (issuer : Issuer) (clocks : Clocks) (request : HttpRequest) (jobId : String)
    (body : ControlRequest) (ref : AttemptRef) (db : Db) : Commit := do
  let (db, l) ← issuer.live clocks request jobId body ref db
  let instant := latest (← clocks.now 4) (clocks.control 1)
  let allocation ← allocationEnd l.job l.execution l.permission
  let ceiling := (← permissionEnds l.permission).foldl min allocation
  let lease := min (leaseSeconds : ℤ) ((ceiling - instant).tdiv 1000000)
  require (0 < lease && instant < l.execution.expiresAt) "live_control_expired_or_stopped"
  let execution := { l.execution with expiresAt := instant + seconds lease }
  let db ← lockedTime clocks 5 { db with executions := db.executions.put execution }
  require (latest (← clocks.now 6) (clocks.control 2) < execution.expiresAt)
    "live_control_expired_or_stopped"
  let expiresAt ← stamp (← raise (DateTime.ofWall execution.expiresAt (some 0)))
  return (db, .document (.obj (l.document ++ binding execution ++ [
    ("action", .str "continue"),
    ("lease_seconds", .int lease),
    ("lease_expires_at", .str (String.ofList expiresAt))])))

/-- `consume`: the one launch acknowledgement of a contract. -/
def consume (issuer : Issuer) (clocks : Clocks) (request : HttpRequest) (jobId : String)
    (body : ControlRequest) (ref : AttemptRef) (contractSha256 : String) (db : Db) : Commit := do
  let (db, l) ← issuer.live clocks request jobId body ref db
  let hash ← Wire.digest l.contract.envelope
  require (contractSha256 == hash) "consumption_contract_binding"
  require (!l.contract.consumed) "contract_already_consumed"
  let db ← lockedTime clocks 4 { db with
    contracts := db.contracts.put { l.contract with consumed := true } }
  let _ ← issuer.wire.approval l.approval.envelope l.permission l.approval.owner (← clocks.now 5)
  require (latest (← clocks.now 6) (clocks.control 1) < l.execution.expiresAt)
    "live_control_expired_or_stopped"
  return (db, .document (.obj (l.document ++ binding l.execution ++ [
    ("consumed", .bool true),
    ("schema", .str "vardr.managed-consumption/1"),
    ("contract_sha256", .str contractSha256)])))

omit [Unicode] in
/-- The checks of `consume` on its arguments, made before the operation is entered. -/
def consumeArguments (fence : ℤ) (contractSha256 : String) : Except Refusal Unit := do
  let _ ← integer (.int fence) 1 maxInteger
  require (contractSha256.length == 64 && contractSha256.toList.all fun c =>
    ('0' ≤ c && c ≤ '9') || ('a' ≤ c && c ≤ 'f')) "consumption_contract_binding"

end Issuer

end VardrMap
