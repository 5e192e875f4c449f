import VardrMap.ClaimGates
import VardrMap.JobConfig

/-!
# Jobs

A job is queued, listed to runners while it is pending, claimed, and finished or failed. A
claim with control gives the job an owned execution, which only its owner then renews and
finishes. Jobs under managed authority are refused here; their operations are the issuer's.
-/
namespace VardrMap
open Lib Policy

/-- An uploaded scan result: what is checked here, and the rest. -/
structure GateUpload where
  caseHash : String
  testCaseId : String
  preflight : List String
  rest : Json

/-- What filing a result against its job computes. -/
structure Filed where
  assessment : Json
  scanItemsCreated : ℕ
  evidenceCreated : ℕ

/-- The parts of the platform that no law of the model reads: the date that the database
returns for a written one, the validators of specifications and uploads, the advisory target
list, and the redacting projection of a result. -/
structure Platform where
  identity : Identity
  storedDate : DateTime → DateTime
  validateSpec : Json → Except Refusal Json
  resolveTargets : Db → ScanJob → List Text
  parseUpload : Text → Except Refusal GateUpload
  payloadHashes : GateUpload → Except Refusal (String × String)
  fileResult : Db → ScanJob → GateUpload → Except Refusal Filed

/-- `_VALID_TOOLS`. -/
def validTools : List String :=
  ["dalfox", "dnsx", "ffuf", "gau", "httpx", "katana", "naabu", "nmap", "nuclei", "subfinder",
    gateTool]

/-- `sorted(_VALID_TOOLS)` as it is printed. -/
def validToolsText : String :=
  "['dalfox', 'dnsx', 'ffuf', 'gau', 'httpx', 'katana', 'naabu', 'nmap', 'nuclei', " ++
    "'subfinder', 'vardrgate_api_test']"

/-- The text of a status. -/
def JobStatus.text : JobStatus → String
  | pending => "pending"
  | running => "running"
  | done => "done"
  | failed => "failed"

/-- `_PATCH_TRANSITIONS`. -/
def JobStatus.patchable : JobStatus → List JobStatus
  | pending => [.done, .failed]
  | running => [.pending, .done, .failed]
  | done | failed => []

/-- `job.authorization_contract_required or job.managed_approval_id`. -/
def ScanJob.managed (job : ScanJob) : Bool :=
  job.authorizationContractRequired || job.managedApprovalId.any fun id => !id.isEmpty

/-- A final state of an execution. -/
def ExecutionState.final : ExecutionState → Bool
  | completed | failed | cancelled => true
  | active | cancelRequested | uncertain => false

/-- The text of an outcome. -/
def Outcome.text : Outcome → String
  | completed => "completed"
  | failed => "failed"
  | cancelled => "cancelled"

/-- The status of a job whose execution ended so. -/
def Outcome.jobStatus : Outcome → JobStatus
  | completed => .done
  | failed | cancelled => .failed

/-- The error message of a job whose execution ended so. -/
def Outcome.errorMessage : Outcome → String
  | completed => ""
  | o => o.text

variable [Unicode]

/-! ## Queueing -/

/-- A queued job before its checks. -/
structure JobCreate where
  id : String
  toolType : String
  targetSource : String
  config : Json
  dependsOn : Option String
  contractRequired : Bool

/-- The row of a queued job. -/
def JobCreate.row (c : JobCreate) (programId : String) (config : Json) (dependsOn : Option String)
    (createdAt : Instant) : ScanJob where
  id := c.id
  programId
  toolType := c.toolType
  targetSource := c.targetSource
  config
  caseSnapshot := .null
  managedApprovalId := none
  authorizationContractRequired := c.contractRequired
  assessment := .null
  status := .pending
  dependsOn
  createdAt
  startedAt := none
  completedAt := none
  errorMessage := ""

/-- `_validate_test_case_ref`: a gate job names a case of its engagement. -/
def validateTestCaseRef (db : Db) (job : ScanJob) : Except Refusal Unit := do
  let text ← raise job.testCaseId
  let id := String.ofList (Text.strip text.toList)
  ensure (!id.isEmpty) (.http 400 "vardrgate_api_test requires config.test_case_id")
  ensure ((db.testCases.get? id).any fun c => c.programId == job.programId)
    (.http 404 "Test case not found")

/-- A tool that may be queued; the label says which stage of a pipeline asks for it. -/
def validTool (label : String) (c : JobCreate) : Except Refusal Unit :=
  ensure (validTools.contains c.toolType)
    (.http 400 s!"{label}tool_type must be one of {validToolsText}")

/-- `_VALID_SOURCES`. -/
def validSource (label : String) (c : JobCreate) : Except Refusal Unit :=
  ensure (c.targetSource == "scope" || c.targetSource == "recon")
    (.http 400 s!"{label}target_source must be scope or recon")

/-- The configuration that is stored, and the case that it names. -/
def validatedConfig (db : Db) (engagement : Engagement) (c : JobCreate) :
    Except Refusal Json := do
  let config ← queuedConfig engagement.maxRequestRate c.toolType c.config
  if c.toolType == gateTool then
    validateTestCaseRef db (c.row engagement.id config none 0)
  return config

/-- Queue one row under a new identifier. -/
def enqueue (db : Db) (job : ScanJob) : Except Refusal Db := do
  mint db job.id
  let jobs ← found (db.jobs.insert job) .integrity
  return { db.minted job.id with jobs }

/-- `create_job`. -/
def createJob (p : Platform) (clocks : Clocks) (request : HttpRequest) (programId : String)
    (c : JobCreate) (db : Db) : Commit := do
  let user ← getCurrentUser p.identity db request
  let engagement ← writableEngagement db programId user
  validTool "" c
  ensure (!c.contractRequired || c.toolType == gateTool)
    (.http 400 "authorization contract profile supports fixed Gate jobs only")
  validSource "" c
  let config ← validatedConfig db engagement c
  let job := c.row engagement.id config c.dependsOn (clocks.wall 0).instant
  ensure (c.dependsOn.all fun id => id.isEmpty || (db.jobs.get? id).any fun parent =>
      parent.programId == programId)
    (.http 400 "depends_on must reference an existing job in this engagement")
  let _ ← enforcementCheck db engagement c.toolType (p.resolveTargets db job) (clocks.wall 0)
  return (← enqueue db job, .stored)

/-- The checks on one stage of a pipeline. -/
def validatedStage (db : Db) (engagement : Engagement) (c : JobCreate) (i : ℕ) :
    Except Refusal Json := do
  validTool s!"stage {i}: " c
  validSource s!"stage {i}: " c
  validatedConfig db engagement c

/-- Queue the stages of a pipeline, each waiting on the one before it. -/
def enqueueStages (engagement : Engagement) (createdAt : Instant) :
    Option String → List (JobCreate × Json) → Db → Except Refusal Db
  | _, [], db => .ok db
  | previous, (c, config) :: stages, db => do
    let db ← enqueue db (c.row engagement.id config previous createdAt)
    enqueueStages engagement createdAt (some c.id) stages db

/-- `create_pipeline`. -/
def createPipeline (p : Platform) (clocks : Clocks) (request : HttpRequest) (programId : String)
    (stages : List JobCreate) (db : Db) : Commit := do
  let user ← getCurrentUser p.identity db request
  let engagement ← writableEngagement db programId user
  ensure (!stages.any (·.contractRequired))
    (.http 400 "contract-required pipelines are unsupported")
  let configs ← stages.zipIdx.mapM fun (c, i) => validatedStage db engagement c i
  let db ← enqueueStages engagement (clocks.wall 0).instant none (stages.zip configs) db
  return (db, .stored)

/-! ## Listing -/

/-- What a listing does with a pending job. -/
inductive Listing where
  | eligible
  | held
  | failed (message : String)

/-- `_filter_by_dependencies` on one job. -/
def dependencyListing (db : Db) (job : ScanJob) : Listing :=
  match job.dependsOn.filter fun id => !id.isEmpty with
  | none => .eligible
  | some parent =>
    match (db.jobs.get? parent).map ScanJob.status with
    | some .done => .eligible
    | some .failed => .failed "upstream pipeline stage failed"
    | none => .failed "upstream pipeline stage not found"
    | some .pending | some .running => .held

/-- `_resolve_test_cases` on one job. -/
def caseListing (db : Db) (job : ScanJob) : Except Exn Listing := do
  if job.toolType != gateTool then return .eligible
  let id ← job.testCaseId
  let spec := ((← db.jobCase job job.programId).map (·.spec)).getD .null
  if spec.truthy then return .eligible
  let shownId := if id.isEmpty then "(unset)" else id
  return .failed s!"authorization test case {shownId} no longer exists"

/-- What a listing does with a job: a dependency decides first. -/
def listing (db : Db) (job : ScanJob) : Except Exn Listing :=
  match dependencyListing db job with
  | .eligible => caseListing db job
  | l => .ok l

/-- A job that is given up. -/
def ScanJob.giveUp (job : ScanJob) (now : Instant) (message : String) : ScanJob :=
  { job with status := .failed, completedAt := some now, errorMessage := message }

/-- The message under which a listing fails a job. -/
def Listing.message? : Listing → Option String
  | failed message => some message
  | _ => none

/-- A job as the listing leaves it. -/
def failListed (failures : List (String × String)) (now : Instant) (job : ScanJob) : ScanJob :=
  match failures.lookup job.id with
  | some message => job.giveUp now message
  | none => job

omit [Unicode] in
theorem failListed_id (failures : List (String × String)) (now : Instant) (job : ScanJob) :
    (failListed failures now job).id = job.id := by
  unfold failListed
  split <;> rfl

/-- `get_pending_jobs`: jobs that can never run are failed. -/
def pendingJobs (p : Platform) (clocks : Clocks) (request : HttpRequest) (db : Db) : Commit := do
  let user ← getCurrentUser p.identity db request
  let pending := db.jobs.rows.filter fun j => j.status == .pending &&
    (db.engagements.get? j.programId).any (accessible db user.githubId)
  let listed ← raise (pending.mapM fun j => do return (j.id, ← listing db j))
  let failures := listed.filterMap fun l => l.2.message?.map fun m => (l.1, m)
  let now := (clocks.wall 0).instant
  return ({ db with jobs := db.jobs.map (failListed failures now) (failListed_id failures now) },
    .stored)

/-! ## Changing a job -/

/-- The body of a status change; no status for a text that names none. -/
structure JobStatusUpdate where
  status : Option JobStatus
  errorMessage : Option String

/-- A status change of a job without a controlled execution. -/
def patchJob (clocks : Clocks) (db : Db) (job : ScanJob) (status : JobStatus)
    (errorMessage : Option String) : Commit := do
  if status == job.status && status != .running then return (db, .stored)
  ensure (job.status.patchable.contains status)
    (.http 409 s!"job is {job.status.text}; it cannot be set to {status.text}")
  let completedAt := if status == .done || status == .failed then some (clocks.wall 0).instant
    else job.completedAt
  let job := { job with
    status, completedAt, errorMessage := errorMessage.getD job.errorMessage }
  return ({ db with jobs := db.jobs.put job }, .stored)

/-- A request to cancel a controlled execution; its job is finished by its owner only. -/
def cancelControlled (db : Db) (user : User) (job : ScanJob) (execution : JobExecution)
    (status : JobStatus) : Commit := do
  requireFullScope user
  ensure (status == .failed && job.status == .running)
    (.http 409 "controlled execution requires owned finalization")
  if execution.state == .active then
    return ({ db with executions :=
      db.executions.put { execution with state := .cancelRequested } }, .stored)
  return (db, .stored)

/-- `update_job`. -/
def updateJob (p : Platform) (clocks : Clocks) (request : HttpRequest) (jobId : String)
    (body : JobStatusUpdate) (db : Db) : Commit := do
  let user ← getCurrentUser p.identity db request
  let job ← lockJob db jobId user
  let status ← found body.status (.http 400
    "status must be one of ('pending', 'running', 'done', 'failed')")
  let _ ← writableEngagement db job.programId user
  match db.executions.get? jobId with
  | some execution => cancelControlled db user job execution status
  | none => patchJob clocks db job status body.errorMessage

/-! ## Claiming -/

/-- The case that a gate job runs; other jobs have none. -/
def claimSnapshot (db : Db) (job : ScanJob) : Except Refusal (Option Json) := do
  if job.toolType != gateTool then return none
  let case ← found (← raise (db.jobCase job job.programId)) (.http 404 "Test case not found")
  return if case.spec == .null then none else some case.spec

/-- The execution of a claim that asks for control. -/
def issueControl (db : Db) (clocks : Clocks) (request : HttpRequest) (user : User)
    (jobId token : String) (targets : Option TargetReceipt) (duration : Option DurationReceipt) :
    Option ClaimControl → Except Refusal (Table JobExecution × Option Capability)
  | none => .ok (db.executions, none)
  | some body => do
    let (row, capability) ← issue jobId user request body token (clocks.control 0) targets duration
    let executions ← found (db.executions.insert row) .integrity
    return (executions, some capability)

/-- `claim_job`: the conditional update wins only on a pending, unmanaged job of an
engagement that is not stopped. -/
def claimJob (p : Platform) (clocks : Clocks) (request : HttpRequest) (jobId : String)
    (body : Option ClaimControl) (token : String) (db : Db) : Commit := do
  let user ← getCurrentUser p.identity db request
  let job ← lockJob db jobId user
  let engagement ← writableEngagement db job.programId user
  ensure (!job.managed) (.http 409 "managed authorization required; legacy claim refused")
  let lost := Refusal.http 409 s!"job is already {job.status.text}"
  ensure (job.status == .pending) lost
  beforeClaim db engagement body
  let warning ← enforcementCheck db engagement job.toolType (p.resolveTargets db job)
    (clocks.wall 0)
  let snapshot ← claimSnapshot db job
  ensure (job.managedApprovalId.isNone && engagement.stopWorkAt.isNone) lost
  let (engagement, targets) ← charge engagement job snapshot body
  let (engagement, duration) ← allocate engagement body
  let (executions, capability) ← issueControl db clocks request user jobId token targets duration
    body
  let running := { job with
    status := .running
    startedAt := some (clocks.wall 0).instant
    caseSnapshot := snapshot.getD .null }
  return ({ db with
    engagements := db.engagements.put engagement
    jobs := db.jobs.put running
    executions }, .claimed capability .null warning)

/-! ## Controlling an execution -/

/-- `execution_status`: an active execution whose lease ended is shown as uncertain. -/
def executionStatus (p : Platform) (clocks : Clocks) (request : HttpRequest) (jobId : String)
    (db : Db) : Commit := do
  let user ← getCurrentUser p.identity db request
  let job ← lockJob db jobId user
  let execution ← found (db.executions.get? jobId) notFound
  let state := if execution.state == .active && execution.expiresAt ≤ clocks.control 0
    then .uncertain else execution.state
  return (db, .status execution.jobId execution.runnerId execution.origin state job.status
    (execution.state == .cancelled))

/-- An active execution that is stopped, or whose lease ended, before it is renewed. -/
def JobExecution.observed (x : JobExecution) (stopped : Bool) (now : Instant) : JobExecution :=
  if x.state != .active then x
  else if stopped then { x with state := .cancelRequested }
  else if x.expiresAt ≤ now then { x with state := .uncertain }
  else x

/-- `refresh_execution`. -/
def refreshExecution (p : Platform) (clocks : Clocks) (request : HttpRequest) (jobId : String)
    (body : ControlRequest) (db : Db) : Commit := do
  let user ← getCurrentUser p.identity db request
  let execution ← owned db jobId user request body
  let job ← found (db.jobs.get? jobId) .noRow
  let engagement ← writableEngagement db job.programId user
  ensure (!job.managed) (.http 409 "managed live control unsupported by legacy adapter")
  let execution := execution.observed engagement.stopWorkAt.isSome (clocks.control 0)
  let action := if execution.state == .active && job.status == .running
    then Action.proceed else Action.cancel
  let execution := if action == .proceed
    then { execution with expiresAt := clocks.control 1 + seconds leaseSeconds } else execution
  return ({ db with executions := db.executions.put execution },
    .control execution.jobId execution.runnerId execution.origin action leaseSeconds)

/-- The outcome that an owner reports. -/
inductive Finish where
  | ended (outcome : Outcome)
  | uncertain
  deriving DecidableEq

def Finish.state : Finish → ExecutionState
  | ended o => o.state
  | uncertain => .uncertain

/-- The execution and the job of a finished execution. -/
def JobExecution.finish (x : JobExecution) (o : Outcome) : JobExecution :=
  { x with state := o.state, capacityReserved := false }

def ScanJob.finish (job : ScanJob) (o : Outcome) (now : Instant) (message : String) : ScanJob :=
  { job with status := o.jobStatus, completedAt := some now, errorMessage := message }

/-- `finish_execution`: a completion that comes too late is recorded as a cancellation
request and refused. -/
def finishExecution (p : Platform) (clocks : Clocks) (request : HttpRequest) (jobId : String)
    (body : ControlRequest) (outcome : Finish) (db : Db) :
    Except Refusal (Db × Except Refusal Reply) := do
  let user ← getCurrentUser p.identity db request
  let execution ← owned db jobId user request body
  let job ← found (db.jobs.get? jobId) .noRow
  let engagement ← writableEngagement db job.programId user
  ensure (!job.managed) (.http 409 "managed finalization unsupported by legacy adapter")
  if execution.state.final then
    ensure (execution.state == outcome.state) (.http 409 "execution already finalized")
    return (db, .ok (.finalized execution.state))
  if outcome == .ended .completed && (execution.state != .active ||
      execution.expiresAt ≤ clocks.control 0 || engagement.stopWorkAt.isSome) then
    let executions := db.executions.put { execution with state := .cancelRequested }
    return ({ db with executions },
      .error (.http 409 "stop or expired lease prevents successful completion"))
  match outcome with
  | .uncertain =>
    return ({ db with executions := db.executions.put { execution with state := .uncertain } },
      .ok (.finalized .uncertain))
  | .ended o =>
    return ({ db with
      executions := db.executions.put (execution.finish o)
      jobs := db.jobs.put (job.finish o (clocks.wall 0).instant o.errorMessage) },
      .ok (.finalized o.state))

/-! ## Removing a job -/

/-- Rows of a job that go with it. -/
def Db.dropJobs (db : Db) (keep : ScanJob → Bool) : Db :=
  let kept (jobId : String) : Bool := (db.jobs.get? jobId).any keep
  { db with
    jobs := db.jobs.filter keep
    executions := db.executions.filter fun x => kept x.jobId
    receipts := db.receipts.filter fun r => kept r.jobId }

/-- `delete_job`. -/
def deleteJob (p : Platform) (request : HttpRequest) (jobId : String) (db : Db) : Commit := do
  let user ← getCurrentUser p.identity db request
  requireFullScope user
  let job ← lockJob db jobId user
  ensure (!(db.executions.get? jobId).any (·.capacityReserved))
    (.http 409 "unresolved execution capacity cannot be deleted")
  let _ ← writableEngagement db job.programId user
  return (db.dropJobs fun j => j.id != jobId, .stored)

/-! ## Results -/

/-- What is kept of a result. -/
structure Retained where
  scanItemsCreated : ℕ
  evidenceCreated : ℕ
  alreadyProcessed : Bool

/-- `store_gate_result`: a result is filed once; the same result again changes nothing. -/
def storeGateResult (p : Platform) (db : Db) (job : ScanJob) (upload : GateUpload) :
    Except Refusal (Db × Retained) := do
  let (payloadHash, legacyHash) ← p.payloadHashes upload
  match db.receipts.get? job.id with
  | some receipt =>
    ensure (receipt.payloadHash == payloadHash || receipt.payloadHash == legacyHash)
      (.http 409 "this job already has a different uploaded result")
    return (db, ⟨receipt.scanItemsCreated, receipt.evidenceCreated, true⟩)
  | none =>
    let filed ← p.fileResult db job upload
    let receipts ← found (db.receipts.insert ⟨job.id, payloadHash, filed.scanItemsCreated,
      filed.evidenceCreated⟩) .integrity
    return ({ db with
      receipts
      jobs := db.jobs.put { job with assessment := filed.assessment } },
      ⟨filed.scanItemsCreated, filed.evidenceCreated, false⟩)

/-- `upload_job_result`. -/
def uploadJobResult (p : Platform) (request : HttpRequest) (jobId : String) (upload : GateUpload)
    (db : Db) : Commit := do
  let user ← getCurrentUser p.identity db request
  let job ← lockJob db jobId user
  let _ ← writableEngagement db job.programId user
  ensure (!job.managed) (.http 409 "managed result adapter required")
  ensure (job.toolType == gateTool)
    (.http 400 s!"job {jobId} is a '{job.toolType}' job; /upload accepts {gateTool} results")
  let (db, _) ← storeGateResult p db job upload
  return (db, .stored)

end VardrMap
