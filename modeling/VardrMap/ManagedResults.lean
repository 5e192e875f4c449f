import VardrMap.Jobs
import VardrMap.ManagedIssuance

/-!
# Managed results and stops

The runner of a consumed contract submits its redacted result once and then finishes the
execution, or it reports that the execution stopped. Both endings are retained under the
contract with a receipt, and a repetition of the same ending returns the same receipt.
-/
namespace VardrMap
open Lib Wire

/-- What a runner names when it reports about a consumed contract. -/
structure Report extends AttemptRef where
  contractSha256 : String

/-- The rows an owned report reads. -/
structure OwnedReport where
  user : User
  job : ScanJob
  execution : JobExecution
  contract : ManagedContract
  approval : ManagedApproval

namespace Results

/-- `binding` of a report: the execution, and the contract with its digest. -/
def binding (execution : JobExecution) (contract : ManagedContract) (contractSha256 : String) :
    List (String × Json) :=
  Issuer.binding execution ++ [
    ("contract_id", .str contract.id),
    ("attempt_id", .str contract.attemptId),
    ("fence", .int contract.fence),
    ("contract_sha256", .str contractSha256)]

variable [Unicode]

/-- `_owned`: the caller owns the execution of a consumed contract. -/
def ownedReport (issuer : Issuer) (request : HttpRequest) (jobId : String) (body : ControlRequest)
    (r : Report) (db : Db) : Except Refusal OwnedReport := do
  let _ ← integer (.int r.fence) 1 maxInteger
  let user ← getCurrentUser issuer.identity db request
  let execution ← owned db jobId user request body
  let job ← found (db.jobs.get? jobId) (.raised .attributeError)
  let _ ← writableEngagement db job.programId user
  let contract ← found ((db.contractOf jobId).filter fun c =>
      job.toolType == gateTool && job.authorizationContractRequired &&
        job.managedApprovalId.any (fun id => !id.isEmpty) && c.consumed &&
        c.ref == r.toAttemptRef)
    (.wire "owned_consumed_contract_required")
  let hash ← Wire.digest contract.envelope
  require (hash == r.contractSha256) "owned_consumed_contract_required"
  let approval ← found (db.approvals.get? contract.approvalRecordId) .noRow
  require (job.managedApprovalId == some approval.id && approval.jobId == job.id)
    "result_approval_binding"
  return ⟨user, job, execution, contract, approval⟩

/-- The digest that a result's receipt is. -/
def receiptHash (binding : List (String × Json)) (artifactSha256 caseSha256 : String) :
    Except Refusal String :=
  Wire.digest (.obj ([("schema", .str "vardr.managed-result/1")] ++ binding ++ [
    ("artifact_sha256", .str artifactSha256), ("case_sha256", .str caseSha256)]))

/-- `_result`: the retained result of the contract, checked against the report. -/
def retainedResult (db : Db) (o : OwnedReport) (contractSha256 : String) :
    Except Refusal (Option ManagedResult) :=
  match db.results.get? o.contract.id with
  | none => .ok none
  | some row => do
    let hash ← receiptHash (binding o.execution o.contract contractSha256) row.artifactSha256
      row.caseSha256
    require (row.jobId == o.execution.jobId && row.attemptId == o.contract.attemptId &&
      row.fence == o.contract.fence && row.contractSha256 == contractSha256 &&
      row.receiptSha256 == hash) "retained_result_binding"
    return some row

/-- `_ack`. -/
def ack (binding : List (String × Json)) (row : ManagedResult) : Json :=
  .obj ([("schema", .str "vardr.managed-result-receipt/1")] ++ binding ++ [
    ("artifact_sha256", .str row.artifactSha256),
    ("case_sha256", .str row.caseSha256),
    ("receipt_sha256", .str row.receiptSha256),
    ("evidence_created", .int row.evidenceCreated),
    ("scan_items_created", .int row.scanItemsCreated)])

/-- `_completion`: the receipt of a finished result. -/
def completion (binding : List (String × Json)) (row : ManagedResult) (execution : JobExecution) :
    Except Refusal Json := do
  let outcome ← found row.outcome (.wire "retained_completion_inconsistent")
  require (execution.state == outcome.state && !execution.capacityReserved)
    "retained_completion_inconsistent"
  return .obj ([("schema", .str "vardr.managed-completion/1")] ++ binding ++ [
    ("receipt_sha256", .str row.receiptSha256),
    ("outcome", .str outcome.text),
    ("capacity_reserved", .bool false)])

/-! ## Submitting -/

/-- An artifact and the digest its sender claims for it. -/
structure Artifact where
  text : String
  sha256 : String

/-- The upload in an artifact, of the case that the job was claimed with. -/
def boundUpload (p : Platform) (o : OwnedReport) (a : Artifact) :
    Except Refusal (GateUpload × String) := do
  require (a.text.length ≤ 512000) "result_document_required"
  let maxBytes ← raise (o.approval.context.item "max_artifact_bytes")
  require (0 < a.text.utf8ByteSize && a.text.utf8ByteSize ≤ 512000 &&
    (a.text.utf8ByteSize : ℤ) ≤ maxBytes.int?.getD 0) "result_size"
  require (Sha256.ofText a.text.toList == a.sha256) "artifact_hash_mismatch"
  let upload ← p.parseUpload a.text.toList
  require o.job.caseSnapshot.truthy "result_case_binding"
  let hash ← raise (caseHash o.job.caseSnapshot)
  let planHash ← raise (o.approval.plan.item "case_hash")
  let caseId ← raise (o.job.caseSnapshot.get "id")
  require (upload.caseHash == hash && planHash == .str hash && .str upload.testCaseId == caseId)
    "result_case_binding"
  return (upload, hash)

/-- The row of a first submission. -/
def resultRow (o : OwnedReport) (r : Report) (a : Artifact) (upload : GateUpload)
    (caseSha256 receiptSha256 : String) (retained : Retained) : ManagedResult where
  contractId := o.contract.id
  jobId := o.job.id
  attemptId := r.attemptId
  fence := r.fence
  contractSha256 := r.contractSha256
  artifactSha256 := a.sha256
  caseSha256
  receiptSha256
  evidenceCreated := retained.evidenceCreated
  scanItemsCreated := retained.scanItemsCreated
  preflightFailed := upload.preflight.any (· != "passed")
  outcome := none
  finishedAt := none

/-- `submit`: retain the evidence of a contract once; nothing is released. -/
def submit (issuer : Issuer) (p : Platform) (clocks : Clocks) (request : HttpRequest)
    (jobId : String) (body : ControlRequest) (r : Report) (a : Artifact) (db : Db) : Commit := do
  let o ← ownedReport issuer request jobId body r db
  let (upload, caseSha256) ← boundUpload p o a
  let binding := binding o.execution o.contract r.contractSha256
  match ← retainedResult db o r.contractSha256 with
  | some row =>
    require (row.artifactSha256 == a.sha256 && row.caseSha256 == caseSha256)
      "different_managed_result"
    return (db, .document (ack binding row))
  | none =>
    require (db.receipts.get? jobId).isNone "foreign_result_receipt"
    let (db, retained) ← storeGateResult p db o.job upload
    let receiptSha256 ← receiptHash binding a.sha256 caseSha256
    let row := resultRow o r a upload caseSha256 receiptSha256 retained
    let results ← found (db.results.insert row) .integrity
    let db ← lockedTime clocks 1 { db with results }
    return (db, .document (ack binding row))

/-! ## Finishing -/

/-- The outcome that a text names. -/
def outcome? (text : String) : Option Outcome :=
  [Outcome.completed, .failed, .cancelled].find? fun o => o.text == text

/-- `live`: every bound of the permission and the lease lies ahead. -/
def completionLive (issuer : Issuer) (clocks : Clocks) (i j : ℕ) (o : OwnedReport)
    (approval : ManagedApproval) (permission : Json) (stateOk : Bool) : Except Refusal Unit := do
  let instant := Issuer.latest (← clocks.now i) (clocks.control j)
  let ends ← Issuer.permissionEnds permission
  let allocation ← Issuer.allocationEnd o.job o.execution permission
  require (stateOk && instant < o.execution.expiresAt && instant < ends.foldl min allocation)
    "completion_permission_not_live"
  let _ ← issuer.wire.approval approval.envelope permission approval.owner
    (← clocks.now (i + 1))

/-- The end of an execution with a retained result. -/
def conclude (clocks : Clocks) (i : ℕ) (db : Db) (o : OwnedReport) (row : ManagedResult)
    (outcome : Outcome) : Except Refusal (Db × ManagedResult) := do
  let finishedAt := (← clocks.now i).instant
  let row := { row with outcome := some outcome, finishedAt := some finishedAt }
  return ({ db with
    results := db.results.put row
    executions := db.executions.put (o.execution.finish outcome)
    jobs := db.jobs.put (o.job.finish outcome finishedAt outcome.errorMessage) }, row)

/-- `finish`: end the execution as its result says; only a completion needs a permission. -/
def finish (issuer : Issuer) (clocks : Clocks) (request : HttpRequest) (jobId : String)
    (body : ControlRequest) (r : Report) (receiptSha256 : String) (outcome : Outcome) (db : Db) :
    Commit := do
  let o ← ownedReport issuer request jobId body r db
  let row ← found ((← retainedResult db o r.contractSha256).filter fun row =>
    row.receiptSha256 == receiptSha256) (.wire "owned_result_receipt_required")
  let binding := binding o.execution o.contract r.contractSha256
  match row.outcome with
  | some given =>
    require (given == outcome) "different_completion"
    return (db, .document (← completion binding row o.execution))
  | none =>
    require (!o.execution.state.final) "foreign_completion"
    require o.execution.capacityReserved "owned_reservation_required"
    if outcome == .completed then
      require (!row.preflightFailed) "preflight_failure_not_success"
      let (approval, result) ← issuer.claimPermission db request o.job body.toClaimControl
        (clocks.now 1) [.running]
      let permission := result.field "context"
      completionLive issuer clocks 2 0 o approval permission (o.execution.state == .active)
      let (db, row) ← conclude clocks 4 db o row outcome
      let db ← lockedTime clocks 5 db
      completionLive issuer clocks 6 1 o approval permission true
      return (db, .document (← completion binding row (o.execution.finish outcome)))
    else
      let (db, row) ← conclude clocks 1 db o row outcome
      let db ← lockedTime clocks 2 db
      return (db, .document (← completion binding row (o.execution.finish outcome)))

omit [Unicode] in
/-- The checks of `finish` on its arguments, made before the operation is entered. -/
def finishArguments (outcome : String) (terminationConfirmed : Bool) : Except Refusal Outcome :=
  found ((outcome? outcome).filter fun _ => terminationConfirmed) (.wire "known_termination_required")

/-- The name of an execution state. -/
def stateText : ExecutionState → String
  | .active => "active"
  | .cancelRequested => "cancel_requested"
  | .uncertain => "uncertain"
  | .completed => "completed"
  | .failed => "failed"
  | .cancelled => "cancelled"

/-- The completion as an observation lists it, `None` before the end. -/
def observedCompletion (binding : List (String × Json)) (execution : JobExecution) :
    Option ManagedResult → Except Refusal Json
  | none => .ok .null
  | some row => if row.outcome.isNone then .ok .null else completion binding row execution

/-- `inspect`: an observation, which keeps nothing. -/
def inspect (issuer : Issuer) (request : HttpRequest) (jobId : String) (body : ControlRequest)
    (r : Report) (db : Db) : Commit := do
  let o ← ownedReport issuer request jobId body r db
  let row ← retainedResult db o r.contractSha256
  let binding := binding o.execution o.contract r.contractSha256
  let finished ← observedCompletion binding o.execution row
  return (db, .document (.obj ([("schema", .str "vardr.managed-reconciliation/1")] ++ binding ++ [
    ("consumed", .bool true),
    ("capacity_reserved", .bool o.execution.capacityReserved),
    ("execution_state", .str (stateText o.execution.state)),
    ("result", (row.map (ack binding)).getD .null),
    ("completion", finished)])))

end Results

/-! ## Stops -/

namespace Stops

/-- `CANCEL_CAUSES`. -/
def cancelCauses : List String := ["local_emergency_stop", "remote_stop_requested"]

/-- `FAIL_CAUSES`. -/
def failCauses : List String := [
  "control_cap_unavailable", "control_lease_expired", "authorization_deadline", "tool_timeout",
  "descendants_after_tool_exit"]

/-- `CAUSES`. -/
def causes : List String := cancelCauses ++ failCauses

/-- The outcome that a cause stands for. -/
def outcomeOf (cause : String) : Outcome :=
  if cancelCauses.contains cause then .cancelled else .failed

variable [Unicode]

/-- `stop_hash`. -/
def stopHash (binding : List (String × Json)) (outcome : Outcome) (cause : String) :
    Except Refusal String :=
  Wire.digest (.obj ([("schema", .str "vardr.managed-stop/1")] ++ binding ++ [
    ("outcome", .str outcome.text),
    ("cause", .str cause),
    ("termination_confirmed", .bool true)]))

/-- `_row`: the retained stop of the contract, checked against the report. -/
def retainedStop (db : Db) (o : OwnedReport) (contractSha256 : String) :
    Except Refusal (Option ManagedStop) :=
  match db.stops.get? o.contract.id with
  | none => .ok none
  | some row => do
    let hash ← stopHash (Results.binding o.execution o.contract contractSha256) row.outcome
      row.cause
    require (row.jobId == o.execution.jobId && row.attemptId == o.contract.attemptId &&
      row.fence == o.contract.fence && row.contractSha256 == contractSha256 &&
      causes.contains row.cause && row.outcome == outcomeOf row.cause &&
      row.receiptSha256 == hash) "retained_stop_binding"
    return some row

/-- `_ack`. -/
def ack (binding : List (String × Json)) (row : ManagedStop) (execution : JobExecution) :
    Except Refusal Json := do
  require (execution.state == row.outcome.state && !execution.capacityReserved)
    "retained_stop_inconsistent"
  return .obj ([("schema", .str "vardr.managed-stop-receipt/1")] ++ binding ++ [
    ("outcome", .str row.outcome.text),
    ("cause", .str row.cause),
    ("receipt_sha256", .str row.receiptSha256),
    ("capacity_reserved", .bool false)])

/-- `report`: end the execution of a contract that has no result. -/
def report (issuer : Issuer) (clocks : Clocks) (request : HttpRequest) (jobId : String)
    (body : ControlRequest) (r : Report) (cause : String) (db : Db) : Commit := do
  let o ← Results.ownedReport issuer request jobId body r db
  let binding := Results.binding o.execution o.contract r.contractSha256
  let outcome := outcomeOf cause
  match ← retainedStop db o r.contractSha256 with
  | some row =>
    require (row.outcome == outcome && row.cause == cause) "different_stop_receipt"
    return (db, .document (← ack binding row o.execution))
  | none =>
    require (← Results.retainedResult db o r.contractSha256).isNone "result_protocol_already_started"
    require (!o.execution.state.final && o.execution.capacityReserved) "owned_reservation_required"
    let receiptSha256 ← stopHash binding outcome cause
    let finishedAt := (← clocks.now 1).instant
    let row : ManagedStop := {
      contractId := o.contract.id, jobId, attemptId := r.attemptId, fence := r.fence
      contractSha256 := r.contractSha256, outcome, cause, receiptSha256, finishedAt }
    let stops ← found (db.stops.insert row) .integrity
    let execution := o.execution.finish outcome
    let job := { o.job with
      status := .failed, completedAt := some finishedAt, errorMessage := cause }
    let db ← lockedTime clocks 2 { db with
      stops, executions := db.executions.put execution, jobs := db.jobs.put job }
    return (db, .document (← ack binding row execution))

omit [Unicode] in
/-- The checks of `report` on its arguments, made before the operation is entered. -/
def reportArguments (outcome cause : String) (terminationConfirmed : Bool) :
    Except Refusal Unit :=
  require (causes.contains cause && terminationConfirmed && outcome == (outcomeOf cause).text)
    "known_stop_report_required"

/-- The stop as an observation lists it. -/
def observedStop (binding : List (String × Json)) (execution : JobExecution) :
    Option ManagedStop → Except Refusal Json
  | none => .ok .null
  | some row => ack binding row execution

/-- `inspect`. -/
def inspect (issuer : Issuer) (request : HttpRequest) (jobId : String) (body : ControlRequest)
    (r : Report) (db : Db) : Commit := do
  let o ← Results.ownedReport issuer request jobId body r db
  let binding := Results.binding o.execution o.contract r.contractSha256
  let stop ← observedStop binding o.execution (← retainedStop db o r.contractSha256)
  return (db, .document (.obj ([("schema", .str "vardr.managed-stop-observation/1")] ++ binding ++ [
    ("consumed", .bool true),
    ("capacity_reserved", .bool o.execution.capacityReserved),
    ("execution_state", .str (Results.stateText o.execution.state)),
    ("stop", stop)])))

end Stops

end VardrMap
