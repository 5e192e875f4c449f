import VardrMap.ManagedIssuance.TrustedTime
import VardrMap.Lib.Session

/-!
# Managed operations, statement by statement

The operations of the issuer, the results and the stops as programs on a database session,
with each write at its place between the checks. The session is committed by the last
statement; a refusal before it drops the working copy, and only the managed clock, which is
recorded in sessions of its own, has moved.
-/
namespace VardrMap
open Lib Wire

variable [Unicode]

/-- A program on the database. -/
abbrev DbTx (α : Type) := Tx Refusal Db α

/-- `_locked_time`. -/
def lockedTx (clocks : Clocks) (i : ℕ) : DbTx Unit := .update (lockedTime clocks i)

namespace Issuer

/-- `register` of a receipt that is kept already. -/
def registerAgainTx (clocks : Clocks) (r : Registration) (job : ScanJob)
    (existing : ManagedApproval) : DbTx Reply := do
  let stored ← .lift (Wire.digest existing.envelope)
  let given ← .lift (Wire.digest r.approval)
  .lift (require (existing.jobId == r.jobId && job.managedApprovalId == some existing.id &&
    stored == given) "approval_id_reused")
  .lift (require (!existing.revoked) "approval_unavailable")
  lockedTx clocks 2
  .commit
  .answer (.ok .stored)

/-- `register` of a new receipt. -/
def registerNewTx (issuer : Issuer) (clocks : Clocks) (r : Registration) (job : ScanJob)
    (actor : User) (receipt : Json) : DbTx Reply := do
  let permission ← .lift (raise (receipt.item "context"))
  let result ← .check fun db =>
    issuer.reviewLocked db job actor r.enrollmentId r.authorizationId r.plan permission
  let now ← .lift (clocks.now 2)
  let _ ← .lift (issuer.wire.approval r.approval (result.field "context") actor.githubId now)
  let engagement ← .check fun db => found (db.engagements.get? job.programId)
    (.raised .attributeError)
  let row := issuer.approvalRow r job actor receipt result engagement.managedAuthorityRevision
  .store (fun db => found (db.approvals.insert row) .integrity)
    fun db approvals => { db with approvals }
  .write fun db => { db with jobs := db.jobs.put { job with
    managedApprovalId := some row.id, authorizationContractRequired := true } }
  lockedTx clocks 3
  let now ← .lift (clocks.now 4)
  let _ ← .lift (issuer.wire.approval r.approval (result.field "context") actor.githubId now)
  .commit
  .answer (.ok .stored)

/-- `register`. -/
def registerTx (issuer : Issuer) (clocks : Clocks) (request : HttpRequest) (r : Registration) :
    DbTx Reply := do
  let actor ← .check fun db => issuer.operator db request
  let job ← .check fun db => lockJob db r.jobId actor
  let text ← .lift (raise (r.approval.item "payload"))
  let payload ← .lift (issuer.wire.decode text)
  let context ← .lift (raise (payload.item "context"))
  let now ← .lift (clocks.now 1)
  let receipt ← .lift (issuer.wire.approval r.approval context actor.githubId now)
  let existing ← .select fun db => db.approvals.get? (issuer.recordId receipt)
  match existing with
  | some existing => registerAgainTx clocks r job existing
  | none => issuer.registerNewTx clocks r job actor receipt

/-- `claim`: the fees, the claimed job, the execution, the ordinal and the contract. -/
def claimTx (issuer : Issuer) (clocks : Clocks) (request : HttpRequest) (jobId : String)
    (body : ClaimControl) (ids : ClaimIds) : DbTx Reply := do
  let user ← .check fun db => getCurrentUser issuer.identity db request
  let job ← .check fun db => lockJob db jobId user
  .lift (require (job.status == .pending) "pending_job_required")
  let (approval, result) ← .check fun db =>
    issuer.claimPermission db request job body (clocks.now 1) [.pending]
  .lift (budgets body approval)
  lockedTx clocks 2
  let engagement ← .check fun db => found (db.engagements.get? job.programId)
    (.raised .attributeError)
  .check fun db => beforeClaim db engagement (some body)
  let snapshot := result.field "case"
  let (charged, targets) ← .lift (charge engagement job (present snapshot) (some body))
  .write (·.putEngagement charged)
  let (allocated, duration) ← .lift (allocate charged (some body))
  .write (·.putEngagement allocated)
  let startedAt ← .lift (clocks.now 3)
  .lift (require (job.status == .pending && job.managedApprovalId == some approval.id)
    "claim_conflict")
  .write fun db => { db with jobs := db.jobs.put { job with
    status := .running, startedAt := some startedAt.instant, caseSnapshot := snapshot } }
  let (row, capability) ← .lift (issue jobId user request body ids.token (clocks.control 0)
    targets duration)
  .store (fun db => found (db.executions.insert row) .integrity)
    fun db executions => { db with executions }
  let ordinal := approval.issued + 1
  let maximum ← .lift (raise (approval.context.item "max_executions"))
  .lift (require ((ordinal : ℤ) ≤ maximum.int?.getD 0) "approval_exhausted")
  .check fun db => require (db.contractOf jobId).isNone "attempt_already_issued"
  .check fun db => mint db ids.contractId
  let now ← .lift (clocks.now 4)
  let envelope ← .lift (issuer.wire.issue approval.envelope (result.field "context")
    approval.owner now ⟨ids.contractId, ids.attemptId, 1, ordinal⟩)
  .write fun db => { db with approvals := db.approvals.put { approval with issued := ordinal } }
  .check fun db => ensure (!db.contracts.rows.any fun c =>
    c.approvalRecordId == approval.id && c.ordinal == ordinal) .integrity
  .store (fun db => found (db.contracts.insert {
      id := ids.contractId, jobId, approvalRecordId := approval.id, ordinal
      attemptId := ids.attemptId, fence := 1, envelope, consumed := false }) .integrity)
    fun db contracts => { db.minted ids.contractId with contracts }
  lockedTx clocks 5
  let now ← .lift (clocks.now 6)
  let _ ← .lift (issuer.wire.approval approval.envelope (result.field "context")
    approval.owner now)
  .commit
  .answer (.ok (.claimed (some capability) (.obj [
    ("approval", approval.envelope), ("contract", envelope), ("plan", approval.plan),
    ("authority_snapshot", result.field "authority_snapshot")]) none))

/-- The first part of `_current`. -/
def liveTx (issuer : Issuer) (clocks : Clocks) (request : HttpRequest) (jobId : String)
    (body : ControlRequest) (ref : AttemptRef) : DbTx Live := do
  let user ← .check fun db => getCurrentUser issuer.identity db request
  let execution ← .check fun db => owned db jobId user request body
  let job ← .check fun db => found (db.jobs.get? jobId) (.raised .attributeError)
  let contract ← .check fun db => found ((db.contractOf jobId).filter fun c => c.ref == ref)
    (.wire "owned_contract_fence_required")
  let (approval, result) ← .check fun db =>
    issuer.claimPermission db request job body.toClaimControl (clocks.now 1) [.running]
  lockedTx clocks 2
  .lift (require (execution.state == .active && clocks.control 0 < execution.expiresAt)
    "live_control_expired_or_stopped")
  let permission := result.field "context"
  let now ← .lift (clocks.now 3)
  let _ ← .lift (issuer.wire.approval approval.envelope permission approval.owner now)
  return ⟨execution, job, contract, approval, permission⟩

/-- `refresh`. -/
def refreshTx (issuer : Issuer) (clocks : Clocks) (request : HttpRequest) (jobId : String)
    (body : ControlRequest) (ref : AttemptRef) : DbTx Reply := do
  let l ← issuer.liveTx clocks request jobId body ref
  let now ← .lift (clocks.now 4)
  let instant := latest now (clocks.control 1)
  let allocation ← .lift (allocationEnd l.job l.execution l.permission)
  let ends ← .lift (permissionEnds l.permission)
  let ceiling := ends.foldl min allocation
  let lease := min (leaseSeconds : ℤ) ((ceiling - instant).tdiv 1000000)
  .lift (require (0 < lease && instant < l.execution.expiresAt) "live_control_expired_or_stopped")
  let execution := { l.execution with expiresAt := instant + seconds lease }
  .write fun db => { db with executions := db.executions.put execution }
  lockedTx clocks 5
  let now ← .lift (clocks.now 6)
  .lift (require (latest now (clocks.control 2) < execution.expiresAt)
    "live_control_expired_or_stopped")
  let expiresAt ← .lift (raise (DateTime.ofWall execution.expiresAt (some 0)))
  let text ← .lift (stamp expiresAt)
  .commit
  .answer (.ok (.document (.obj (l.document ++ binding execution ++ [
    ("action", .str "continue"),
    ("lease_seconds", .int lease),
    ("lease_expires_at", .str (String.ofList text))]))))

/-- `consume`. -/
def consumeTx (issuer : Issuer) (clocks : Clocks) (request : HttpRequest) (jobId : String)
    (body : ControlRequest) (ref : AttemptRef) (contractSha256 : String) : DbTx Reply := do
  let l ← issuer.liveTx clocks request jobId body ref
  let hash ← .lift (Wire.digest l.contract.envelope)
  .lift (require (contractSha256 == hash) "consumption_contract_binding")
  .lift (require (!l.contract.consumed) "contract_already_consumed")
  .write fun db => { db with contracts := db.contracts.put { l.contract with consumed := true } }
  lockedTx clocks 4
  let now ← .lift (clocks.now 5)
  let _ ← .lift (issuer.wire.approval l.approval.envelope l.permission l.approval.owner now)
  let now ← .lift (clocks.now 6)
  .lift (require (latest now (clocks.control 1) < l.execution.expiresAt)
    "live_control_expired_or_stopped")
  .commit
  .answer (.ok (.document (.obj (l.document ++ binding l.execution ++ [
    ("consumed", .bool true),
    ("schema", .str "vardr.managed-consumption/1"),
    ("contract_sha256", .str contractSha256)]))))

end Issuer

namespace Results

omit [Unicode] in
/-- `store_gate_result`: the receipt and the job's assessment, unless a receipt is kept. -/
def storeTx (p : Platform) (job : ScanJob) (upload : GateUpload) : DbTx Retained := do
  let (payloadHash, legacyHash) ← .lift (p.payloadHashes upload)
  let receipt ← .select fun db => db.receipts.get? job.id
  match receipt with
  | some receipt =>
    .lift (ensure (receipt.payloadHash == payloadHash || receipt.payloadHash == legacyHash)
      (.http 409 "this job already has a different uploaded result"))
    return ⟨receipt.scanItemsCreated, receipt.evidenceCreated, true⟩
  | none =>
    let filed ← .check fun db => p.fileResult db job upload
    .store (fun db => found (db.receipts.insert ⟨job.id, payloadHash, filed.scanItemsCreated,
        filed.evidenceCreated⟩) .integrity)
      fun db receipts => { db with receipts }
    .write fun db => { db with jobs := db.jobs.put { job with assessment := filed.assessment } }
    return ⟨filed.scanItemsCreated, filed.evidenceCreated, false⟩

/-- `submit`. -/
def submitTx (issuer : Issuer) (p : Platform) (clocks : Clocks) (request : HttpRequest)
    (jobId : String) (body : ControlRequest) (r : Report) (a : Artifact) : DbTx Reply := do
  let o ← .check fun db => ownedReport issuer request jobId body r db
  let (upload, caseSha256) ← .lift (boundUpload p o a)
  let binding := binding o.execution o.contract r.contractSha256
  let retained ← .check fun db => retainedResult db o r.contractSha256
  match retained with
  | some row =>
    .lift (require (row.artifactSha256 == a.sha256 && row.caseSha256 == caseSha256)
      "different_managed_result")
    .commit
    .answer (.ok (.document (ack binding row)))
  | none =>
    .check fun db => require (db.receipts.get? jobId).isNone "foreign_result_receipt"
    let retained ← storeTx p o.job upload
    let receiptSha256 ← .lift (receiptHash binding a.sha256 caseSha256)
    let row := resultRow o r a upload caseSha256 receiptSha256 retained
    .store (fun db => found (db.results.insert row) .integrity)
      fun db results => { db with results }
    lockedTx clocks 1
    .commit
    .answer (.ok (.document (ack binding row)))

/-- The writes of a finalization. -/
def concludeTx (o : OwnedReport) (row : ManagedResult) (outcome : Outcome)
    (finishedAt : Instant) : DbTx Unit := do
  .write fun db => { db with results := db.results.put row }
  .write fun db => { db with executions := db.executions.put (o.execution.finish outcome) }
  .write fun db => { db with
    jobs := db.jobs.put (o.job.finish outcome finishedAt outcome.errorMessage) }

/-- A result with its outcome. -/
def concluded (row : ManagedResult) (outcome : Outcome) (finishedAt : Instant) : ManagedResult :=
  { row with outcome := some outcome, finishedAt := some finishedAt }

/-- `finish`. -/
def finishTx (issuer : Issuer) (clocks : Clocks) (request : HttpRequest) (jobId : String)
    (body : ControlRequest) (r : Report) (receiptSha256 : String) (outcome : Outcome) :
    DbTx Reply := do
  let o ← .check fun db => ownedReport issuer request jobId body r db
  let retained ← .check fun db => retainedResult db o r.contractSha256
  let row ← .lift (found (retained.filter fun row => row.receiptSha256 == receiptSha256)
    (.wire "owned_result_receipt_required"))
  let binding := binding o.execution o.contract r.contractSha256
  match row.outcome with
  | some given =>
    .lift (require (given == outcome) "different_completion")
    .commit
    .answer ((completion binding row o.execution).map Reply.document)
  | none =>
    .lift (require (!o.execution.state.final) "foreign_completion")
    .lift (require o.execution.capacityReserved "owned_reservation_required")
    if outcome == .completed then
      .lift (require (!row.preflightFailed) "preflight_failure_not_success")
      let (approval, result) ← .check fun db => issuer.claimPermission db request o.job
        body.toClaimControl (clocks.now 1) [.running]
      let permission := result.field "context"
      .lift (completionLive issuer clocks 2 0 o approval permission (o.execution.state == .active))
      let now ← .lift (clocks.now 4)
      let row := concluded row outcome now.instant
      concludeTx o row outcome now.instant
      lockedTx clocks 5
      .lift (completionLive issuer clocks 6 1 o approval permission true)
      .commit
      .answer ((completion binding row (o.execution.finish outcome)).map Reply.document)
    else
      let now ← .lift (clocks.now 1)
      let row := concluded row outcome now.instant
      concludeTx o row outcome now.instant
      lockedTx clocks 2
      .commit
      .answer ((completion binding row (o.execution.finish outcome)).map Reply.document)

end Results

namespace Stops

/-- `report`. -/
def reportTx (issuer : Issuer) (clocks : Clocks) (request : HttpRequest) (jobId : String)
    (body : ControlRequest) (r : Report) (cause : String) : DbTx Reply := do
  let o ← .check fun db => Results.ownedReport issuer request jobId body r db
  let binding := Results.binding o.execution o.contract r.contractSha256
  let outcome := outcomeOf cause
  let retained ← .check fun db => retainedStop db o r.contractSha256
  match retained with
  | some row =>
    .lift (require (row.outcome == outcome && row.cause == cause) "different_stop_receipt")
    let document ← .lift (ack binding row o.execution)
    .commit
    .answer (.ok (.document document))
  | none =>
    let result ← .check fun db => Results.retainedResult db o r.contractSha256
    .lift (require result.isNone "result_protocol_already_started")
    .lift (require (!o.execution.state.final && o.execution.capacityReserved)
      "owned_reservation_required")
    let receiptSha256 ← .lift (stopHash binding outcome cause)
    let now ← .lift (clocks.now 1)
    let finishedAt := now.instant
    let row : ManagedStop := {
      contractId := o.contract.id, jobId, attemptId := r.attemptId, fence := r.fence
      contractSha256 := r.contractSha256, outcome, cause, receiptSha256, finishedAt }
    .store (fun db => found (db.stops.insert row) .integrity) fun db stops => { db with stops }
    let execution := o.execution.finish outcome
    .write fun db => { db with executions := db.executions.put execution }
    .write fun db => { db with jobs := db.jobs.put { o.job with
      status := .failed, completedAt := some finishedAt, errorMessage := cause } }
    lockedTx clocks 2
    .commit
    .answer ((ack binding row execution).map Reply.document)

end Stops

/-! ## What the programs compute -/

open Tx

namespace Issuer

omit [Unicode] in
theorem registerAgainTx_computes (clocks : Clocks) (r : Registration) (job : ScanJob)
    (existing : ManagedApproval) (s : Lib.Session Db) :
    (registerAgainTx clocks r job existing).Computes true
      (registerAgain clocks s.working r job existing) s := by
  refine computes_lift fun stored _ _ => ?_
  refine computes_lift fun given _ _ => ?_
  refine computes_lift fun _ _ _ => ?_
  refine computes_lift fun _ _ _ => ?_
  refine computes_update rfl fun db _ _ => ?_
  exact computes_commit (x := .ok Reply.stored) rfl

theorem registerNewTx_computes (issuer : Issuer) (clocks : Clocks) (r : Registration)
    (job : ScanJob) (actor : User) (receipt : Json) (s : Lib.Session Db) :
    (issuer.registerNewTx clocks r job actor receipt).Computes true
      (issuer.registerNew clocks s.working r job actor receipt) s := by
  refine computes_lift fun permission _ _ => ?_
  refine computes_check rfl fun result _ _ => ?_
  refine computes_lift fun now _ _ => ?_
  refine computes_lift fun _ _ _ => ?_
  refine computes_check rfl fun engagement _ _ => ?_
  refine computes_store rfl fun approvals _ _ => ?_
  refine computes_write fun _ => ?_
  refine computes_update rfl fun db _ _ => ?_
  refine computes_lift fun now _ _ => ?_
  refine computes_lift fun _ _ _ => ?_
  exact computes_commit (x := .ok Reply.stored) rfl

theorem registerTx_computes (issuer : Issuer) (clocks : Clocks) (request : HttpRequest)
    (r : Registration) (s : Lib.Session Db) :
    (issuer.registerTx clocks request r).Computes true
      (issuer.register clocks request r s.working) s := by
  refine computes_check rfl fun actor _ _ => ?_
  refine computes_check rfl fun job _ _ => ?_
  refine computes_lift fun text _ _ => ?_
  refine computes_lift fun payload _ _ => ?_
  refine computes_lift fun context _ _ => ?_
  refine computes_lift fun now _ _ => ?_
  refine computes_lift fun receipt _ _ => ?_
  refine computes_select fun n => ?_
  dsimp only
  cases s.working.approvals.get? (issuer.recordId receipt) with
  | some existing => exact registerAgainTx_computes clocks r job existing ⟨s.stored, s.working, n⟩
  | none => exact registerNewTx_computes issuer clocks r job actor receipt ⟨s.stored, s.working, n⟩

omit [Unicode] in
/-- The engagement after both charges. -/
theorem putEngagement_twice {db : Db} {e e' : Engagement} (h : e.id = e'.id) :
    (db.putEngagement e).putEngagement e' = db.putEngagement e' := by
  simp only [Db.putEngagement]
  rw [Table.put_put h]

theorem claimTx_computes (issuer : Issuer) (clocks : Clocks) (request : HttpRequest)
    (jobId : String) (body : ClaimControl) (ids : ClaimIds) (s : Lib.Session Db) :
    (issuer.claimTx clocks request jobId body ids).Computes true
      (issuer.claim clocks request jobId body ids s.working) s := by
  refine computes_check rfl fun user _ _ => ?_
  refine computes_check rfl fun job _ _ => ?_
  refine computes_lift fun _ _ _ => ?_
  refine computes_check rfl fun permission _ _ => ?_
  obtain ⟨approval, result⟩ := permission
  refine computes_lift fun _ _ _ => ?_
  refine computes_update rfl fun db _ _ => ?_
  refine computes_check rfl fun engagement _ _ => ?_
  refine computes_check rfl fun _ _ _ => ?_
  refine computes_lift fun charges _ hcharge => ?_
  obtain ⟨charged, targets⟩ := charges
  refine computes_write fun _ => ?_
  refine computes_lift fun allocation _ hallocate => ?_
  obtain ⟨allocated, duration⟩ := allocation
  refine computes_write fun _ => ?_
  have hid : charged.id = allocated.id := by rw [(allocate_eq_ok hallocate).1]
  rw [putEngagement_twice hid]
  refine computes_lift fun startedAt _ _ => ?_
  refine computes_lift fun _ _ _ => ?_
  refine computes_write fun _ => ?_
  refine computes_lift fun issued _ _ => ?_
  obtain ⟨row, capability⟩ := issued
  refine computes_store rfl fun executions _ _ => ?_
  refine computes_lift fun maximum _ _ => ?_
  refine computes_lift fun _ _ _ => ?_
  refine computes_check rfl fun _ _ _ => ?_
  refine computes_check rfl fun _ _ _ => ?_
  refine computes_lift fun now _ _ => ?_
  refine computes_lift fun envelope _ _ => ?_
  refine computes_write fun _ => ?_
  refine computes_check rfl fun _ _ _ => ?_
  refine computes_store rfl fun contracts _ _ => ?_
  refine computes_update rfl fun db _ _ => ?_
  refine computes_lift fun now _ _ => ?_
  refine computes_lift fun _ _ _ => ?_
  exact computes_commit (x := .ok _) rfl

theorem liveTx_computes (issuer : Issuer) (clocks : Clocks) (request : HttpRequest)
    (jobId : String) (body : ControlRequest) (ref : AttemptRef) (s : Lib.Session Db) :
    (issuer.liveTx clocks request jobId body ref).Computes false
      (issuer.live clocks request jobId body ref s.working) s := by
  refine computes_check rfl fun user _ _ => ?_
  refine computes_check rfl fun execution _ _ => ?_
  refine computes_check rfl fun job _ _ => ?_
  refine computes_check rfl fun contract _ _ => ?_
  refine computes_check rfl fun permission _ _ => ?_
  obtain ⟨approval, result⟩ := permission
  refine computes_update rfl fun db _ _ => ?_
  refine computes_lift fun _ _ _ => ?_
  refine computes_lift fun now _ _ => ?_
  refine computes_lift fun _ _ _ => ?_
  exact computes_pure rfl

theorem refreshTx_computes (issuer : Issuer) (clocks : Clocks) (request : HttpRequest)
    (jobId : String) (body : ControlRequest) (ref : AttemptRef) (s : Lib.Session Db) :
    (issuer.refreshTx clocks request jobId body ref).Computes true
      (issuer.refresh clocks request jobId body ref s.working) s := by
  refine Computes.bind (liveTx_computes issuer clocks request jobId body ref s)
    fun db l _ _ => ?_
  refine computes_lift fun now _ _ => ?_
  refine computes_lift fun allocation _ _ => ?_
  refine computes_lift fun ends _ _ => ?_
  refine computes_lift fun _ _ _ => ?_
  refine computes_write fun _ => ?_
  refine computes_update rfl fun db _ _ => ?_
  refine computes_lift fun now _ _ => ?_
  refine computes_lift fun _ _ _ => ?_
  refine computes_lift fun expiresAt _ _ => ?_
  refine computes_lift fun text _ _ => ?_
  exact computes_commit (x := .ok _) rfl

theorem consumeTx_computes (issuer : Issuer) (clocks : Clocks) (request : HttpRequest)
    (jobId : String) (body : ControlRequest) (ref : AttemptRef) (contractSha256 : String)
    (s : Lib.Session Db) :
    (issuer.consumeTx clocks request jobId body ref contractSha256).Computes true
      (issuer.consume clocks request jobId body ref contractSha256 s.working) s := by
  refine Computes.bind (liveTx_computes issuer clocks request jobId body ref s)
    fun db l _ _ => ?_
  refine computes_lift fun hash _ _ => ?_
  refine computes_lift fun _ _ _ => ?_
  refine computes_lift fun _ _ _ => ?_
  refine computes_write fun _ => ?_
  refine computes_update rfl fun db _ _ => ?_
  refine computes_lift fun now _ _ => ?_
  refine computes_lift fun _ _ _ => ?_
  refine computes_lift fun now _ _ => ?_
  refine computes_lift fun _ _ _ => ?_
  exact computes_commit (x := .ok _) rfl

end Issuer

namespace Results

omit [Unicode] in
theorem storeTx_computes (p : Platform) (job : ScanJob) (upload : GateUpload) (s : Lib.Session Db) :
    (storeTx p job upload).Computes false (storeGateResult p s.working job upload) s := by
  refine computes_lift fun hashes _ _ => ?_
  obtain ⟨payloadHash, legacyHash⟩ := hashes
  refine computes_select fun _ => ?_
  dsimp only
  cases s.working.receipts.get? job.id with
  | some receipt =>
    refine computes_lift fun _ _ _ => ?_
    exact computes_pure rfl
  | none =>
    refine computes_check rfl fun filed _ _ => ?_
    refine computes_store rfl fun receipts _ _ => ?_
    refine computes_write fun _ => ?_
    exact computes_pure rfl

theorem submitTx_computes (issuer : Issuer) (p : Platform) (clocks : Clocks)
    (request : HttpRequest) (jobId : String) (body : ControlRequest) (r : Report) (a : Artifact)
    (s : Lib.Session Db) :
    (submitTx issuer p clocks request jobId body r a).Computes true
      (submit issuer p clocks request jobId body r a s.working) s := by
  refine computes_check rfl fun o _ _ => ?_
  refine computes_lift fun bound _ _ => ?_
  obtain ⟨upload, caseSha256⟩ := bound
  refine computes_check rfl fun retained _ _ => ?_
  cases retained with
  | some row =>
    refine computes_lift fun _ _ _ => ?_
    exact computes_commit (x := .ok _) rfl
  | none =>
    refine computes_check rfl fun _ n _ => ?_
    refine Computes.bind (storeTx_computes p o.job upload ⟨s.stored, s.working, n⟩) fun db retained _ _ => ?_
    refine computes_lift fun receiptSha256 _ _ => ?_
    refine computes_store rfl fun results _ _ => ?_
    refine computes_update rfl fun db _ _ => ?_
    exact computes_commit (x := .ok _) rfl

omit [Unicode] in
theorem computes_conclude {commits : Bool} {o : OwnedReport} {row : ManagedResult}
    {outcome : Outcome} {finishedAt : Instant} {α : Type} {k : Unit → DbTx α}
    {g : Except Refusal (Db × α)} {s : Lib.Session Db}
    (hk : ∀ n, (k ()).Computes commits g ⟨s.stored, { s.working with
      results := s.working.results.put row
      executions := s.working.executions.put (o.execution.finish outcome)
      jobs := s.working.jobs.put (o.job.finish outcome finishedAt outcome.errorMessage) }, n⟩) :
    (concludeTx o row outcome finishedAt >>= k).Computes commits g s := hk (s.count + 3)

theorem finishTx_computes (issuer : Issuer) (clocks : Clocks) (request : HttpRequest)
    (jobId : String) (body : ControlRequest) (r : Report) (receiptSha256 : String)
    (outcome : Outcome) (s : Lib.Session Db) :
    (finishTx issuer clocks request jobId body r receiptSha256 outcome).Computes true
      (finish issuer clocks request jobId body r receiptSha256 outcome s.working) s := by
  refine computes_check rfl fun o _ _ => ?_
  refine computes_check rfl fun retained _ _ => ?_
  refine computes_lift fun row _ _ => ?_
  dsimp only
  cases row.outcome with
  | some given =>
    refine computes_lift fun _ _ _ => ?_
    exact computes_commit_map rfl
  | none =>
    refine computes_lift fun _ _ _ => ?_
    refine computes_lift fun _ _ _ => ?_
    dsimp only
    split
    · refine computes_lift fun _ _ _ => ?_
      refine computes_check rfl fun permission _ _ => ?_
      obtain ⟨approval, result⟩ := permission
      refine computes_lift fun _ _ _ => ?_
      unfold conclude
      rw [bind_assoc]
      refine computes_lift fun now _ _ => ?_
      refine computes_conclude fun _ => ?_
      refine computes_update rfl fun db _ _ => ?_
      refine computes_lift fun _ _ _ => ?_
      exact computes_commit_map rfl
    · unfold conclude
      rw [bind_assoc]
      refine computes_lift fun now _ _ => ?_
      refine computes_conclude fun _ => ?_
      refine computes_update rfl fun db _ _ => ?_
      exact computes_commit_map rfl

end Results

namespace Stops

theorem reportTx_computes (issuer : Issuer) (clocks : Clocks) (request : HttpRequest)
    (jobId : String) (body : ControlRequest) (r : Report) (cause : String) (s : Lib.Session Db) :
    (reportTx issuer clocks request jobId body r cause).Computes true
      (report issuer clocks request jobId body r cause s.working) s := by
  refine computes_check rfl fun o _ _ => ?_
  refine computes_check rfl fun retained _ _ => ?_
  cases retained with
  | some row =>
    refine computes_lift fun _ _ _ => ?_
    refine computes_lift fun document _ _ => ?_
    exact computes_commit (x := .ok _) rfl
  | none =>
    refine computes_check rfl fun result _ _ => ?_
    refine computes_lift fun _ _ _ => ?_
    refine computes_lift fun _ _ _ => ?_
    refine computes_lift fun receiptSha256 _ _ => ?_
    refine computes_lift fun now _ _ => ?_
    refine computes_store rfl fun stops _ _ => ?_
    refine computes_write fun _ => ?_
    refine computes_write fun _ => ?_
    refine computes_update rfl fun db _ _ => ?_
    exact computes_commit_map rfl

end Stops

/-! ## What the programs leave when they fail -/

omit [Unicode] in
theorem keeps_locked (clocks : Clocks) (i : ℕ) : (lockedTx clocks i).Keeps := keeps_update _

namespace Issuer

omit [Unicode] in
theorem registerAgainTx_atomic (clocks : Clocks) (r : Registration) (job : ScanJob)
    (existing : ManagedApproval) : (registerAgainTx clocks r job existing).Atomic := by
  refine (keeps_lift _).bind_atomic fun stored => ?_
  refine (keeps_lift _).bind_atomic fun given => ?_
  refine (keeps_lift _).bind_atomic fun _ => ?_
  refine (keeps_lift _).bind_atomic fun _ => ?_
  refine (keeps_locked clocks 2).bind_atomic fun _ => ?_
  exact atomic_commit rfl

theorem registerNewTx_atomic (issuer : Issuer) (clocks : Clocks) (r : Registration)
    (job : ScanJob) (actor : User) (receipt : Json) :
    (issuer.registerNewTx clocks r job actor receipt).Atomic := by
  refine (keeps_lift _).bind_atomic fun permission => ?_
  refine (keeps_check _).bind_atomic fun result => ?_
  refine (keeps_lift _).bind_atomic fun now => ?_
  refine (keeps_lift _).bind_atomic fun _ => ?_
  refine (keeps_check _).bind_atomic fun engagement => ?_
  refine (keeps_store _ _).bind_atomic fun _ => ?_
  refine (keeps_write _).bind_atomic fun _ => ?_
  refine (keeps_locked clocks 3).bind_atomic fun _ => ?_
  refine (keeps_lift _).bind_atomic fun now => ?_
  refine (keeps_lift _).bind_atomic fun _ => ?_
  exact atomic_commit rfl

theorem registerTx_atomic (issuer : Issuer) (clocks : Clocks) (request : HttpRequest)
    (r : Registration) : (issuer.registerTx clocks request r).Atomic := by
  refine (keeps_check _).bind_atomic fun actor => ?_
  refine (keeps_check _).bind_atomic fun job => ?_
  refine (keeps_lift _).bind_atomic fun text => ?_
  refine (keeps_lift _).bind_atomic fun payload => ?_
  refine (keeps_lift _).bind_atomic fun context => ?_
  refine (keeps_lift _).bind_atomic fun now => ?_
  refine (keeps_lift _).bind_atomic fun receipt => ?_
  refine (keeps_select _).bind_atomic fun existing => ?_
  cases existing with
  | some existing => exact registerAgainTx_atomic clocks r job existing
  | none => exact registerNewTx_atomic issuer clocks r job actor receipt

theorem claimTx_atomic (issuer : Issuer) (clocks : Clocks) (request : HttpRequest)
    (jobId : String) (body : ClaimControl) (ids : ClaimIds) :
    (issuer.claimTx clocks request jobId body ids).Atomic := by
  refine (keeps_check _).bind_atomic fun user => ?_
  refine (keeps_check _).bind_atomic fun job => ?_
  refine (keeps_lift _).bind_atomic fun _ => ?_
  refine (keeps_check _).bind_atomic fun permission => ?_
  refine (keeps_lift _).bind_atomic fun _ => ?_
  refine (keeps_locked clocks 2).bind_atomic fun _ => ?_
  refine (keeps_check _).bind_atomic fun engagement => ?_
  refine (keeps_check _).bind_atomic fun _ => ?_
  refine (keeps_lift _).bind_atomic fun charges => ?_
  refine (keeps_write _).bind_atomic fun _ => ?_
  refine (keeps_lift _).bind_atomic fun allocation => ?_
  refine (keeps_write _).bind_atomic fun _ => ?_
  refine (keeps_lift _).bind_atomic fun startedAt => ?_
  refine (keeps_lift _).bind_atomic fun _ => ?_
  refine (keeps_write _).bind_atomic fun _ => ?_
  refine (keeps_lift _).bind_atomic fun issued => ?_
  refine (keeps_store _ _).bind_atomic fun _ => ?_
  refine (keeps_lift _).bind_atomic fun maximum => ?_
  refine (keeps_lift _).bind_atomic fun _ => ?_
  refine (keeps_check _).bind_atomic fun _ => ?_
  refine (keeps_check _).bind_atomic fun _ => ?_
  refine (keeps_lift _).bind_atomic fun now => ?_
  refine (keeps_lift _).bind_atomic fun envelope => ?_
  refine (keeps_write _).bind_atomic fun _ => ?_
  refine (keeps_check _).bind_atomic fun _ => ?_
  refine (keeps_store _ _).bind_atomic fun _ => ?_
  refine (keeps_locked clocks 5).bind_atomic fun _ => ?_
  refine (keeps_lift _).bind_atomic fun now => ?_
  refine (keeps_lift _).bind_atomic fun _ => ?_
  exact atomic_commit rfl

theorem keeps_live (issuer : Issuer) (clocks : Clocks) (request : HttpRequest)
    (jobId : String) (body : ControlRequest) (ref : AttemptRef) :
    (issuer.liveTx clocks request jobId body ref).Keeps := by
  refine (keeps_check _).bind fun user => ?_
  refine (keeps_check _).bind fun execution => ?_
  refine (keeps_check _).bind fun job => ?_
  refine (keeps_check _).bind fun contract => ?_
  refine (keeps_check _).bind fun permission => ?_
  refine (keeps_locked clocks 2).bind fun _ => ?_
  refine (keeps_lift _).bind fun _ => ?_
  refine (keeps_lift _).bind fun now => ?_
  refine (keeps_lift _).bind fun _ => ?_
  exact keeps_pure _

theorem refreshTx_atomic (issuer : Issuer) (clocks : Clocks) (request : HttpRequest)
    (jobId : String) (body : ControlRequest) (ref : AttemptRef) :
    (issuer.refreshTx clocks request jobId body ref).Atomic := by
  refine (keeps_live issuer clocks request jobId body ref).bind_atomic fun l => ?_
  refine (keeps_lift _).bind_atomic fun now => ?_
  refine (keeps_lift _).bind_atomic fun allocation => ?_
  refine (keeps_lift _).bind_atomic fun ends => ?_
  refine (keeps_lift _).bind_atomic fun _ => ?_
  refine (keeps_write _).bind_atomic fun _ => ?_
  refine (keeps_locked clocks 5).bind_atomic fun _ => ?_
  refine (keeps_lift _).bind_atomic fun now => ?_
  refine (keeps_lift _).bind_atomic fun _ => ?_
  refine (keeps_lift _).bind_atomic fun expiresAt => ?_
  refine (keeps_lift _).bind_atomic fun text => ?_
  exact atomic_commit rfl

theorem consumeTx_atomic (issuer : Issuer) (clocks : Clocks) (request : HttpRequest)
    (jobId : String) (body : ControlRequest) (ref : AttemptRef) (contractSha256 : String) :
    (issuer.consumeTx clocks request jobId body ref contractSha256).Atomic := by
  refine (keeps_live issuer clocks request jobId body ref).bind_atomic fun l => ?_
  refine (keeps_lift _).bind_atomic fun hash => ?_
  refine (keeps_lift _).bind_atomic fun _ => ?_
  refine (keeps_lift _).bind_atomic fun _ => ?_
  refine (keeps_write _).bind_atomic fun _ => ?_
  refine (keeps_locked clocks 4).bind_atomic fun _ => ?_
  refine (keeps_lift _).bind_atomic fun now => ?_
  refine (keeps_lift _).bind_atomic fun _ => ?_
  refine (keeps_lift _).bind_atomic fun now => ?_
  refine (keeps_lift _).bind_atomic fun _ => ?_
  exact atomic_commit rfl

end Issuer

namespace Results

omit [Unicode] in
theorem keeps_storeResult (p : Platform) (job : ScanJob) (upload : GateUpload) :
    (storeTx p job upload).Keeps := by
  refine (keeps_lift _).bind fun hashes => ?_
  refine (keeps_select _).bind fun receipt => ?_
  cases receipt with
  | some receipt =>
    refine (keeps_lift _).bind fun _ => ?_
    exact keeps_pure _
  | none =>
    refine (keeps_check _).bind fun filed => ?_
    refine (keeps_store _ _).bind fun _ => ?_
    refine (keeps_write _).bind fun _ => ?_
    exact keeps_pure _

theorem submitTx_atomic (issuer : Issuer) (p : Platform) (clocks : Clocks)
    (request : HttpRequest) (jobId : String) (body : ControlRequest) (r : Report)
    (a : Artifact) : (submitTx issuer p clocks request jobId body r a).Atomic := by
  refine (keeps_check _).bind_atomic fun o => ?_
  refine (keeps_lift _).bind_atomic fun bound => ?_
  refine (keeps_check _).bind_atomic fun retained => ?_
  cases retained with
  | some row =>
    refine (keeps_lift _).bind_atomic fun _ => ?_
    exact atomic_commit rfl
  | none =>
    refine (keeps_check _).bind_atomic fun _ => ?_
    refine (keeps_storeResult p o.job bound.1).bind_atomic fun retained => ?_
    refine (keeps_lift _).bind_atomic fun receiptSha256 => ?_
    refine (keeps_store _ _).bind_atomic fun _ => ?_
    refine (keeps_locked clocks 1).bind_atomic fun _ => ?_
    exact atomic_commit rfl

omit [Unicode] in
theorem keeps_conclude (o : OwnedReport) (row : ManagedResult) (outcome : Outcome)
    (finishedAt : Instant) : (concludeTx o row outcome finishedAt).Keeps :=
  (keeps_write _).bind fun _ => (keeps_write _).bind fun _ => keeps_write _

omit [Unicode] in
/-- The receipt of a finalization just written is never inconsistent. -/
theorem completion_concluded (binding : List (String × Json)) (row : ManagedResult)
    (x : JobExecution) (outcome : Outcome) (finishedAt : Instant) :
    ∃ document, completion binding (concluded row outcome finishedAt) (x.finish outcome) =
      .ok document := by
  simp [completion, concluded, JobExecution.finish, found, require, ensure, bind, Except.bind,
    pure, Except.pure]

omit [Unicode] in
theorem commit_concluded_atomic (binding : List (String × Json)) (row : ManagedResult)
    (x : JobExecution) (outcome : Outcome) (finishedAt : Instant) :
    (commit >>= fun _ => answer ((completion binding (concluded row outcome finishedAt)
      (x.finish outcome)).map Reply.document) : DbTx Reply).Atomic := by
  obtain ⟨document, hdocument⟩ := completion_concluded binding row x outcome finishedAt
  exact atomic_commit (a := .document document) (by rw [hdocument]; rfl)

/-- A repeated finalization may find its receipt inconsistent after the commit; it has written
nothing by then. -/
theorem finishTx_atomic (issuer : Issuer) (clocks : Clocks) (request : HttpRequest)
    (jobId : String) (body : ControlRequest) (r : Report) (receiptSha256 : String)
    (outcome : Outcome) :
    (finishTx issuer clocks request jobId body r receiptSha256 outcome).CleanAtomic := by
  refine (reads_check _).bind fun o => ?_
  refine (reads_check _).bind fun retained => ?_
  refine (reads_lift _).bind fun row => ?_
  dsimp only
  split
  · refine (reads_lift _).bind fun _ => ?_
    exact cleanAtomic_commit _
  · refine Atomic.clean ?_
    refine (keeps_lift _).bind_atomic fun _ => ?_
    refine (keeps_lift _).bind_atomic fun _ => ?_
    split
    · refine (keeps_lift _).bind_atomic fun _ => ?_
      refine (keeps_check _).bind_atomic fun permission => ?_
      refine (keeps_lift _).bind_atomic fun _ => ?_
      refine (keeps_lift _).bind_atomic fun now => ?_
      refine (keeps_conclude _ _ _ _).bind_atomic fun _ => ?_
      refine (keeps_locked clocks 5).bind_atomic fun _ => ?_
      refine (keeps_lift _).bind_atomic fun _ => ?_
      exact commit_concluded_atomic _ row o.execution outcome now.instant
    · refine (keeps_lift _).bind_atomic fun now => ?_
      refine (keeps_conclude _ _ _ _).bind_atomic fun _ => ?_
      refine (keeps_locked clocks 2).bind_atomic fun _ => ?_
      exact commit_concluded_atomic _ row o.execution outcome now.instant

end Results

namespace Stops

omit [Unicode] in
/-- The receipt of a stop just written is never inconsistent. -/
theorem commit_ended_atomic (binding : List (String × Json)) (row : ManagedStop)
    (x : JobExecution) {outcome : Outcome} (h : row.outcome = outcome) :
    (commit >>= fun _ => answer ((ack binding row (x.finish outcome)).map Reply.document) :
      DbTx Reply).Atomic := by
  obtain ⟨document, hdocument⟩ : ∃ document, ack binding row (x.finish outcome) = .ok document := by
    simp [ack, h, JobExecution.finish, require, ensure, bind, Except.bind, pure, Except.pure]
  exact atomic_commit (a := .document document) (by rw [hdocument]; rfl)

theorem reportTx_atomic (issuer : Issuer) (clocks : Clocks) (request : HttpRequest)
    (jobId : String) (body : ControlRequest) (r : Report) (cause : String) :
    (reportTx issuer clocks request jobId body r cause).Atomic := by
  refine (keeps_check _).bind_atomic fun o => ?_
  refine (keeps_check _).bind_atomic fun retained => ?_
  cases retained with
  | some row =>
    refine (keeps_lift _).bind_atomic fun _ => ?_
    refine (keeps_lift _).bind_atomic fun document => ?_
    exact atomic_commit rfl
  | none =>
    refine (keeps_check _).bind_atomic fun result => ?_
    refine (keeps_lift _).bind_atomic fun _ => ?_
    refine (keeps_lift _).bind_atomic fun _ => ?_
    refine (keeps_lift _).bind_atomic fun receiptSha256 => ?_
    refine (keeps_lift _).bind_atomic fun now => ?_
    refine (keeps_store _ _).bind_atomic fun _ => ?_
    refine (keeps_write _).bind_atomic fun _ => ?_
    refine (keeps_write _).bind_atomic fun _ => ?_
    refine (keeps_locked clocks 2).bind_atomic fun _ => ?_
    exact commit_ended_atomic _ _ o.execution rfl

end Stops

/-! ## The managed operations -/

/-- The program of a managed operation that writes. -/
def ManagedOp.program (rt : Runtime) (request : HttpRequest) (clocks : Clocks) :
    ManagedOp → Option (DbTx Reply)
  | register r => some (rt.issuer.registerTx clocks request r)
  | claim id body ids => some (rt.issuer.claimTx clocks request id body ids)
  | refresh id body ref => some (rt.issuer.refreshTx clocks request id body ref)
  | consume id body ref sha => some (rt.issuer.consumeTx clocks request id body ref sha)
  | submit id body r a => some (Results.submitTx rt.issuer rt.toPlatform clocks request id body r a)
  | finish id body r receipt outcome confirmed => some do
    let outcome ← .lift (Results.finishArguments outcome confirmed)
    Results.finishTx rt.issuer clocks request id body r receipt outcome
  | report id body r _ cause _ => some (Stops.reportTx rt.issuer clocks request id body r cause)
  | _ => none

omit [Unicode] in
/-- `operation` around a program: the clock is recorded in sessions of its own, and the
program's session is rolled back when it fails. -/
def operationTx (clocks : Clocks) (faults : Schedule Refusal) (db : Db) (program : DbTx Reply) :
    Db × Except Refusal Reply :=
  match (do let _ ← stamp clocks.anchor; observe clocks 0 db) with
  | .error e => (db, .error e)
  | .ok db =>
    match program faults (.clean db) with
    | (.ok reply, s) => (s.stored, .ok reply)
    | (.error e, s) =>
      match observe clocks Clocks.exit (rollback s).working with
      | .ok db => (db, .error e)
      | .error e => ((rollback s).working, .error e)

omit [Unicode] in
/-- A managed operation as its program runs it. -/
def ManagedOp.execute (clocks : Clocks) (faults : Schedule Refusal) (db : Db) (op : ManagedOp)
    (program : DbTx Reply) : Db × Except Refusal Reply :=
  match op.arguments with
  | .ok () => operationTx clocks faults db program
  | .error e => (db, .error e)

theorem program_cleanAtomic {rt : Runtime} {request : HttpRequest} {clocks : Clocks}
    {op : ManagedOp} {program : DbTx Reply} (h : op.program rt request clocks = some program) :
    program.CleanAtomic := by
  cases op with
  | register r =>
    obtain rfl := Option.some.inj h
    exact Atomic.clean (Issuer.registerTx_atomic rt.issuer clocks request r)
  | claim id body ids =>
    obtain rfl := Option.some.inj h
    exact Atomic.clean (Issuer.claimTx_atomic rt.issuer clocks request id body ids)
  | refresh id body ref =>
    obtain rfl := Option.some.inj h
    exact Atomic.clean (Issuer.refreshTx_atomic rt.issuer clocks request id body ref)
  | consume id body ref sha =>
    obtain rfl := Option.some.inj h
    exact Atomic.clean (Issuer.consumeTx_atomic rt.issuer clocks request id body ref sha)
  | submit id body r a =>
    obtain rfl := Option.some.inj h
    exact Atomic.clean (Results.submitTx_atomic rt.issuer rt.toPlatform clocks request id body r a)
  | finish id body r receipt outcome confirmed =>
    obtain rfl := Option.some.inj h
    exact (reads_lift _).bind fun outcome =>
      Results.finishTx_atomic rt.issuer clocks request id body r receipt outcome
  | report id body r outcome cause confirmed =>
    obtain rfl := Option.some.inj h
    exact Atomic.clean (Stops.reportTx_atomic rt.issuer clocks request id body r cause)
  | _ => simp [ManagedOp.program] at h

theorem program_computes {rt : Runtime} {request : HttpRequest} {clocks : Clocks}
    {op : ManagedOp} {program : DbTx Reply} (h : op.program rt request clocks = some program)
    (db : Db) : program.Computes true (op.body rt request clocks db) (.clean db) := by
  cases op with
  | register r =>
    obtain rfl := Option.some.inj h
    exact Issuer.registerTx_computes rt.issuer clocks request r (.clean db)
  | claim id body ids =>
    obtain rfl := Option.some.inj h
    exact Issuer.claimTx_computes rt.issuer clocks request id body ids (.clean db)
  | refresh id body ref =>
    obtain rfl := Option.some.inj h
    exact Issuer.refreshTx_computes rt.issuer clocks request id body ref (.clean db)
  | consume id body ref sha =>
    obtain rfl := Option.some.inj h
    exact Issuer.consumeTx_computes rt.issuer clocks request id body ref sha (.clean db)
  | submit id body r a =>
    obtain rfl := Option.some.inj h
    exact Results.submitTx_computes rt.issuer rt.toPlatform clocks request id body r a (.clean db)
  | finish id body r receipt outcome confirmed =>
    obtain rfl := Option.some.inj h
    refine computes_lift fun outcome n _ => ?_
    exact Results.finishTx_computes rt.issuer clocks request id body r receipt outcome ⟨db, db, n⟩
  | report id body r outcome cause confirmed =>
    obtain rfl := Option.some.inj h
    exact Stops.reportTx_computes rt.issuer clocks request id body r cause (.clean db)
  | _ => simp [ManagedOp.program] at h

/-- Without failures of its own, a program does what the operation of the model does. -/
theorem execute_noFaults {rt : Runtime} {request : HttpRequest} {clocks : Clocks} {db : Db}
    {op : ManagedOp} {program : DbTx Reply} (h : op.program rt request clocks = some program) :
    op.execute clocks noFaults db program = op.run rt request clocks db := by
  unfold ManagedOp.execute ManagedOp.run operationTx operation
  cases op.arguments with
  | error e => rfl
  | ok u =>
    dsimp only
    cases (do let _ ← stamp clocks.anchor; observe clocks 0 db) with
    | error e => rfl
    | ok db₁ =>
      dsimp only
      have hcomputes := program_computes h db₁
      cases hbody : op.body rt request clocks db₁ with
      | ok committed =>
        obtain ⟨db', reply⟩ := committed
        rw [hbody] at hcomputes
        obtain ⟨n, hn⟩ := hcomputes
        rw [hn]
        rfl
      | error e =>
        rw [hbody] at hcomputes
        obtain ⟨t, ht⟩ := hcomputes
        have hstored : t.stored = db₁ := by
          have := program_cleanAtomic h noFaults (.clean db₁) e rfl (by rw [ht])
          rwa [ht] at this
        rw [ht]
        rw [← hstored]
        cases hexit : observe clocks Clocks.exit t.stored <;> simp only [rollback, hexit]

end VardrMap
