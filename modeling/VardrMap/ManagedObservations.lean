import VardrMap.ManagedResults

/-!
# Claim observation

After a runner has lost its token, the enrolled principal may still ask what became of a
claim. The observer reads the job, its execution, contract, result and stop, and refuses
whenever these rows do not fit together.
-/
namespace VardrMap
open Lib Wire

namespace Observations

/-- `hash_value`: a lower-case SHA-256. -/
def hashValue (value : String) : Except Refusal Unit :=
  require (value.length == 64 && value.toList.all fun c =>
    ('0' ≤ c && c ≤ '9') || ('a' ≤ c && c ≤ 'f')) "invalid_observation_hash"

/-- The fingerprints an observer presents. -/
structure Fingerprints where
  planSha256 : String
  caseSha256 : String
  associationSha256 : String

/-- The checks on the fingerprints, made before the operation is entered. -/
def arguments (f : Fingerprints) : Except Refusal Unit := do
  hashValue f.planSha256
  hashValue f.caseSha256
  hashValue f.associationSha256

/-- The rows of an observed job, once the observer is known. -/
structure Observed where
  job : ScanJob
  approval : ManagedApproval
  enrollment : ManagedEnrollment
  principalHash : String

variable [Unicode]

/-- The enrolled observer of a job, with the right fingerprints. -/
def observer (issuer : Issuer) (request : HttpRequest) (jobId : String) (body : ClaimControl)
    (f : Fingerprints) (db : Db) : Except Refusal Observed := do
  let user ← getCurrentUser issuer.identity db request
  let job ← lockJob db jobId user
  let _ ← writableEngagement db job.programId user
  let approval ← found ((db.approvalOf job).filter fun a =>
      job.authorizationContractRequired && a.owner == user.githubId && a.jobId == job.id &&
        a.engagementId == job.programId)
    (.wire "owned_approval_required")
  let (enrollment, key) ← issuer.enrollment db approval.enrollmentId approval.owner
  let principalHash ← principal request
  require (body.origin == issuer.origin && issuer.origin == enrollment.origin &&
    body.runnerId == enrollment.runnerId && principalHash == enrollment.principalHash &&
    request.hasApiKey &&
    Sha256.ofText (request.header.drop bearerPrefix.length) == key.keyHash)
    "enrolled_observer_required"
  let planHash ← Wire.digest approval.plan
  let caseHash ← raise (approval.plan.item "case_hash")
  let association ← Wire.digest (.obj [
    ("origin", .str issuer.origin), ("runner_id", .str enrollment.runnerId),
    ("principal_sha256", .str principalHash)])
  require (planHash == f.planSha256 && caseHash == .str f.caseSha256 &&
    association == f.associationSha256) "observation_fingerprint_binding"
  return ⟨job, approval, enrollment, principalHash⟩

/-- A job without a claim: nothing was issued, retained or started. -/
def unclaimed (db : Db) (o : Observed) (contract : Option ManagedContract)
    (execution : Option JobExecution) : Except Refusal Unit :=
  require (contract.isNone && execution.isNone && o.approval.issued == 0 &&
    o.job.status == .pending &&
    !db.results.rows.any (fun r => r.jobId == o.job.id) &&
    !db.stops.rows.any fun s => s.jobId == o.job.id) "inconsistent_observed_claim"

/-- The contract of a claim carries the names of its rows. -/
def payloadMatches (o : Observed) (contract : ManagedContract) (f : Fingerprints)
    (payload : Json) : Bool :=
  payload.field "job_id" == .str o.job.id &&
    payload.field "runner_id" == .str o.enrollment.runnerId &&
    payload.field "plan_sha256" == .str f.planSha256 &&
    payload.field "authority_revision" == .int o.approval.revision &&
    payload.field "contract_id" == .str contract.id &&
    payload.field "attempt_id" == .str contract.attemptId &&
    payload.field "fence" == .int contract.fence

/-- The claim that an observer sees. -/
def claimed (issuer : Issuer) (db : Db) (o : Observed) (f : Fingerprints)
    (contract : ManagedContract) (execution : JobExecution) :
    Except Refusal (List (String × Json)) := do
  require (contract.approvalRecordId == o.approval.id && execution.owner == o.approval.owner &&
    execution.origin == issuer.origin && execution.runnerId == o.enrollment.runnerId &&
    execution.principalHash == o.principalHash && o.job.caseSnapshot != .null)
    "inconsistent_observed_claim"
  let caseHash ← raise (caseHash o.job.caseSnapshot)
  require (caseHash == f.caseSha256) "inconsistent_observed_claim"
  let payload ← issuer.wire.decode (← raise (contract.envelope.item "payload"))
  let _ ← integer (.int contract.fence) 1 maxInteger
  require (payloadMatches o contract f payload) "inconsistent_observed_claim"
  let contractSha256 ← Wire.digest contract.envelope
  let report : OwnedReport :=
    ⟨⟨o.approval.owner, "", none⟩, o.job, execution, contract, o.approval⟩
  let binding := Results.binding execution contract contractSha256
  let result ← Results.retainedResult db report contractSha256
  let stop ← Stops.retainedStop db report contractSha256
  require (contract.consumed || (result.isNone && stop.isNone)) "inconsistent_observed_consumption"
  let completion ← Results.observedCompletion binding execution result
  let stopped ← Stops.observedStop binding execution stop
  return [
    ("claim", .obj [
      ("contract_id", .str contract.id), ("attempt_id", .str contract.attemptId),
      ("fence", .int contract.fence), ("contract_sha256", .str contractSha256),
      ("consumed", .bool contract.consumed), ("authority_revision", .int o.approval.revision),
      ("authority_sha256", o.approval.context.field "authority_sha256")]),
    ("execution_state", .str (Results.stateText execution.state)),
    ("capacity_reserved", .bool execution.capacityReserved),
    ("result", (result.map (Results.ack binding)).getD .null),
    ("completion", completion),
    ("stop", stopped)]

/-- What an observer sees of a job without a claim. -/
def noClaim : List (String × Json) := [
  ("claim", .null), ("execution_state", .null), ("capacity_reserved", .bool false),
  ("result", .null), ("completion", .null), ("stop", .null)]

/-- `inspect`: an observation, which keeps nothing. -/
def inspect (issuer : Issuer) (request : HttpRequest) (jobId : String) (body : ClaimControl)
    (f : Fingerprints) (db : Db) : Commit := do
  let o ← observer issuer request jobId body f db
  let root : List (String × Json) := [
    ("schema", .str "vardr.managed-claim-observation/1"), ("origin", .str issuer.origin),
    ("job_id", .str jobId), ("runner_id", .str o.enrollment.runnerId),
    ("plan_sha256", .str f.planSha256), ("case_sha256", .str f.caseSha256),
    ("association_sha256", .str f.associationSha256)]
  match db.contractOf jobId, db.executions.get? jobId with
  | some contract, some execution =>
    let rest ← claimed issuer db o f contract execution
    return (db, .document (.obj (root ++ rest)))
  | contract, execution =>
    unclaimed db o contract execution
    return (db, .document (.obj (root ++ noClaim)))

end Observations

end VardrMap
