import VardrMap.Deps
import VardrMap.Policy

/-!
# Owned executions

A claim may ask for control: the job then gets one execution row, owned by the API key and
the runner that claimed it, with a token and a short lease. Every later call of the runner
is checked against that row under the lock of the engagement and the job.
-/
namespace VardrMap
open Lib

/-- `TargetBinding`. -/
structure TargetBinding where
  profile : String
  caseSha256 : String
  origins : List String
  deriving DecidableEq

/-- `TargetBinding.model_dump`. -/
def TargetBinding.document (b : TargetBinding) : Json :=
  .obj [("profile", .str b.profile), ("case_sha256", .str b.caseSha256),
    ("origins", .arr (b.origins.map Json.str))]

/-- `ClaimControl`. -/
structure ClaimControl where
  runnerId : String
  origin : String
  concurrencyBudget : Bool
  targetBinding : Option TargetBinding
  durationSeconds : Option ℕ

/-- `ControlRequest`. -/
structure ControlRequest extends ClaimControl where
  token : String

/-- What a charge against the target limit returns. -/
structure TargetReceipt where
  binding : TargetBinding
  charged : ℕ
  spent : ℕ
  limit : ℕ

/-- What an allocation against the duration limit returns. -/
structure DurationReceipt where
  allocatedSeconds : ℕ
  totalAllocatedSeconds : ℕ
  limitSeconds : ℕ

/-- What a claim with control returns. -/
structure Capability where
  jobId : String
  runnerId : String
  origin : String
  token : String
  leaseSeconds : ℕ
  capacityReserved : Bool
  targetBudget : Option TargetReceipt
  durationBudget : Option DurationReceipt

/-- The clock readings of one operation: the anchor and monotonic reading of its entry, and
the readings taken after it, in order. `monotonic` counts microseconds; `control` is the
clock of the execution control. -/
structure Clocks where
  anchor : DateTime
  entered : ℤ
  wall : ℕ → DateTime
  monotonic : ℕ → ℤ
  control : ℕ → Instant

/-- `LEASE_SECONDS`. -/
def leaseSeconds : ℕ := 10

/-- A duration in seconds as microseconds. -/
def seconds (n : ℤ) : ℤ := n * 1000000

def notFound : Refusal := .http 404 "Not Found"

/-- `lock_job`: the job, when the caller can reach its engagement. -/
def lockJob (db : Db) (jobId : String) (user : User) : Except Refusal ScanJob :=
  found ((db.jobs.get? jobId).filter fun j =>
    (db.engagements.get? j.programId).any (accessible db user.githubId)) notFound

/-- `principal`: the digest of the API key header. -/
def principal (request : HttpRequest) : Except Refusal String :=
  if request.hasApiKey then .ok (Sha256.ofText request.header)
  else .error (.http 403 "controlled execution requires an API key")

/-- `issue`: the execution row of a claim, and what the caller gets of it. -/
def issue (jobId : String) (user : User) (request : HttpRequest) (body : ClaimControl)
    (token : String) (now : Instant) (targets : Option TargetReceipt)
    (duration : Option DurationReceipt) : Except Refusal (JobExecution × Capability) := do
  let principalHash ← principal request
  return ({
      jobId
      runnerId := body.runnerId
      origin := body.origin
      owner := user.githubId
      principalHash
      tokenHash := Sha256.ofText token.toList
      expiresAt := now + seconds leaseSeconds
      state := .active
      capacityReserved := body.concurrencyBudget
      targetCharge := (targets.map TargetReceipt.charged).getD 0
      targetBinding := (targets.map fun r => r.binding.document).getD .null
      durationSeconds := (duration.map DurationReceipt.allocatedSeconds).getD 0 }, {
      jobId
      runnerId := body.runnerId
      origin := body.origin
      token
      leaseSeconds
      capacityReserved := body.concurrencyBudget
      targetBudget := targets
      durationBudget := duration })

/-- `owned`: the execution of the job, when the caller holds its key, runner and token. -/
def owned (db : Db) (jobId : String) (user : User) (request : HttpRequest)
    (body : ControlRequest) : Except Refusal JobExecution := do
  let _ ← lockJob db jobId user
  let row ← found (db.executions.get? jobId) notFound
  ensure (row.owner == user.githubId && row.runnerId == body.runnerId &&
    row.origin == body.origin) notFound
  let principalHash ← principal request
  ensure (row.principalHash == principalHash &&
    row.tokenHash == Sha256.ofText body.token.toList) notFound
  return row

/-! ## Replies -/

/-- What a control request tells the runner to do. -/
inductive Action where
  | proceed
  | cancel
  deriving DecidableEq

/-- What an operation returns: a stored row or a fixed message, a document, or the answer of
a claim, a control request, a status request or a finalization. -/
inductive Reply where
  | stored
  | document (value : Json)
  | claimed (capability : Option Capability) (authorization : Json)
      (warning : Option Policy.PolicyDecision)
  | control (jobId runnerId origin : String) (action : Action) (leaseSeconds : ℕ)
  | status (jobId runnerId origin : String) (state : ExecutionState) (status : JobStatus)
      (terminationConfirmed : Bool)
  | finalized (state : ExecutionState)

/-- The database an operation commits, and its reply. -/
abbrev Commit := Except Refusal (Db × Reply)

theorem lockJob_eq_ok {db : Db} {jobId : String} {user : User} {job : ScanJob}
    (h : lockJob db jobId user = .ok job) : db.jobs.get? jobId = some job ∧
      ∃ e, db.engagements.get? job.programId = some e := by
  have hf := found_eq_ok h
  rw [Option.filter_eq_some_iff] at hf
  refine ⟨hf.1, ?_⟩
  cases he : db.engagements.get? job.programId with
  | none => simp [he] at hf
  | some e => exact ⟨e, rfl⟩

theorem owned_eq_ok {db : Db} {jobId : String} {user : User} {request : HttpRequest}
    {body : ControlRequest} {row : JobExecution}
    (h : owned db jobId user request body = .ok row) : db.executions.get? jobId = some row ∧
      ∃ job, lockJob db jobId user = .ok job := by
  unfold owned at h
  obtain ⟨job, hjob, h⟩ := bind_eq_ok h
  obtain ⟨row', hrow, h⟩ := bind_eq_ok h
  obtain ⟨_, -, h⟩ := bind_eq_ok h
  obtain ⟨hash, -, h⟩ := bind_eq_ok h
  obtain ⟨_, -, h⟩ := bind_eq_ok h
  obtain rfl := Except.ok.inj h
  exact ⟨found_eq_ok hrow, job, hjob⟩

/-- The row of a claim is active, reserves what the body asks for, and carries the charges
of its receipts. -/
theorem issue_eq_ok {jobId : String} {user : User} {request : HttpRequest}
    {body : ClaimControl} {token : String} {now : Instant} {targets : Option TargetReceipt}
    {duration : Option DurationReceipt} {row : JobExecution} {capability : Capability}
    (h : issue jobId user request body token now targets duration = .ok (row, capability)) :
    row.jobId = jobId ∧ row.state = .active ∧ row.capacityReserved = body.concurrencyBudget ∧
      capability.targetBudget = targets ∧ capability.durationBudget = duration := by
  unfold issue at h
  obtain ⟨hash, -, h⟩ := bind_eq_ok h
  obtain ⟨rfl, rfl⟩ := Prod.mk.inj (Except.ok.inj h)
  exact ⟨rfl, rfl, rfl, rfl, rfl⟩

end VardrMap
