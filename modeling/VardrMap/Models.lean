import VardrMap.Lib.Table
import VardrMap.Lib.Sha256
import VardrMap.Lib.Time
import VardrMap.Lib.Fallible

/-!
# The stored records

One structure per database table, with the columns the modelled functions read or write.
Enumerated columns are inductive types; documents are decoded JSON; the naive UTC
columns of executions, results and the managed clock are microseconds.
-/
namespace VardrMap
open Lib

/-- A naive UTC time in microseconds. -/
abbrev Instant := ℤ

/-- The columns of an engagement that authority and budgets read. -/
structure Engagement where
  id : String
  ownerGithubId : String
  orgId : Option String
  engagementType : Option String
  engagementStatus : Option String
  startsAt : Option DateTime
  endsAt : Option DateTime
  stopWorkAt : Option Instant
  maxRequestRate : Option ℤ
  concurrencyLimit : Option ℕ
  targetLimit : Option ℕ
  targetsSpent : ℕ
  durationLimit : Option ℕ
  durationAllocated : ℕ
  managedAuthorityRevision : ℕ
  deriving DecidableEq

/-- A role on one engagement, by invitation. -/
structure EngagementMember where
  programId : String
  memberGithubId : String
  role : String
  deriving DecidableEq

/-- A role in an organization. -/
structure OrganizationMember where
  orgId : String
  githubId : String
  role : String
  deriving DecidableEq

structure Authorization where
  id : String
  programId : String
  permits : String
  authorizedBy : String
  authorizedAt : Option DateTime
  reference : String
  windowStart : Option DateTime
  windowEnd : Option DateTime
  status : String
  deriving DecidableEq

structure ScopeItem where
  id : String
  programId : String
  scopeType : String
  value : String
  kind : Option String
  deriving DecidableEq

/-- A change that an agent proposes, in its validated form. -/
inductive ProposedChange where
  | scope (scopeType value : String) (kind : Option String)
  | authorization (permits authorizedBy reference : String)
      (authorizedAt windowStart windowEnd : Option DateTime)
  | rateCeiling (rate : ℤ)
  deriving DecidableEq

inductive ProposalStatus where
  | pending
  | approved
  | rejected
  deriving DecidableEq

structure AgentProposal where
  id : String
  programId : String
  change : ProposedChange
  status : ProposalStatus
  appliedResourceId : String
  resolvedAt : Option Instant
  resolvedBy : String
  deriving DecidableEq

/-- A stored test case: the specification document. -/
structure AuthorizationTestCase where
  id : String
  programId : String
  name : String
  testCaseId : String
  spec : Json
  createdAt : Instant
  deriving DecidableEq

inductive JobStatus where
  | pending
  | running
  | done
  | failed
  deriving DecidableEq

/-- The tool type of authorization test jobs. -/
def gateTool : String := "vardrgate_api_test"

structure ScanJob where
  id : String
  programId : String
  toolType : String
  targetSource : String
  config : Json
  caseSnapshot : Json
  managedApprovalId : Option String
  authorizationContractRequired : Bool
  assessment : Json
  status : JobStatus
  dependsOn : Option String
  createdAt : Instant
  startedAt : Option Instant
  completedAt : Option Instant
  errorMessage : String
  deriving DecidableEq

inductive ExecutionState where
  | active
  | cancelRequested
  | uncertain
  | completed
  | failed
  | cancelled
  deriving DecidableEq

/-- The one owned execution of a job. -/
structure JobExecution where
  jobId : String
  runnerId : String
  origin : String
  owner : String
  principalHash : String
  tokenHash : String
  expiresAt : Instant
  state : ExecutionState
  capacityReserved : Bool
  targetCharge : ℕ
  targetBinding : Json
  durationSeconds : ℕ
  deriving DecidableEq

structure ApiKey where
  id : String
  githubId : String
  keyHash : String
  scope : String
  deriving DecidableEq

structure ManagedEnrollment where
  id : String
  apiKeyId : String
  owner : String
  principalHash : String
  runnerId : String
  origin : String
  revision : ℤ
  revoked : Bool
  deriving DecidableEq

structure ManagedApproval where
  id : String
  issuer : String
  approvalId : String
  jobId : String
  engagementId : String
  enrollmentId : String
  authorizationId : String
  revision : ℕ
  owner : String
  envelope : Json
  plan : Json
  context : Json
  authoritySnapshot : Json
  issued : ℕ
  revoked : Bool
  deriving DecidableEq

structure ManagedContract where
  id : String
  jobId : String
  approvalRecordId : String
  ordinal : ℕ
  attemptId : String
  fence : ℤ
  envelope : Json
  consumed : Bool
  deriving DecidableEq

/-- How an owned execution ended. -/
inductive Outcome where
  | completed
  | failed
  | cancelled
  deriving DecidableEq

/-- The execution state of an outcome. -/
def Outcome.state : Outcome → ExecutionState
  | completed => .completed
  | failed => .failed
  | cancelled => .cancelled

structure ManagedResult where
  contractId : String
  jobId : String
  attemptId : String
  fence : ℤ
  contractSha256 : String
  artifactSha256 : String
  caseSha256 : String
  receiptSha256 : String
  evidenceCreated : ℕ
  scanItemsCreated : ℕ
  preflightFailed : Bool
  outcome : Option Outcome
  finishedAt : Option Instant
  deriving DecidableEq

structure ManagedStop where
  contractId : String
  jobId : String
  attemptId : String
  fence : ℤ
  contractSha256 : String
  outcome : Outcome
  cause : String
  receiptSha256 : String
  finishedAt : Instant
  deriving DecidableEq

structure JobResultReceipt where
  jobId : String
  payloadHash : String
  scanItemsCreated : ℕ
  evidenceCreated : ℕ
  deriving DecidableEq

/-- An observed API operation. -/
structure ApiEndpoint where
  id : String
  programId : String
  method : String
  scheme : Option String
  host : String
  port : Option ℕ
  pathTemplate : String

/-- A captured request to an operation. -/
structure ApiExchange where
  id : String
  programId : String
  endpointId : String
  identityLabel : Option String
  responseStatus : Option ℤ
  parameterNames : Json

/-- A candidate finding of a scan. -/
structure ScanItem where
  id : String
  programId : String
  source : String
  status : Option String
  jobId : Option String

structure Evidence where
  id : String
  programId : String
  jobId : Option String
  caseId : Option String
  identityId : Option String
  observedOutcome : Option String
  expectedDecision : Option String
  contentHash : String
  collectedAt : Option Instant

instance : Keyed Engagement String := ⟨Engagement.id⟩
instance : Keyed Authorization String := ⟨Authorization.id⟩
instance : Keyed ScopeItem String := ⟨ScopeItem.id⟩
instance : Keyed AuthorizationTestCase String := ⟨AuthorizationTestCase.id⟩
instance : Keyed AgentProposal String := ⟨AgentProposal.id⟩
instance : Keyed ScanJob String := ⟨ScanJob.id⟩
instance : Keyed JobExecution String := ⟨JobExecution.jobId⟩
instance : Keyed ApiKey String := ⟨ApiKey.id⟩
instance : Keyed ManagedEnrollment String := ⟨ManagedEnrollment.id⟩
instance : Keyed ManagedApproval String := ⟨ManagedApproval.id⟩
instance : Keyed ManagedContract String := ⟨ManagedContract.id⟩
instance : Keyed ManagedResult String := ⟨ManagedResult.contractId⟩
instance : Keyed ManagedStop String := ⟨ManagedStop.contractId⟩
instance : Keyed JobResultReceipt String := ⟨JobResultReceipt.jobId⟩
instance : Keyed ApiEndpoint String := ⟨ApiEndpoint.id⟩
instance : Keyed ApiExchange String := ⟨ApiExchange.id⟩
instance : Keyed ScanItem String := ⟨ScanItem.id⟩
instance : Keyed Evidence String := ⟨Evidence.id⟩

/-- The tables. `observed` is the single row of the managed clock; `ids` are the
identifiers handed out so far, which are never handed out again. -/
structure Db where
  ids : List String
  engagements : Table Engagement
  members : List EngagementMember
  orgMembers : List OrganizationMember
  authorizations : Table Authorization
  scopeItems : Table ScopeItem
  testCases : Table AuthorizationTestCase
  proposals : Table AgentProposal
  jobs : Table ScanJob
  executions : Table JobExecution
  apiKeys : Table ApiKey
  enrollments : Table ManagedEnrollment
  approvals : Table ManagedApproval
  contracts : Table ManagedContract
  results : Table ManagedResult
  stops : Table ManagedStop
  receipts : Table JobResultReceipt
  observed : Option Instant
  deriving DecidableEq

/-- A database without rows. -/
def Db.empty : Db where
  ids := []
  engagements := .empty
  members := []
  orgMembers := []
  authorizations := .empty
  scopeItems := .empty
  testCases := .empty
  proposals := .empty
  jobs := .empty
  executions := .empty
  apiKeys := .empty
  enrollments := .empty
  approvals := .empty
  contracts := .empty
  results := .empty
  stops := .empty
  receipts := .empty
  observed := none

/-- The tables of what was observed. Authority never reads them. -/
structure Inventory where
  endpoints : Table ApiEndpoint
  exchanges : Table ApiExchange
  scanItems : Table ScanItem
  evidence : Table Evidence

/-- Why an operation refuses: an HTTP status, a fixed reason of the issuance and wire
boundary, a violated database constraint, the absence of a row that a query requires, or an
exception of the language. -/
inductive Refusal where
  | http (status : ℕ) (detail : String)
  | issuance (reason : String)
  | wire (reason : String)
  | integrity
  | noRow
  | raised (e : Exn)
  deriving DecidableEq

/-- Lift an exception of the language to a refusal. -/
def raise {α : Type} : Except Exn α → Except Refusal α
  | .ok a => .ok a
  | .error e => .error (.raised e)

/-- Refuse unless the condition holds. -/
def ensure (condition : Bool) (refusal : Refusal) : Except Refusal Unit :=
  if condition then .ok () else .error refusal

/-- What was looked up, refused when there is nothing. -/
def found {α : Type} (row : Option α) (refusal : Refusal) : Except Refusal α :=
  match row with
  | some a => .ok a
  | none => .error refusal

/-- The refusal of a step, if it has one. -/
def refusal? {α : Type} : Except Refusal α → Option Refusal
  | .ok _ => none
  | .error e => some e

theorem refusal?_eq_some {α : Type} {x : Except Refusal α} {e : Refusal} :
    refusal? x = some e ↔ x = .error e := by
  cases x <;> simp [refusal?]

theorem found_eq_ok {α : Type} {row : Option α} {refusal : Refusal} {a : α}
    (h : found row refusal = .ok a) : row = some a := by
  cases row with
  | some b => simpa [found] using h
  | none => simp [found] at h

theorem ensure_eq_ok {condition : Bool} {refusal : Refusal} {u : Unit}
    (h : ensure condition refusal = .ok u) : condition = true := by
  unfold ensure at h
  split at h
  · assumption
  · simp at h

theorem raise_eq_ok {α : Type} {x : Except Exn α} {a : α} (h : raise x = .ok a) : x = .ok a := by
  cases x with
  | ok b => simpa [raise] using h
  | error e => simp [raise] at h

theorem ensure_eq_ok_iff {condition : Bool} {refusal : Refusal} {u : Unit} :
    ensure condition refusal = .ok u ↔ condition = true := by
  refine ⟨ensure_eq_ok, ?_⟩
  rintro rfl
  rfl

end VardrMap
