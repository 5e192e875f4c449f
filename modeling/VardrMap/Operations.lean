import VardrMap.AuthorityRecords
import VardrMap.ManagedObservations

/-!
# Operations and runs

Every request that the model answers, as one operation with its arguments, its clock
readings and the identifiers it draws. An operation is one transaction that commits or is
rolled back; a managed one also records its clock outside that transaction. A run applies
operations one after the other.
-/
namespace VardrMap
open Lib Wire

/-- The platform with the issuer's configuration. -/
structure Runtime extends Platform where
  origin : String
  wire : ContractWire

def Runtime.issuer (rt : Runtime) : Issuer := ⟨rt.origin, rt.wire, rt.identity⟩

/-- The requests of the engagement routes and of the records under an engagement. -/
inductive EngagementOp where
  | create (c : EngagementCreate)
  | update (programId : String) (u : EngagementUpdate)
  | delete (programId : String)
  | configureDuration (programId : String) (limit : Option ℕ)
  | configureTargets (programId : String) (limit : Option ℕ)
  | configureConcurrency (programId : String) (limit : Option ℕ)
  | engageStopWork (programId : String)
  | releaseStopWork (programId : String)
  | addInScopeItem (programId id value : String) (kind : Option String)
  | addOutScopeItem (programId id value : String) (kind : Option String)
  | deleteScopeItem (programId scopeType itemId : String)
  | importScope (programId : String) (rows : List ImportRow) (commit : Bool)
  | createAuthorization (programId : String) (c : AuthorizationCreate)
  | updateAuthorization (programId authorizationId : String) (u : AuthorizationUpdate)
  | createProposal (programId id : String) (change : ProposedChange)
  | approveProposal (programId proposalId newId : String)
  | rejectProposal (programId proposalId : String)
  | createTestCase (programId : String) (c : TestCaseCreate)
  | saveReviewedCases (programId : String) (cases : List TestCaseCreate)
  | updateTestCase (programId testCaseId : String) (name : Option String) (spec : Option Json)
  | deleteTestCase (programId testCaseId : String)

/-- The requests of the job routes. -/
inductive JobOp where
  | create (programId : String) (c : JobCreate)
  | pipeline (programId : String) (stages : List JobCreate)
  | pending
  | update (jobId : String) (body : JobStatusUpdate)
  | claim (jobId : String) (body : Option ClaimControl) (token : String)
  | status (jobId : String)
  | control (jobId : String) (body : ControlRequest)
  | finish (jobId : String) (body : ControlRequest) (outcome : Finish)
  | delete (jobId : String)
  | upload (jobId : String) (upload : GateUpload)

/-- The operations of the issuer, the results, the stops and the observations. -/
inductive ManagedOp where
  | review (jobId : String) (r : Issuer.ReviewRequest)
  | register (r : Issuer.Registration)
  | revoke (jobId : String)
  | claim (jobId : String) (body : ClaimControl) (ids : Issuer.ClaimIds)
  | current (jobId : String) (body : ControlRequest) (ref : AttemptRef)
  | refresh (jobId : String) (body : ControlRequest) (ref : AttemptRef)
  | consume (jobId : String) (body : ControlRequest) (ref : AttemptRef) (contractSha256 : String)
  | submit (jobId : String) (body : ControlRequest) (r : Report) (a : Results.Artifact)
  | finish (jobId : String) (body : ControlRequest) (r : Report) (receiptSha256 outcome : String)
      (terminationConfirmed : Bool)
  | inspectResult (jobId : String) (body : ControlRequest) (r : Report)
  | report (jobId : String) (body : ControlRequest) (r : Report) (outcome cause : String)
      (terminationConfirmed : Bool)
  | inspectStop (jobId : String) (body : ControlRequest) (r : Report)
  | observe (jobId : String) (body : ClaimControl) (f : Observations.Fingerprints)

/-- What is provisioned outside these routes: memberships, API keys and enrollments. -/
structure Provision where
  members : List EngagementMember
  orgMembers : List OrganizationMember
  apiKeys : Table ApiKey
  enrollments : Table ManagedEnrollment

/-- What an operation does. -/
inductive Call where
  | engagement (op : EngagementOp)
  | job (op : JobOp)
  | managed (op : ManagedOp)
  | provision (p : Provision)

/-- An operation: the request that carries it and its clock readings. -/
structure Op where
  request : HttpRequest
  clocks : Clocks
  call : Call

/-- Commit a transaction, or roll it back. -/
def settle (db : Db) : Commit → Db × Except Refusal Reply
  | .ok (db, reply) => (db, .ok reply)
  | .error e => (db, .error e)

variable [Unicode]

/-- The transaction of an engagement request. -/
def EngagementOp.run (rt : Runtime) (request : HttpRequest) (clocks : Clocks) (db : Db) :
    EngagementOp → Commit
  | create c => createEngagement rt.toPlatform request c db
  | update id u => updateEngagement rt.toPlatform request id u db
  | delete id => deleteEngagement rt.toPlatform request id db
  | configureDuration id limit => VardrMap.configureDuration rt.toPlatform request id limit db
  | configureTargets id limit => VardrMap.configureTargets rt.toPlatform request id limit db
  | configureConcurrency id limit =>
    VardrMap.configureConcurrency rt.toPlatform request id limit db
  | engageStopWork id => VardrMap.engageStopWork rt.toPlatform clocks request id db
  | releaseStopWork id => VardrMap.releaseStopWork rt.toPlatform request id db
  | addInScopeItem id item value kind =>
    VardrMap.addInScopeItem rt.toPlatform request id item value kind db
  | addOutScopeItem id item value kind =>
    VardrMap.addOutScopeItem rt.toPlatform request id item value kind db
  | deleteScopeItem id scopeType item =>
    VardrMap.deleteScopeItem rt.toPlatform request id scopeType item db
  | importScope id rows commit => VardrMap.importScope rt.toPlatform request id rows commit db
  | createAuthorization id c => VardrMap.createAuthorization rt.toPlatform request id c db
  | updateAuthorization id auth u =>
    VardrMap.updateAuthorization rt.toPlatform request id auth u db
  | createProposal id proposal change =>
    VardrMap.createProposal rt.toPlatform request id proposal change db
  | approveProposal id proposal newId =>
    VardrMap.approveProposal rt.toPlatform clocks request id proposal newId db
  | rejectProposal id proposal =>
    VardrMap.rejectProposal rt.toPlatform clocks request id proposal db
  | createTestCase id c => VardrMap.createTestCase rt.toPlatform clocks request id c db
  | saveReviewedCases id cases =>
    VardrMap.saveReviewedCases rt.toPlatform clocks request id cases db
  | updateTestCase id case name spec =>
    VardrMap.updateTestCase rt.toPlatform request id case name spec db
  | deleteTestCase id case => VardrMap.deleteTestCase rt.toPlatform request id case db

/-- The transaction of a job request. The refusal of a late completion is committed too. -/
def JobOp.run (rt : Runtime) (request : HttpRequest) (clocks : Clocks) (db : Db) :
    JobOp → Db × Except Refusal Reply
  | create id c => settle db (createJob rt.toPlatform clocks request id c db)
  | pipeline id stages => settle db (createPipeline rt.toPlatform clocks request id stages db)
  | pending => settle db (pendingJobs rt.toPlatform clocks request db)
  | update id body => settle db (updateJob rt.toPlatform clocks request id body db)
  | claim id body token => settle db (claimJob rt.toPlatform clocks request id body token db)
  | status id => settle db (executionStatus rt.toPlatform clocks request id db)
  | control id body => settle db (refreshExecution rt.toPlatform clocks request id body db)
  | finish id body outcome =>
    match finishExecution rt.toPlatform clocks request id body outcome db with
    | .ok committed => committed
    | .error e => (db, .error e)
  | delete id => settle db (deleteJob rt.toPlatform request id db)
  | upload id file => settle db (uploadJobResult rt.toPlatform request id file db)

/-- The arguments of a managed operation that are checked before it is entered. -/
def ManagedOp.arguments : ManagedOp → Except Refusal Unit
  | consume _ _ ref contractSha256 => Issuer.consumeArguments ref.fence contractSha256
  | finish _ _ _ _ outcome confirmed => do
    let _ ← Results.finishArguments outcome confirmed
  | report _ _ _ outcome cause confirmed => Stops.reportArguments outcome cause confirmed
  | observe _ _ f => Observations.arguments f
  | _ => .ok ()

/-- The body of a managed operation, in its transaction. -/
def ManagedOp.body (rt : Runtime) (request : HttpRequest) (clocks : Clocks) (db : Db) :
    ManagedOp → Commit
  | review id r => rt.issuer.review clocks request id r db
  | register r => rt.issuer.register clocks request r db
  | revoke id => rt.issuer.revoke clocks request id db
  | claim id body ids => rt.issuer.claim clocks request id body ids db
  | current id body ref => rt.issuer.current clocks request id body ref db
  | refresh id body ref => rt.issuer.refresh clocks request id body ref db
  | consume id body ref sha => rt.issuer.consume clocks request id body ref sha db
  | submit id body r a => Results.submit rt.issuer rt.toPlatform clocks request id body r a db
  | finish id body r receipt outcome confirmed => do
    let outcome ← Results.finishArguments outcome confirmed
    Results.finish rt.issuer clocks request id body r receipt outcome db
  | inspectResult id body r => Results.inspect rt.issuer request id body r db
  | report id body r _ cause _ => Stops.report rt.issuer clocks request id body r cause db
  | inspectStop id body r => Stops.inspect rt.issuer request id body r db
  | observe id body f => Observations.inspect rt.issuer request id body f db

/-- A managed operation inside its clock observations. -/
def ManagedOp.run (rt : Runtime) (request : HttpRequest) (clocks : Clocks) (db : Db)
    (op : ManagedOp) : Db × Except Refusal Reply :=
  match op.arguments with
  | .ok () => operation clocks db fun db => op.body rt request clocks db
  | .error e => (db, .error e)

/-- What an operation commits, and what its caller gets. -/
def exec (rt : Runtime) (op : Op) (db : Db) : Db × Except Refusal Reply :=
  match op.call with
  | .engagement e => settle db (e.run rt op.request op.clocks db)
  | .job j => j.run rt op.request op.clocks db
  | .managed m => m.run rt op.request op.clocks db
  | .provision p =>
    ({ db with
      members := p.members
      orgMembers := p.orgMembers
      apiKeys := p.apiKeys
      enrollments := p.enrollments }, .ok .stored)

/-- The database after a run. -/
def after (rt : Runtime) (ops : List Op) (db : Db) : Db :=
  ops.foldl (fun db op => (exec rt op db).1) db

/-- A database that some run reaches from an empty one. -/
def Reachable (rt : Runtime) (db : Db) : Prop := ∃ ops, db = after rt ops .empty

@[simp] theorem after_nil (rt : Runtime) (db : Db) : after rt [] db = db := rfl

@[simp] theorem after_cons (rt : Runtime) (op : Op) (ops : List Op) (db : Db) :
    after rt (op :: ops) db = after rt ops (exec rt op db).1 := rfl

theorem after_append (rt : Runtime) (ops ops' : List Op) (db : Db) :
    after rt (ops ++ ops') db = after rt ops' (after rt ops db) := by
  rw [after, List.foldl_append]
  rfl

theorem Reachable.empty (rt : Runtime) : Reachable rt .empty := ⟨[], rfl⟩

theorem Reachable.after {rt : Runtime} {db : Db} (h : Reachable rt db) (ops : List Op) :
    Reachable rt (after rt ops db) := by
  obtain ⟨before, rfl⟩ := h
  exact ⟨before ++ ops, (after_append rt before ops .empty).symm⟩

theorem Reachable.step {rt : Runtime} {db : Db} (h : Reachable rt db) (op : Op) :
    Reachable rt (exec rt op db).1 := h.after [op]

/-! ## An example

One engagement with one gate job under a managed approval that ends five seconds after it
was given, and the requests of its owner and of the runner enrolled for it.
-/

/-- Some microseconds after 08:00 on 29 November 2025. -/
def exampleTime (t : ℕ) (h : 63900000000000000 + t < maxWall := by decide) : DateTime :=
  ⟨63900000000000000 + t, some 0, h⟩

/-- Clocks that stand still. -/
def exampleClocks : Clocks where
  anchor := exampleTime 0
  entered := 0
  wall _ := exampleTime 0
  monotonic _ := 0
  control _ := 63900000000000000

def examplePlatform : Platform where
  identity := {
    configured := true
    resolveSession _ := .ok ⟨"u1", "full", some "local"⟩
    resolveJwt _ := .error (.http 401 "Unauthorized") }
  storedDate := id
  validateSpec c := .ok c
  resolveTargets _ _ := []
  parseUpload _ := .ok ⟨"hash", "c1", [], .null⟩
  payloadHashes _ := .ok ("payload", "payload")
  fileResult _ _ _ := .ok ⟨.null, 0, 1⟩

/-- A wire that keeps envelopes as they are and believes every signature. -/
def exampleWire : ContractWire where
  issuerId := "map-1"
  keyId := "key-1"
  operators := [⟨"operator-1", "key-9", "u1", "public", false⟩]
  decode := .ok
  verify _ _ _ := true
  encode := String.ofList
  sign _ := "signature"

def exampleRuntime : Runtime :=
  { examplePlatform with origin := "https://map.example.org", wire := exampleWire }

/-- A request in the owner's session. -/
def bySession (call : Call) : Op := ⟨⟨none, some "owner"⟩, exampleClocks, call⟩

/-- A request with the key of the enrolled runner. -/
def byRunner (call : Call) : Op := ⟨⟨some "Bearer vmap_k1", none⟩, exampleClocks, call⟩

def exampleRequest : Json :=
  .obj [("url", .str "https://app.example.com/"), ("method", .str "GET")]

def exampleSpec : Json := .obj [("id", .str "c1"), ("request", exampleRequest)]

def exampleCaseHash : String :=
  "d5d5b8d0b84228816490bede545347433e1ece31053d9fdb7cda9eeec6559ebd"

def examplePlan : Json :=
  .obj [
    ("schema", .str "vardr.execution-plan/1"),
    ("profile", .str "gate-fixed-http/1"),
    ("case_hash", .str exampleCaseHash),
    ("dispatches", .arr [.obj [("request", exampleRequest)]]),
    ("max_http_dispatches", .int 1)]

/-- The runner's key and its enrollment. -/
def exampleProvision : Provision where
  members := []
  orgMembers := []
  apiKeys := .single ⟨"k1", "u1",
    "cc9090e611695fdd1f8b0315589a507f466eab0c1ffee3e07fba8bdad4d07636", "runner"⟩
  enrollments := .single ⟨"n1", "k1", "u1",
    "2d55c769570fa7952db6adf55a438b2c6d705e5dac3f5c771029e3df40f3578a", "r1",
    "https://map.example.org", 1, false⟩

/-- From nothing to a queued job that requires a contract. -/
def exampleSetup : List Op := [
  .provision exampleProvision,
  .engagement (.create ⟨"e1", "o1", "pentest", "active", none, none, none⟩),
  .engagement (.configureDuration "e1" (some 600)),
  .engagement (.configureTargets "e1" (some 10)),
  .engagement (.configureConcurrency "e1" (some 1)),
  .engagement (.addInScopeItem "e1" "s1" "app.example.com" (some "domain")),
  .engagement (.createAuthorization "e1" ⟨"a1", "", "", "", none, none, none⟩),
  .engagement (.createTestCase "e1" ⟨"c1", "case", exampleSpec⟩),
  .job (.create "e1" ⟨"j1", gateTool, "scope", .obj [("test_case_id", .str "c1")], none,
    true⟩)].map bySession

/-- The context that a review of the job gives. -/
def exampleContext : Json :=
  .obj [
    ("runner_id", .str "r1"),
    ("engagement_id", .str "e1"),
    ("job_id", .str "j1"),
    ("authority_revision", .int 5),
    ("authority_sha256",
      .str "3c42a9f759a8bf7198ca9a70485c3c9cb11fa2b70a0ff9a5b4cd1c8aea1f9ac7"),
    ("plan_sha256", .str "32885a8fc365330ab67bf3c32086ff6848dbfecc313b9998272e0d078519e62a"),
    ("mode", .str "strict"),
    ("scope", .arr [.obj [
      ("origin", .str "https://app.example.com:443"),
      ("path", .str "/"),
      ("method", .str "GET"),
      ("excluded", .bool false),
      ("reason", .str "")]]),
    ("exceptions", .arr []),
    ("not_before", .str "2025-11-29T08:00:00Z"),
    ("expires_at", .str "2025-11-29T08:00:05Z"),
    ("testing_start", .str "2025-11-29T08:00:00Z"),
    ("testing_end", .str "2025-11-29T08:00:05Z"),
    ("max_executions", .int 1),
    ("max_duration_seconds", .int 60),
    ("max_http_dispatches", .int 1),
    ("max_artifact_bytes", .int 1000),
    ("credential_grants", .arr []),
    ("control", .str "managed_online")]

/-- The signed approval of the owner. -/
def exampleApproval : Json :=
  .obj [
    ("format", .str "vardr.authorization-envelope/1"),
    ("purpose", .str "approval"),
    ("payload", .obj [
      ("schema", .str "vardr.execution-approval/1"),
      ("issuer", .obj [("id", .str "operator-1"), ("key_id", .str "key-9")]),
      ("origin", .str "map"),
      ("approval_id", .str "ap-1"),
      ("approver_id", .str "u1"),
      ("approved_at", .str "2025-11-29T08:00:00Z"),
      ("context", exampleContext)]),
    ("signature", .str "signature")]

def exampleBody : ClaimControl where
  runnerId := "r1"
  origin := "https://map.example.org"
  concurrencyBudget := true
  targetBinding := some ⟨"gate-fixed-http/1", exampleCaseHash, ["https://app.example.com:443"]⟩
  durationSeconds := some 30

def exampleIds : Issuer.ClaimIds := ⟨"token-1", "contract-1", "attempt-1"⟩

def exampleRegister : Op := bySession (.managed (.register ⟨"j1", "n1", "a1", examplePlan,
  exampleApproval⟩))

def exampleClaim : Op := byRunner (.managed (.claim "j1" exampleBody exampleIds))

/-- The registered approval. -/
def exampleRow : ManagedApproval where
  id := "map-1:ap-1"
  issuer := "map-1"
  approvalId := "ap-1"
  jobId := "j1"
  engagementId := "e1"
  enrollmentId := "n1"
  authorizationId := "a1"
  revision := 5
  owner := "u1"
  envelope := exampleApproval
  plan := examplePlan
  context := exampleContext
  authoritySnapshot := .obj [
    ("schema", .str "vardr.map-managed-authority/1"),
    ("origin", .str "https://map.example.org"),
    ("authority_revision", .int 5),
    ("authority", .obj [
      ("authorization", .obj [
        ("id", .str "a1"), ("status", .str "active"), ("permits", .str ""),
        ("authorized_by", .str ""), ("reference", .str ""), ("window_start", .null),
        ("window_end", .null)]),
      ("scope", .arr [.obj [
        ("value", .str "app.example.com"), ("kind", .str "domain"), ("scope_type", .str "in")]]),
      ("engagement_id", .str "e1")]),
    ("owner", .str "u1"),
    ("engagement_type", .str "pentest"),
    ("engagement_status", .str "active"),
    ("limits", .obj [("concurrency", .int 1), ("targets", .int 10), ("duration", .int 600)]),
    ("enrollment", .obj [
      ("id", .str "n1"), ("revision", .int 1), ("api_key_id", .str "k1"),
      ("principal_sha256",
        .str "2d55c769570fa7952db6adf55a438b2c6d705e5dac3f5c771029e3df40f3578a"),
      ("runner_id", .str "r1")])]
  issued := 0
  revoked := false

/-- The example once its approval is registered. -/
def exampleApproved : Db :=
  { Db.empty with
    ids := ["j1", "c1", "a1", "s1", "e1"]
    engagements := .single {
      id := "e1", ownerGithubId := "u1", orgId := some "o1", engagementType := some "pentest"
      engagementStatus := some "active", startsAt := none, endsAt := none, stopWorkAt := none
      maxRequestRate := none, concurrencyLimit := some 1, targetLimit := some 10
      targetsSpent := 0, durationLimit := some 600, durationAllocated := 0
      managedAuthorityRevision := 5 }
    orgMembers := [⟨"o1", "u1", "owner"⟩]
    authorizations := .single ⟨"a1", "e1", "", "", none, "", none, none, "active"⟩
    scopeItems := .single ⟨"s1", "e1", "in", "app.example.com", some "domain"⟩
    testCases := .single ⟨"c1", "e1", "case", "c1", exampleSpec, 63900000000000000⟩
    jobs := .single {
      id := "j1", programId := "e1", toolType := gateTool, targetSource := "scope"
      config := .obj [("test_case_id", .str "c1")], caseSnapshot := .null
      managedApprovalId := some "map-1:ap-1", authorizationContractRequired := true
      assessment := .null, status := .pending, dependsOn := none
      createdAt := 63900000000000000, startedAt := none, completedAt := none
      errorMessage := "" }
    apiKeys := exampleProvision.apiKeys
    enrollments := exampleProvision.enrollments
    approvals := .single exampleRow
    observed := some 63900000000000000 }

end VardrMap
