import VardrMap.Jobs.Accepted
import VardrMap.ManagedResults.Accepted
import VardrMap.Lib.Runs

/-!
# What a transaction can change

Every committed transaction is a short sequence of changes. A change states exactly which
tables are written, and under which guards. The laws of the model are proved of changes
once, and hold of operations because each operation is such a sequence. A change emits the
charge of a claim and the job that it starts, the jobs that are queued, the job that gets an
approval, the job statuses that are set without an execution, and the first lease of a managed
execution.
-/
namespace VardrMap
open Lib

/-- What a change emits. -/
inductive Event where
  | charged (c : Charge)
  | moved (j : ScanJob) (status : JobStatus)
  | queued (j : ScanJob)
  | began (j : ScanJob)
  | bound (j : ScanJob)
  | leased (a : ManagedApproval) (j : ScanJob) (x : JobExecution)
  | provisioned

/-! ## The facts that a projection reads -/

/-- What a projection reads of an engagement and of its records. -/
structure AuthorityFacts where
  ownerGithubId : String
  engagementType : Option String
  engagementStatus : Option String
  stopWorkAt : Option Instant
  concurrencyLimit : Option ℕ
  targetLimit : Option ℕ
  durationLimit : Option ℕ
  scope : List ScopeItem
  authorizations : List Authorization

/-- The scope rows of an engagement. -/
def Db.scopeOf (db : Db) (id : String) : List ScopeItem :=
  db.scopeItems.rows.filter fun r => r.programId == id

/-- The authorization records of an engagement. -/
def Db.authorizationsOf (db : Db) (id : String) : List Authorization :=
  db.authorizations.rows.filter fun a => a.programId == id

/-- The facts of an engagement. -/
def Db.facts (db : Db) (e : Engagement) : AuthorityFacts where
  ownerGithubId := e.ownerGithubId
  engagementType := e.engagementType
  engagementStatus := e.engagementStatus
  stopWorkAt := e.stopWorkAt
  concurrencyLimit := e.concurrencyLimit
  targetLimit := e.targetLimit
  durationLimit := e.durationLimit
  scope := db.scopeOf e.id
  authorizations := db.authorizationsOf e.id

/-- The specification of a case, inside an engagement. -/
def Db.specOf (db : Db) (programId caseId : String) : Option Json :=
  ((db.testCases.get? caseId).filter fun c => c.programId == programId).map
    AuthorizationTestCase.spec

variable [Unicode]

/-- A case identifier that no later case can get: it was handed out, or has white space
around it. -/
def Db.Spent (db : Db) (caseId : String) : Prop :=
  caseId ∈ db.ids ∨ Text.strip caseId.toList ≠ caseId.toList

/-- A write of an engagement's facts. Its revision never falls, and rises unless they all stay
the same; the counters of the ledgers stay, and stop-work can only be released. Records of
other engagements are left alone. -/
structure Amends (db db' : Db) (e e' : Engagement) : Prop where
  stored : db.engagements.get? e.id = some e
  id_eq : e'.id = e.id
  targetsSpent_eq : e'.targetsSpent = e.targetsSpent
  durationAllocated_eq : e'.durationAllocated = e.durationAllocated
  stopWork : e'.stopWorkAt = e.stopWorkAt ∨ e'.stopWorkAt = none
  targets_le : e'.targetsSpent ≤ e'.targetLimit.getD 0 ∨ e'.targetLimit = e.targetLimit
  duration_le : e'.durationAllocated ≤ e'.durationLimit.getD 0 ∨ e'.durationLimit = e.durationLimit
  idle : db.reserved e.id = 0 ∨ e'.concurrencyLimit = e.concurrencyLimit
  revision_le : e.managedAuthorityRevision ≤ e'.managedAuthorityRevision
  facts_eq : e'.managedAuthorityRevision = e.managedAuthorityRevision → db'.facts e' = db.facts e
  others : ∀ id, id ≠ e.id →
    db'.scopeOf id = db.scopeOf id ∧ db'.authorizationsOf id = db.authorizationsOf id
  cases : ∀ id k, db.Spent k → db'.specOf id k ≠ db.specOf id k →
    id = e.id ∧ e.managedAuthorityRevision < e'.managedAuthorityRevision
  cases_known : ∀ k c, db'.testCases.get? k = some c →
    k ∈ db'.ids ∨ ∃ c, db.testCases.get? k = some c

/-- The engagement with stop-work engaged. -/
def Engagement.halted (e : Engagement) (now : Instant) : Engagement :=
  if e.stopWorkAt.isNone then { e with stopWorkAt := some now }.advance else e

/-! ## Changes -/

/-- A change of the database. The rows that managed operations read and wrote are those of
their own inversions. -/
inductive Change (rt : Runtime) : Db → List Event → Db → Prop
  /-- Tables that no law reads, more identifiers, and a later clock. -/
  | aside {db : Db} (members : List EngagementMember) (orgMembers : List OrganizationMember)
      (proposals : Table AgentProposal) (ids : List String) (observed : Option Instant)
      (known : db.ids ⊆ ids) :
      Change rt db [] { db with members, orgMembers, proposals, ids, observed }
  /-- A result of an unmanaged job is filed. -/
  | filed {db : Db} {j : ScanJob} {r : JobResultReceipt} {receipts : Table JobResultReceipt}
      (job : db.jobs.get? r.jobId = some j) (unmanaged : j.managed = false)
      (inserted : db.receipts.insert r = some receipts) : Change rt db [] { db with receipts }
  | provisioned {db : Db} (p : Provision) : Change rt db [.provisioned] { db with
      members := p.members
      orgMembers := p.orgMembers
      apiKeys := p.apiKeys
      enrollments := p.enrollments }
  /-- A new engagement. -/
  | engaged {db : Db} {e : Engagement} {engagements : Table Engagement} (fresh : e.id ∉ db.ids)
      (unspent : e.targetsSpent = 0 ∧ e.durationAllocated = 0)
      (stored : db.engagements.insert e = some engagements) :
      Change rt db [] { db.minted e.id with engagements }
  /-- An engagement without jobs is gone, with its records. -/
  | disengaged {db : Db} (id : String) (idle : ∀ k j, db.jobs.get? k = some j → j.programId ≠ id) :
      Change rt db [] { db with
        engagements := db.engagements.filter fun e => e.id != id
        authorizations := db.authorizations.filter fun a => a.programId != id
        scopeItems := db.scopeItems.filter fun r => r.programId != id
        testCases := db.testCases.filter fun c => c.programId != id }
  | dropped {db : Db} (keep : ScanJob → Bool) : Change rt db [] (db.dropJobs keep)
  /-- The facts of an engagement. -/
  | amended {db : Db} {e e' : Engagement} {scopeItems : Table ScopeItem}
      {authorizations : Table Authorization} {testCases : Table AuthorizationTestCase}
      {ids : List String} (known : db.ids ⊆ ids)
      (amends : Amends db { db with
        engagements := db.engagements.put e', scopeItems, authorizations, testCases, ids } e e') :
      Change rt db [] { db with
        engagements := db.engagements.put e', scopeItems, authorizations, testCases, ids }
  /-- Stop-work, with the executions of the engagement. -/
  | halted {db : Db} {e : Engagement} (now : Instant)
      (stored : db.engagements.get? e.id = some e) : Change rt db [] { db with
        engagements := db.engagements.put (e.halted now)
        executions := db.executions.map (db.halt e.id) (halt_jobId db e.id) }
  | queued {db : Db} {j : ScanJob} {jobs : Table ScanJob} (queued : Queued db j)
      (stored : db.jobs.insert j = some jobs) :
      Change rt db [.queued j] { db.minted j.id with jobs }
  /-- The progress of jobs, without their executions. -/
  | patched {db : Db} {jobs : Table ScanJob} {es : List Event}
      (rows : db.jobs.Rewrites (Patched db) jobs)
      (emits : ∀ k j j', db.jobs.get? k = some j → jobs.get? k = some j' →
        j'.status ≠ j.status → .moved j j'.status ∈ es)
      (moves : ∀ ev ∈ es, ∃ j status, ev = .moved j status) :
      Change rt db es { db with jobs }
  | held {db : Db} {x x' : JobExecution} (stored : db.executions.get? x.jobId = some x)
      (holds : Held db x x') : Change rt db [] (db.putExecution x')
  /-- The owner of an unmanaged job ended its execution. -/
  | finished {db : Db} {x : JobExecution} {j : ScanJob} (o : Outcome) (now : Instant)
      (message : String) (execution : db.executions.get? x.jobId = some x)
      (opened : x.state.final = false) (job : db.jobs.get? x.jobId = some j)
      (unmanaged : j.managed = false) :
      Change rt db [] ((db.putExecution (x.finish o)).putJob (j.finish o now message))
  /-- A claim of an unmanaged job. -/
  | claimed {db : Db} {jobId : String} {e e' : Engagement} {j running : ScanJob} {c : Charge}
      {executions : Table JobExecution} (claims : Claims db jobId e e' j running c executions) :
      Change rt db [.charged c, .began j] { db with
        engagements := db.engagements.put e'
        jobs := db.jobs.put running
        executions }
  | registered {db : Db} {clocks : Clocks} {r : Issuer.Registration} {i : Registered}
      (registers : Registers rt.issuer clocks r db i) : Change rt db [.bound i.job] { db with
        approvals := i.approvals
        jobs := db.jobs.put (i.bound rt.issuer r)
        observed := some i.locked.instant }
  | revoked {db : Db} {a : ManagedApproval} (stored : db.approvals.get? a.id = some a) :
      Change rt db [] { db with approvals := db.approvals.put { a with revoked := true } }
  | issued {db : Db} {clocks : Clocks} {request : HttpRequest} {jobId : String}
      {body : ClaimControl} {ids : Issuer.ClaimIds} {i : Issued}
      (issues : Issues rt.issuer clocks request jobId body ids db i) :
      Change rt db [.charged (chargeOf i.engagement i.targets i.duration), .began i.job,
        .leased i.approval i.running i.execution] (i.commit ids db)
  | renewed {db : Db} {clocks : Clocks} {request : HttpRequest} {jobId : String}
      {body : ControlRequest} {ref : AttemptRef} {r : Renewal}
      (renews : Renews rt.issuer clocks request jobId body ref db r) :
      Change rt db [] (db.putExecution (r.execution clocks))
  | consumed {db : Db} {clocks : Clocks} {request : HttpRequest} {jobId : String}
      {body : ControlRequest} {ref : AttemptRef} {sha : String} {l : Issuer.Live}
      {locked last : DateTime}
      (consumes : Consumes rt.issuer clocks request jobId body ref sha db l locked last) :
      Change rt db [] { db with
        contracts := db.contracts.put { l.contract with consumed := true } }
  | retained {db : Db} {clocks : Clocks} {request : HttpRequest} {jobId : String}
      {body : ControlRequest} {r : Report} {a : Results.Artifact} {o : OwnedReport}
      {row : ManagedResult} {assessment : Json} {receipts : Table JobResultReceipt}
      {results : Table ManagedResult} {observed : Option Instant}
      (reports : Reports rt.issuer request jobId body r db o)
      (inserted : db.results.insert row = some results)
      (retains : Results.Retains clocks r a db { db with
        receipts, results, observed
        jobs := db.jobs.put { o.job with assessment } } o row) :
      Change rt db [] { db with
        receipts, results, observed
        jobs := db.jobs.put { o.job with assessment } }
  | concluded {db : Db} {clocks : Clocks} {request : HttpRequest} {jobId : String}
      {body : ControlRequest} {r : Report} {outcome : Outcome} {o : OwnedReport}
      {row : ManagedResult} {i : ℕ} {locked : DateTime} {finishedAt : Instant}
      (reports : Reports rt.issuer request jobId body r db o)
      (stored : db.results.get? o.contract.id = some row)
      (concludes : Results.Concludes rt.issuer clocks request body outcome db { db with
        results := db.results.put { row with
          outcome := some outcome, finishedAt := some finishedAt }
        executions := db.executions.put (o.execution.finish outcome)
        jobs := db.jobs.put (o.job.finish outcome finishedAt outcome.errorMessage)
        observed := some locked.instant } o row i locked) :
      Change rt db [] { db with
        results := db.results.put { row with
          outcome := some outcome, finishedAt := some finishedAt }
        executions := db.executions.put (o.execution.finish outcome)
        jobs := db.jobs.put (o.job.finish outcome finishedAt outcome.errorMessage)
        observed := some locked.instant }
  | ended {db : Db} {clocks : Clocks} {request : HttpRequest} {jobId : String}
      {body : ControlRequest} {r : Report} {cause : String} {o : OwnedReport} {row : ManagedStop}
      {stops : Table ManagedStop} {observed : Option Instant}
      (reports : Reports rt.issuer request jobId body r db o)
      (known : Stops.causes.contains cause = true) (inserted : db.stops.insert row = some stops)
      (ends : Stops.Ends clocks r cause db { db with
        stops, observed
        executions := db.executions.put (o.execution.finish (Stops.outcomeOf cause))
        jobs := db.jobs.put { o.job with
          status := .failed, completedAt := some row.finishedAt, errorMessage := cause } } o row) :
      Change rt db [] { db with
        stops, observed
        executions := db.executions.put (o.execution.finish (Stops.outcomeOf cause))
        jobs := db.jobs.put { o.job with
          status := .failed, completedAt := some row.finishedAt, errorMessage := cause } }

/-- A sequence of changes. -/
abbrev Changes (rt : Runtime) := Lib.Run (Change rt)

end VardrMap
