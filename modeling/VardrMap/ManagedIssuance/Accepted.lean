import VardrMap.ManagedIssuance.Permission

/-!
# What the issuer accepted

One inversion per operation of the issuer: the rows that an accepted call read, the moments
at which it read the trusted clock, and the database it committed.
-/
namespace VardrMap
open Lib Policy Wire

/-! ## The clock -/

theorem observe_eq_ok {clocks : Clocks} {i : ℕ} {db db' : Db} (h : observe clocks i db = .ok db') :
    ∃ t, clocks.now i = .ok t ∧ db.observed.all (· ≤ t.instant) ∧
      db' = { db with observed := some t.instant } := by
  unfold observe at h
  obtain ⟨t, ht, h⟩ := bind_eq_ok h
  obtain ⟨_, hle, h⟩ := bind_eq_ok h
  exact ⟨t, ht, require_eq_ok hle, (Except.ok.inj h).symm⟩

theorem lockedTime_eq_ok {clocks : Clocks} {i : ℕ} {db db' : Db}
    (h : lockedTime clocks i db = .ok db') :
    ∃ t, clocks.now i = .ok t ∧ db.observed.any (· ≤ t.instant) ∧
      db' = { db with observed := some t.instant } := by
  unfold lockedTime at h
  obtain ⟨t, ht, h⟩ := bind_eq_ok h
  obtain ⟨_, hle, h⟩ := bind_eq_ok h
  exact ⟨t, ht, require_eq_ok hle, (Except.ok.inj h).symm⟩

theorem any_le_trans {o : Option Instant} {s t : Instant} (hs : o.any (· ≤ s))
    (ht : (some s).any (· ≤ t)) : o.any (· ≤ t) := by
  cases o with
  | none => simp at hs
  | some u =>
    simp only [Option.any_some, decide_eq_true_eq] at hs ht ⊢
    exact hs.trans ht

/-- The caller that an owned execution was checked against. -/
structure Owns (request : HttpRequest) (body : ControlRequest) (user : User)
    (x : JobExecution) : Prop where
  owner : x.owner = user.githubId
  runnerId : x.runnerId = body.runnerId
  origin : x.origin = body.origin
  principal : principal request = .ok x.principalHash
  token : x.tokenHash = Sha256.ofText body.token.toList

theorem owned_owns {db : Db} {jobId : String} {user : User} {request : HttpRequest}
    {body : ControlRequest} {x : JobExecution}
    (h : owned db jobId user request body = .ok x) : Owns request body user x := by
  unfold owned at h
  obtain ⟨job, -, h⟩ := bind_eq_ok h
  obtain ⟨row, -, h⟩ := bind_eq_ok h
  obtain ⟨_, hnames, h⟩ := bind_eq_ok h
  obtain ⟨hash, hhash, h⟩ := bind_eq_ok h
  obtain ⟨_, hsecret, h⟩ := bind_eq_ok h
  obtain rfl := Except.ok.inj h
  have hnames := ensure_eq_ok hnames
  have hsecret := ensure_eq_ok hsecret
  simp only [Bool.and_eq_true, beq_iff_eq] at hnames hsecret
  exact {
    owner := hnames.1.1
    runnerId := hnames.1.2
    origin := hnames.2
    principal := by rw [hhash, hsecret.1]
    token := hsecret.2 }

variable [Unicode]

/-- The approval was checked against a context at a reading of the clock. -/
def ApprovedAt (issuer : Issuer) (clocks : Clocks) (a : ManagedApproval) (context : Json)
    (i : ℕ) : Prop :=
  ∃ t payload, clocks.now i = .ok t ∧
    issuer.wire.approval a.envelope context a.owner t = .ok payload

omit [Unicode] in
theorem contractOf_eq_some {db : Db} {jobId : String} {c : ManagedContract}
    (h : db.contractOf jobId = some c) : c ∈ db.contracts.rows ∧ c.jobId = jobId := by
  have hfound := List.find?_some h
  exact ⟨List.mem_of_find?_eq_some h, by simpa using hfound⟩

/-! ## Reviews, registrations and revocations -/

/-- The rows of a first registration. -/
structure Registered where
  actor : User
  job : ScanJob
  enrollment : ManagedEnrollment
  receipt : Json
  result : Json
  engagement : Engagement
  approvals : Table ManagedApproval
  locked : DateTime

/-- The stored approval. -/
def Registered.row (i : Registered) (issuer : Issuer) (r : Issuer.Registration) :
    ManagedApproval :=
  issuer.approvalRow r i.job i.actor i.receipt i.result i.engagement.managedAuthorityRevision

/-- The job under its approval. -/
def Registered.bound (i : Registered) (issuer : Issuer) (r : Issuer.Registration) : ScanJob :=
  { i.job with
    managedApprovalId := some (i.row issuer r).id
    authorizationContractRequired := true }

/-- What a first registration established. -/
structure Registers (issuer : Issuer) (clocks : Clocks) (r : Issuer.Registration) (db : Db)
    (i : Registered) : Prop where
  job : db.jobs.get? r.jobId = some i.job
  status : i.job.status = .pending
  enrollment : db.enrollments.get? r.enrollmentId = some i.enrollment
  enrollment_owner : i.enrollment.owner = i.actor.githubId
  engagement : db.engagements.get? i.job.programId = some i.engagement
  projects : ∃ permission p raw f, Projects db i.job permission i.result
    i.engagement.managedAuthorityRevision p raw f ∧ p.actor = i.actor.githubId ∧
    p.authorizationId = r.authorizationId ∧ p.plan = r.plan ∧
    p.runnerId = i.enrollment.runnerId ∧ p.jobStatuses = [.pending]
  approvals : db.approvals.insert (i.row issuer r) = some i.approvals
  locked : clocks.now 3 = .ok i.locked
  advanced : db.observed.any (· ≤ i.locked.instant)
  approved : ∀ k ∈ [2, 4], ApprovedAt issuer clocks (i.row issuer r) (i.result.field "context") k

theorem reviewLocked_eq_ok {issuer : Issuer} {db : Db} {job : ScanJob} {actor : User}
    {enrollmentId authorizationId : String} {plan permission result : Json}
    (hjob : db.jobs.get? job.id = some job)
    (h : issuer.reviewLocked db job actor enrollmentId authorizationId plan permission =
      .ok result) :
    job.status = .pending ∧ ∃ row e p raw f, db.enrollments.get? enrollmentId = some row ∧
      row.owner = actor.githubId ∧ db.engagements.get? job.programId = some e ∧
      Projects db job permission result e.managedAuthorityRevision p raw f ∧
      p.actor = actor.githubId ∧ p.authorizationId = authorizationId ∧ p.plan = plan ∧
      p.runnerId = row.runnerId ∧ p.jobStatuses = [.pending] := by
  unfold Issuer.reviewLocked at h
  obtain ⟨_, hstatus, h⟩ := bind_eq_ok h
  obtain ⟨⟨row, key⟩, hrow, h⟩ := bind_eq_ok h
  dsimp only at h
  obtain ⟨e, he, h⟩ := bind_eq_ok h
  obtain ⟨hget, howner, -⟩ := enrollment_eq_ok hrow
  obtain ⟨p, raw, f, hp⟩ := projection_eq_ok hjob h
  exact ⟨by simpa using require_eq_ok hstatus, row, e, p, raw, f, hget, howner, found_eq_ok he, hp⟩

theorem review_eq_ok {issuer : Issuer} {clocks : Clocks} {request : HttpRequest}
    {jobId : String} {r : Issuer.ReviewRequest} {db db' : Db} {reply : Reply}
    (h : issuer.review clocks request jobId r db = .ok (db', reply)) : db' = db := by
  unfold Issuer.review at h
  obtain ⟨actor, -, h⟩ := bind_eq_ok h
  obtain ⟨job, -, h⟩ := bind_eq_ok h
  obtain ⟨t, -, h⟩ := bind_eq_ok h
  obtain ⟨notBefore, -, h⟩ := bind_eq_ok h
  obtain ⟨result, -, h⟩ := bind_eq_ok h
  exact ((Prod.mk.inj (Except.ok.inj h)).1).symm

/-- A registration changes nothing but the clock, or it stores the approval and binds the job
to it. -/
theorem register_eq_ok {issuer : Issuer} {clocks : Clocks} {request : HttpRequest}
    {r : Issuer.Registration} {db db' : Db} {reply : Reply}
    (h : issuer.register clocks request r db = .ok (db', reply)) :
    (∃ t : DateTime, db.observed.any (· ≤ t.instant) ∧
      db' = { db with observed := some t.instant }) ∨
    ∃ i, Registers issuer clocks r db i ∧ db' = { db with
      approvals := i.approvals
      jobs := db.jobs.put (i.bound issuer r)
      observed := some i.locked.instant } := by
  unfold Issuer.register at h
  obtain ⟨actor, -, h⟩ := bind_eq_ok h
  obtain ⟨job, hjob, h⟩ := bind_eq_ok h
  obtain ⟨hrow, -⟩ := lockJob_eq_ok hjob
  have hid : job.id = r.jobId := Table.key_of_get? hrow
  obtain ⟨payloadText, -, h⟩ := bind_eq_ok h
  obtain ⟨payload, -, h⟩ := bind_eq_ok h
  obtain ⟨context, -, h⟩ := bind_eq_ok h
  obtain ⟨t₁, -, h⟩ := bind_eq_ok h
  obtain ⟨receipt, -, h⟩ := bind_eq_ok h
  split at h
  · unfold Issuer.registerAgain at h
    obtain ⟨stored, -, h⟩ := bind_eq_ok h
    obtain ⟨given, -, h⟩ := bind_eq_ok h
    obtain ⟨_, -, h⟩ := bind_eq_ok h
    obtain ⟨_, -, h⟩ := bind_eq_ok h
    obtain ⟨db₂, hlocked, h⟩ := bind_eq_ok h
    obtain ⟨rfl, -⟩ := Prod.mk.inj (Except.ok.inj h)
    obtain ⟨t, -, hle, rfl⟩ := lockedTime_eq_ok hlocked
    exact .inl ⟨t, hle, rfl⟩
  · unfold Issuer.registerNew at h
    obtain ⟨permission, -, h⟩ := bind_eq_ok h
    obtain ⟨result, hresult, h⟩ := bind_eq_ok h
    dsimp only at h
    obtain ⟨t₂, ht₂, h⟩ := bind_eq_ok h
    obtain ⟨payload₂, hpayload₂, h⟩ := bind_eq_ok h
    obtain ⟨engagement, hengagement, h⟩ := bind_eq_ok h
    obtain ⟨approvals, happrovals, h⟩ := bind_eq_ok h
    obtain ⟨db₃, hlocked, h⟩ := bind_eq_ok h
    obtain ⟨t₃, ht₃, hle₃, rfl⟩ := lockedTime_eq_ok hlocked
    obtain ⟨t₄, ht₄, h⟩ := bind_eq_ok h
    obtain ⟨payload₄, hpayload₄, h⟩ := bind_eq_ok h
    obtain ⟨rfl, -⟩ := Prod.mk.inj (Except.ok.inj h)
    obtain ⟨hstatus, row, e, p, raw, f, henrollment, howner, he, hp⟩ :=
      reviewLocked_eq_ok (hid ▸ hrow) hresult
    have hengagement := found_eq_ok hengagement
    obtain rfl : e = engagement := Option.some.inj (he.symm.trans hengagement)
    refine .inr ⟨⟨actor, job, row, receipt, result, e, approvals, t₃⟩, {
      job := hrow
      status := hstatus
      enrollment := henrollment
      enrollment_owner := howner
      engagement := he
      projects := ⟨permission, p, raw, f, hp⟩
      approvals := found_eq_ok happrovals
      locked := ht₃
      advanced := hle₃
      approved := fun k hk => ?_ }, rfl⟩
    simp only [List.mem_cons, List.not_mem_nil, or_false] at hk
    rcases hk with rfl | rfl
    · exact ⟨t₂, payload₂, ht₂, hpayload₂⟩
    · exact ⟨t₄, payload₄, ht₄, hpayload₄⟩

theorem revoke_eq_ok {issuer : Issuer} {clocks : Clocks} {request : HttpRequest}
    {jobId : String} {db db' : Db} {reply : Reply}
    (h : issuer.revoke clocks request jobId db = .ok (db', reply)) :
    ∃ job a, ∃ t : DateTime, db.jobs.get? jobId = some job ∧ db.approvalOf job = some a ∧
      db.observed.any (· ≤ t.instant) ∧ db' = { db with
        approvals := db.approvals.put { a with revoked := true }
        observed := some t.instant } := by
  unfold Issuer.revoke at h
  obtain ⟨actor, -, h⟩ := bind_eq_ok h
  obtain ⟨job, hjob, h⟩ := bind_eq_ok h
  obtain ⟨a, ha, h⟩ := bind_eq_ok h
  obtain ⟨db₁, hlocked, h⟩ := bind_eq_ok h
  obtain ⟨rfl, -⟩ := Prod.mk.inj (Except.ok.inj h)
  obtain ⟨t, -, hle, rfl⟩ := lockedTime_eq_ok hlocked
  exact ⟨job, a, t, (lockJob_eq_ok hjob).1, (Option.filter_eq_some_iff.mp (found_eq_ok ha)).1,
    hle, rfl⟩

/-! ## Claims -/

/-- The rows of an accepted claim. -/
structure Issued where
  user : User
  job : ScanJob
  approval : ManagedApproval
  result : Json
  engagement : Engagement
  targets : Option TargetReceipt
  duration : Option DurationReceipt
  startedAt : DateTime
  execution : JobExecution
  capability : Capability
  envelope : Json
  executions : Table JobExecution
  contracts : Table ManagedContract
  locked : DateTime

/-- The engagement charged for a claim. -/
def Issued.charged (i : Issued) : Engagement :=
  { i.engagement with
    targetsSpent := i.engagement.targetsSpent + (i.targets.map TargetReceipt.charged).getD 0
    durationAllocated := i.engagement.durationAllocated +
      (i.duration.map DurationReceipt.allocatedSeconds).getD 0 }

/-- The claimed job. -/
def Issued.running (i : Issued) : ScanJob :=
  { i.job with
    status := .running
    startedAt := some i.startedAt.instant
    caseSnapshot := i.result.field "case" }

/-- The contract of a claim. -/
def Issued.contract (i : Issued) (ids : Issuer.ClaimIds) : ManagedContract where
  id := ids.contractId
  jobId := i.job.id
  approvalRecordId := i.approval.id
  ordinal := i.approval.issued + 1
  attemptId := ids.attemptId
  fence := 1
  envelope := i.envelope
  consumed := false

/-- The database that a claim commits. -/
def Issued.commit (i : Issued) (ids : Issuer.ClaimIds) (db : Db) : Db :=
  { db.minted ids.contractId with
    engagements := db.engagements.put i.charged
    jobs := db.jobs.put i.running
    executions := i.executions
    approvals := db.approvals.put { i.approval with issued := i.approval.issued + 1 }
    contracts := i.contracts
    observed := some i.locked.instant }

/-- What an accepted claim established. -/
structure Issues (issuer : Issuer) (clocks : Clocks) (request : HttpRequest) (jobId : String)
    (body : ClaimControl) (ids : Issuer.ClaimIds) (db : Db) (i : Issued) : Prop where
  user : getCurrentUser issuer.identity db request = .ok i.user
  job : db.jobs.get? jobId = some i.job
  status : i.job.status = .pending
  permitted : ∃ row p raw f, Permitted issuer db request i.job body [.pending] i.approval i.result
    row p raw f
  concurrencyBudget : body.concurrencyBudget = true
  durationSeconds : ∃ n, body.durationSeconds = some n
  engagement : db.engagements.get? i.job.programId = some i.engagement
  beforeClaim : beforeClaim db i.engagement (some body) = .ok ()
  charge : ∃ e, charge i.engagement i.job (Issuer.present (i.result.field "case")) (some body) =
    .ok (e, i.targets) ∧ allocate e (some body) = .ok (i.charged, i.duration)
  startedAt : clocks.now 3 = .ok i.startedAt
  issue : issue jobId i.user request body ids.token (clocks.control 0) i.targets i.duration =
    .ok (i.execution, i.capability)
  executions : db.executions.insert i.execution = some i.executions
  ordinal : ∃ j, i.approval.context.item "max_executions" = .ok j ∧
    ((i.approval.issued + 1 : ℕ) : ℤ) ≤ j.int?.getD 0
  first : db.contractOf jobId = none
  fresh : ids.contractId ∉ db.ids
  signed : ∃ t, clocks.now 4 = .ok t ∧ issuer.wire.issue i.approval.envelope
    (i.result.field "context") i.approval.owner t
    ⟨ids.contractId, ids.attemptId, 1, i.approval.issued + 1⟩ = .ok i.envelope
  contracts : db.contracts.insert (i.contract ids) = some i.contracts
  locked : clocks.now 5 = .ok i.locked
  advanced : db.observed.any (· ≤ i.locked.instant)
  approved : ∀ k ∈ [1, 4, 6], ApprovedAt issuer clocks i.approval (i.result.field "context") k

/-- A signed contract envelope rests on an approval of the context. -/
theorem issue_approved {wire : ContractWire} {envelope context contract : Json} {owner : String}
    {now : DateTime} {attempt : ContractWire.Attempt}
    (h : wire.issue envelope context owner now attempt = .ok contract) :
    ∃ payload, wire.approval envelope context owner now = .ok payload := by
  unfold ContractWire.issue at h
  obtain ⟨payload, hpayload, -⟩ := bind_eq_ok h
  exact ⟨payload, hpayload⟩

theorem claim_eq_ok {issuer : Issuer} {clocks : Clocks} {request : HttpRequest} {jobId : String}
    {body : ClaimControl} {ids : Issuer.ClaimIds} {db db' : Db} {reply : Reply}
    (h : issuer.claim clocks request jobId body ids db = .ok (db', reply)) :
    ∃ i, Issues issuer clocks request jobId body ids db i ∧ db' = i.commit ids db ∧
      ∃ document, reply = .claimed (some i.capability) document none := by
  unfold Issuer.claim at h
  obtain ⟨user, huser, h⟩ := bind_eq_ok h
  obtain ⟨job, hjob, h⟩ := bind_eq_ok h
  obtain ⟨hrow, -⟩ := lockJob_eq_ok hjob
  have hid : job.id = jobId := Table.key_of_get? hrow
  obtain ⟨_, hstatus, h⟩ := bind_eq_ok h
  obtain ⟨⟨approval, result⟩, hpermission, h⟩ := bind_eq_ok h
  obtain ⟨⟨row, p, raw, f, hpermitted⟩, t₁, payload₁, ht₁, hpayload₁⟩ :=
    claimPermission_eq_ok (hid ▸ hrow) hpermission
  dsimp only at h
  obtain ⟨_, hbudgets, h⟩ := bind_eq_ok h
  obtain ⟨db₂, hlocked, h⟩ := bind_eq_ok h
  obtain ⟨t₂, ht₂, hle₂, rfl⟩ := lockedTime_eq_ok hlocked
  obtain ⟨engagement, hengagement, h⟩ := bind_eq_ok h
  obtain ⟨_, hbefore, h⟩ := bind_eq_ok h
  dsimp only at h
  obtain ⟨⟨charged, targets⟩, hcharge, h⟩ := bind_eq_ok h
  obtain ⟨⟨allocated, duration⟩, hallocate, h⟩ := bind_eq_ok h
  obtain ⟨startedAt, hstarted, h⟩ := bind_eq_ok h
  obtain ⟨_, -, h⟩ := bind_eq_ok h
  obtain ⟨⟨execution, capability⟩, hissue, h⟩ := bind_eq_ok h
  dsimp only at h
  obtain ⟨executions, hexecutions, h⟩ := bind_eq_ok h
  obtain ⟨maximum, hmaximum, h⟩ := bind_eq_ok h
  obtain ⟨_, hordinal, h⟩ := bind_eq_ok h
  obtain ⟨_, hfirst, h⟩ := bind_eq_ok h
  obtain ⟨_, hmint, h⟩ := bind_eq_ok h
  obtain ⟨t₄, ht₄, h⟩ := bind_eq_ok h
  obtain ⟨envelope, henvelope, h⟩ := bind_eq_ok h
  obtain ⟨_, -, h⟩ := bind_eq_ok h
  obtain ⟨contracts, hcontracts, h⟩ := bind_eq_ok h
  obtain ⟨db₅, hlast, h⟩ := bind_eq_ok h
  obtain ⟨t₅, ht₅, hle₅, rfl⟩ := lockedTime_eq_ok hlast
  obtain ⟨t₆, ht₆, h⟩ := bind_eq_ok h
  obtain ⟨payload₆, hpayload₆, h⟩ := bind_eq_ok h
  obtain ⟨rfl, rfl⟩ := Prod.mk.inj (Except.ok.inj h)
  obtain ⟨payload₄, hpayload₄⟩ := issue_approved henvelope
  have hcharged := (charge_eq_ok hcharge).1
  have hallocated := (allocate_eq_ok hallocate).1
  subst hcharged hallocated
  unfold Issuer.budgets at hbudgets
  obtain ⟨_, hasks, hbudgets⟩ := bind_eq_ok hbudgets
  have hasks := require_eq_ok hasks
  simp only [Bool.and_eq_true, Option.isSome_iff_exists] at hasks
  have hmint := ensure_eq_ok hmint
  simp only [Bool.and_eq_true, Bool.not_eq_true', List.contains_eq_mem,
    decide_eq_false_iff_not] at hmint
  have hfirst := require_eq_ok hfirst
  let i : Issued := ⟨user, job, approval, result, engagement, targets, duration, startedAt,
    execution, capability, envelope, executions, contracts, t₅⟩
  have hcontract : i.contract ids = ⟨ids.contractId, jobId, approval.id, approval.issued + 1,
      ids.attemptId, 1, envelope, false⟩ := by
    rw [← hid]
    rfl
  refine ⟨i, {
    user := huser
    job := hrow
    status := by simpa using require_eq_ok hstatus
    permitted := ⟨row, p, raw, f, hpermitted⟩
    concurrencyBudget := hasks.1.1
    durationSeconds := hasks.2
    engagement := found_eq_ok hengagement
    beforeClaim := hbefore
    charge := ⟨_, hcharge, hallocate⟩
    startedAt := hstarted
    issue := hissue
    executions := found_eq_ok hexecutions
    ordinal := ⟨maximum, raise_eq_ok hmaximum, by simpa using require_eq_ok hordinal⟩
    first := Option.isNone_iff_eq_none.mp hfirst
    fresh := hmint.1
    signed := ⟨t₄, ht₄, henvelope⟩
    contracts := hcontract ▸ found_eq_ok hcontracts
    locked := ht₅
    advanced := any_le_trans hle₂ hle₅
    approved := ?_ }, rfl, ⟨_, rfl⟩⟩
  simp only [List.mem_cons, List.not_mem_nil, or_false, forall_eq_or_imp, forall_eq]
  exact ⟨⟨t₁, payload₁, ht₁, hpayload₁⟩, ⟨t₄, payload₄, ht₄, hpayload₄⟩,
    ⟨t₆, payload₆, ht₆, hpayload₆⟩⟩

/-! ## Live attempts -/

/-- What a live attempt established. -/
structure LiveAt (issuer : Issuer) (clocks : Clocks) (request : HttpRequest) (jobId : String)
    (body : ControlRequest) (ref : AttemptRef) (db : Db) (user : User) (l : Issuer.Live) :
    Prop where
  caller : getCurrentUser issuer.identity db request = .ok user
  execution : db.executions.get? jobId = some l.execution
  owns : Owns request body user l.execution
  job : db.jobs.get? jobId = some l.job
  contract : db.contractOf jobId = some l.contract
  ref : l.contract.ref = ref
  permitted : ∃ result row p raw f, Permitted issuer db request l.job body.toClaimControl
    [.running] l.approval result row p raw f ∧ l.permission = result.field "context"
  active : l.execution.state = .active
  unexpired : clocks.control 0 < l.execution.expiresAt
  approved : ∀ k ∈ [1, 3], ApprovedAt issuer clocks l.approval l.permission k

theorem live_eq_ok {issuer : Issuer} {clocks : Clocks} {request : HttpRequest} {jobId : String}
    {body : ControlRequest} {ref : AttemptRef} {db db' : Db} {l : Issuer.Live}
    (h : issuer.live clocks request jobId body ref db = .ok (db', l)) :
    ∃ user t, LiveAt issuer clocks request jobId body ref db user l ∧
      (clocks.now 2 = .ok t ∧ db.observed.any (· ≤ t.instant)) ∧
      db' = { db with observed := some t.instant } := by
  unfold Issuer.live at h
  obtain ⟨user, huser, h⟩ := bind_eq_ok h
  obtain ⟨execution, howned, h⟩ := bind_eq_ok h
  obtain ⟨job, hjob, h⟩ := bind_eq_ok h
  obtain ⟨contract, hcontract, h⟩ := bind_eq_ok h
  obtain ⟨⟨approval, result⟩, hpermission, h⟩ := bind_eq_ok h
  dsimp only at h
  obtain ⟨db₂, hlocked, h⟩ := bind_eq_ok h
  obtain ⟨_, hactive, h⟩ := bind_eq_ok h
  obtain ⟨t₃, ht₃, h⟩ := bind_eq_ok h
  obtain ⟨payload₃, hpayload₃, h⟩ := bind_eq_ok h
  obtain ⟨rfl, rfl⟩ := Prod.mk.inj (Except.ok.inj h)
  have hjob := found_eq_ok hjob
  have hid : job.id = jobId := Table.key_of_get? hjob
  obtain ⟨⟨row, p, raw, f, hpermitted⟩, t₁, payload₁, ht₁, hpayload₁⟩ :=
    claimPermission_eq_ok (hid ▸ hjob) hpermission
  obtain ⟨t₂, ht₂, hle₂, rfl⟩ := lockedTime_eq_ok hlocked
  have hcontract := Option.filter_eq_some_iff.mp (found_eq_ok hcontract)
  have hactive := require_eq_ok hactive
  simp only [Bool.and_eq_true, beq_iff_eq, decide_eq_true_eq] at hactive
  refine ⟨user, t₂, {
    caller := huser
    execution := (owned_eq_ok howned).1
    owns := owned_owns howned
    job := hjob
    contract := hcontract.1
    ref := by simpa using hcontract.2
    permitted := ⟨result, row, p, raw, f, hpermitted, rfl⟩
    active := hactive.1
    unexpired := hactive.2
    approved := ?_ }, ⟨ht₂, hle₂⟩, rfl⟩
  simp only [List.mem_cons, List.not_mem_nil, or_false, forall_eq_or_imp, forall_eq]
  exact ⟨⟨t₁, payload₁, ht₁, hpayload₁⟩, ⟨t₃, payload₃, ht₃, hpayload₃⟩⟩

theorem current_eq_ok {issuer : Issuer} {clocks : Clocks} {request : HttpRequest}
    {jobId : String} {body : ControlRequest} {ref : AttemptRef} {db db' : Db} {reply : Reply}
    (h : issuer.current clocks request jobId body ref db = .ok (db', reply)) :
    ∃ user l, ∃ t : DateTime, LiveAt issuer clocks request jobId body ref db user l ∧
      db.observed.any (· ≤ t.instant) ∧ db' = { db with observed := some t.instant } := by
  unfold Issuer.current at h
  obtain ⟨⟨db₂, l⟩, hlive, h⟩ := bind_eq_ok h
  obtain ⟨user, t, hl, ⟨-, hle⟩, rfl⟩ := live_eq_ok hlive
  obtain ⟨rfl, -⟩ := Prod.mk.inj (Except.ok.inj h)
  exact ⟨user, l, t, hl, hle, rfl⟩

/-! ## Renewals -/

/-- The rows and readings of a renewal. -/
structure Renewal where
  live : Issuer.Live
  read : DateTime
  ends : List Instant
  allocation : Instant
  lease : ℤ
  locked : DateTime
  last : DateTime

/-- The moment from which a renewal counts. -/
def Renewal.instant (r : Renewal) (clocks : Clocks) : Instant :=
  Issuer.latest r.read (clocks.control 1)

/-- The renewed execution. -/
def Renewal.execution (r : Renewal) (clocks : Clocks) : JobExecution :=
  { r.live.execution with expiresAt := r.instant clocks + seconds r.lease }

/-- What a renewal established. -/
structure Renews (issuer : Issuer) (clocks : Clocks) (request : HttpRequest) (jobId : String)
    (body : ControlRequest) (ref : AttemptRef) (db : Db) (r : Renewal) : Prop where
  live : ∃ user, LiveAt issuer clocks request jobId body ref db user r.live
  read : clocks.now 4 = .ok r.read
  ends : Issuer.permissionEnds r.live.permission = .ok r.ends
  allocation : Issuer.allocationEnd r.live.job r.live.execution r.live.permission =
    .ok r.allocation
  lease_pos : 0 < r.lease
  lease_le : r.lease ≤
    min (leaseSeconds : ℤ) ((r.ends.foldl min r.allocation - r.instant clocks).tdiv 1000000)
  unexpired : r.instant clocks < r.live.execution.expiresAt
  locked : clocks.now 5 = .ok r.locked
  advanced : db.observed.any (· ≤ r.locked.instant)
  last : clocks.now 6 = .ok r.last
  ahead : Issuer.latest r.last (clocks.control 2) < (r.execution clocks).expiresAt

theorem refresh_eq_ok {issuer : Issuer} {clocks : Clocks} {request : HttpRequest}
    {jobId : String} {body : ControlRequest} {ref : AttemptRef} {db db' : Db} {reply : Reply}
    (h : issuer.refresh clocks request jobId body ref db = .ok (db', reply)) :
    ∃ r, Renews issuer clocks request jobId body ref db r ∧
      db' = { db with
        executions := db.executions.put (r.execution clocks)
        observed := some r.locked.instant } := by
  unfold Issuer.refresh at h
  obtain ⟨⟨db₂, l⟩, hlive, h⟩ := bind_eq_ok h
  obtain ⟨user, t₂, hl, ⟨-, hle₂⟩, rfl⟩ := live_eq_ok hlive
  dsimp only at h
  obtain ⟨t₄, ht₄, h⟩ := bind_eq_ok h
  obtain ⟨allocation, hallocation, h⟩ := bind_eq_ok h
  obtain ⟨ends, hends, h⟩ := bind_eq_ok h
  obtain ⟨_, hlease, h⟩ := bind_eq_ok h
  obtain ⟨db₅, hlocked, h⟩ := bind_eq_ok h
  obtain ⟨t₅, ht₅, hle₅, rfl⟩ := lockedTime_eq_ok hlocked
  obtain ⟨t₆, ht₆, h⟩ := bind_eq_ok h
  obtain ⟨_, hahead, h⟩ := bind_eq_ok h
  obtain ⟨expiresAt, -, h⟩ := bind_eq_ok h
  obtain ⟨text, -, h⟩ := bind_eq_ok h
  obtain ⟨rfl, -⟩ := Prod.mk.inj (Except.ok.inj h)
  have hlease := require_eq_ok hlease
  simp only [Bool.and_eq_true, decide_eq_true_eq] at hlease
  exact ⟨⟨l, t₄, ends, allocation, _, t₅, t₆⟩, {
    live := ⟨user, hl⟩
    read := ht₄
    ends := hends
    allocation := hallocation
    lease_pos := hlease.1
    lease_le := le_rfl
    unexpired := hlease.2
    locked := ht₅
    advanced := any_le_trans hle₂ hle₅
    last := ht₆
    ahead := of_decide_eq_true (require_eq_ok hahead) }, rfl⟩

omit [Unicode] in
/-- Whole seconds that fit before a bound end before it. -/
theorem wholeSeconds_le {n start bound : ℤ} (hpos : 0 < n)
    (h : n ≤ (bound - start).tdiv 1000000) : start + n * 1000000 ≤ bound := by
  have hdiv := Int.tdiv_mul_le (bound - start) (by decide : (1000000 : ℤ) ≠ 0)
  split at hdiv <;> omega

/-- A renewed lease ends before every bound of its permission. -/
theorem Renews.expiresAt_le {issuer : Issuer} {clocks : Clocks} {request : HttpRequest}
    {jobId : String} {body : ControlRequest} {ref : AttemptRef} {db : Db} {r : Renewal}
    (h : Renews issuer clocks request jobId body ref db r) :
    (r.execution clocks).expiresAt ≤ r.ends.foldl min r.allocation :=
  wholeSeconds_le h.lease_pos (h.lease_le.trans (min_le_right _ _))

/-! ## Consumptions -/

/-- What a consumption established; `last` is its last reading of the clock. -/
structure Consumes (issuer : Issuer) (clocks : Clocks) (request : HttpRequest) (jobId : String)
    (body : ControlRequest) (ref : AttemptRef) (contractSha256 : String) (db : Db)
    (l : Issuer.Live) (locked last : DateTime) : Prop where
  live : ∃ user, LiveAt issuer clocks request jobId body ref db user l
  digest : Wire.digest l.contract.envelope = .ok contractSha256
  unconsumed : l.contract.consumed = false
  read_locked : clocks.now 4 = .ok locked
  advanced : db.observed.any (· ≤ locked.instant)
  approved : ∀ k ∈ [1, 3, 5], ApprovedAt issuer clocks l.approval l.permission k
  read_last : clocks.now 6 = .ok last
  ahead : Issuer.latest last (clocks.control 1) < l.execution.expiresAt

theorem consume_eq_ok {issuer : Issuer} {clocks : Clocks} {request : HttpRequest}
    {jobId : String} {body : ControlRequest} {ref : AttemptRef} {contractSha256 : String}
    {db db' : Db} {reply : Reply}
    (h : issuer.consume clocks request jobId body ref contractSha256 db = .ok (db', reply)) :
    ∃ l locked last, Consumes issuer clocks request jobId body ref contractSha256 db l locked last ∧
      db' = { db with
        contracts := db.contracts.put { l.contract with consumed := true }
        observed := some locked.instant } := by
  unfold Issuer.consume at h
  obtain ⟨⟨db₂, l⟩, hlive, h⟩ := bind_eq_ok h
  obtain ⟨user, t₂, hl, ⟨-, hle₂⟩, rfl⟩ := live_eq_ok hlive
  dsimp only at h
  obtain ⟨hash, hhash, h⟩ := bind_eq_ok h
  obtain ⟨_, hsame, h⟩ := bind_eq_ok h
  obtain ⟨_, hunconsumed, h⟩ := bind_eq_ok h
  obtain ⟨db₄, hlocked, h⟩ := bind_eq_ok h
  obtain ⟨t₄, ht₄, hle₄, rfl⟩ := lockedTime_eq_ok hlocked
  obtain ⟨t₅, ht₅, h⟩ := bind_eq_ok h
  obtain ⟨payload, hpayload, h⟩ := bind_eq_ok h
  obtain ⟨t₆, ht₆, h⟩ := bind_eq_ok h
  obtain ⟨_, hahead, h⟩ := bind_eq_ok h
  obtain ⟨rfl, -⟩ := Prod.mk.inj (Except.ok.inj h)
  have hsame : contractSha256 = hash := by simpa using require_eq_ok hsame
  refine ⟨l, t₄, t₆, {
    live := ⟨user, hl⟩
    digest := hsame ▸ hhash
    unconsumed := by simpa using require_eq_ok hunconsumed
    read_locked := ht₄
    advanced := any_le_trans hle₂ hle₄
    approved := fun k hk => ?_
    read_last := ht₆
    ahead := by simpa using require_eq_ok hahead }, rfl⟩
  simp only [List.mem_cons, List.not_mem_nil, or_false] at hk
  rcases hk with rfl | rfl | rfl
  · exact hl.approved 1 (by simp)
  · exact hl.approved 3 (by simp)
  · exact ⟨t₅, payload, ht₅, hpayload⟩

/-! ## The policy at the moments of the checks -/

/-- The job that a managed operation is about. -/
def ManagedOp.jobId : ManagedOp → String
  | review id _ | revoke id | claim id _ _ | current id _ _ | refresh id _ _ | consume id _ _ _
  | submit id _ _ _ | finish id _ _ _ _ _ | inspectResult id _ _ | report id _ _ _ _ _
  | inspectStop id _ _ | observe id _ _ => id
  | register r => r.jobId

/-- The readings of the clock at which an operation checks the approval it acts under. -/
def ManagedOp.approvalChecks : ManagedOp → List ℕ
  | claim .. => [1, 4, 6]
  | refresh .. => [1, 3]
  | consume .. => [1, 3, 5]
  | _ => []

/-- A permission that was approved at a reading allows the plan at that moment. -/
theorem Permitted.allowsPlan {issuer : Issuer} {clocks : Clocks} {db : Db}
    {request : HttpRequest} {job : ScanJob} {body : ClaimControl} {jobStatuses : List JobStatus}
    {a : ManagedApproval} {result raw : Json} {row : ManagedEnrollment} {p : Projection}
    {f : Facts} {i : ℕ}
    (h : Permitted issuer db request job body jobStatuses a result row p raw f)
    (hi : ApprovedAt issuer clocks a (result.field "context") i) :
    ∃ t, clocks.now i = .ok t ∧ AllowsPlan db job a t := by
  obtain ⟨t, payload, ht, hpayload⟩ := hi
  obtain ⟨-, hvalid, htesting⟩ := ContractWire.approval_eq_ok hpayload
  exact ⟨t, ht, h.projects.allowsPlan h.args_authorization h.args_plan hvalid htesting⟩

/-- At every moment at which an accepted claim, renewal or consumption checked the approval,
the evaluator allows every dispatch of the approved plan with the current records. -/
theorem accepted_allowsPlan {rt : Runtime} {request : HttpRequest} {clocks : Clocks}
    {db db' : Db} {op : ManagedOp} {reply : Reply} {i : ℕ}
    (h : op.body rt request clocks db = .ok (db', reply)) (hi : i ∈ op.approvalChecks) :
    ∃ job a t, db.jobs.get? op.jobId = some job ∧ db.approvalOf job = some a ∧
      clocks.now i = .ok t ∧ AllowsPlan db job a t := by
  cases op with
  | claim id body ids =>
    obtain ⟨c, hc, -, -⟩ := claim_eq_ok h
    obtain ⟨row, p, raw, f, hp⟩ := hc.permitted
    obtain ⟨t, ht, hallows⟩ := hp.allowsPlan (hc.approved i hi)
    exact ⟨c.job, c.approval, t, hc.job, hp.approval, ht, hallows⟩
  | refresh id body ref =>
    obtain ⟨r, hr, -⟩ := refresh_eq_ok h
    obtain ⟨user, hl⟩ := hr.live
    obtain ⟨result, row, p, raw, f, hp, hcontext⟩ := hl.permitted
    obtain ⟨t, ht, hallows⟩ := hp.allowsPlan (hcontext ▸ hl.approved i hi)
    exact ⟨r.live.job, r.live.approval, t, hl.job, hp.approval, ht, hallows⟩
  | consume id body ref sha =>
    obtain ⟨l, locked, last, hc, -⟩ := consume_eq_ok h
    obtain ⟨user, hl⟩ := hc.live
    obtain ⟨result, row, p, raw, f, hp, hcontext⟩ := hl.permitted
    obtain ⟨t, ht, hallows⟩ := hp.allowsPlan (hcontext ▸ hc.approved i hi)
    exact ⟨l.job, l.approval, t, hl.job, hp.approval, ht, hallows⟩
  | _ => simp [ManagedOp.approvalChecks] at hi

omit [Unicode] in
/-- Clocks whose wall clock jumps one second ahead for one reading, and back. -/
def exampleJump : Clocks :=
  { exampleClocks with wall := fun i => if i = 5 then exampleTime 1000000 else exampleClocks.wall i }

omit [Unicode] in
set_option maxRecDepth 10000 in
/-- The claim of the example is accepted, and records the time of the jump. -/
theorem exampleJump_claim : ((@ManagedOp.body Unicode.ascii exampleRuntime
    ⟨some "Bearer vmap_k1", none⟩ exampleJump exampleApproved
    (.claim "j1" exampleBody exampleIds)).toOption.map fun c => c.1.observed) =
      some (some 63900000001000000) := by
  decide +kernel

omit [Unicode] in
theorem exampleJump_accepted : ∃ db reply, @ManagedOp.body Unicode.ascii exampleRuntime
    ⟨some "Bearer vmap_k1", none⟩ exampleJump exampleApproved
    (.claim "j1" exampleBody exampleIds) = .ok (db, reply) ∧
      db.observed = some 63900000001000000 := by
  have h := exampleJump_claim
  cases hbody : @ManagedOp.body Unicode.ascii exampleRuntime ⟨some "Bearer vmap_k1", none⟩
      exampleJump exampleApproved (.claim "j1" exampleBody exampleIds) with
  | ok c =>
    rw [hbody] at h
    exact ⟨c.1, c.2, rfl, Option.some.inj h⟩
  | error e =>
    rw [hbody] at h
    cases h

omit [Unicode] in
theorem accepted_allowsPlan_example : ∃ job a t, exampleApproved.jobs.get? "j1" = some job ∧
    exampleApproved.approvalOf job = some a ∧ exampleJump.now 4 = .ok t ∧
      @AllowsPlan Unicode.ascii exampleApproved job a t := by
  obtain ⟨db, reply, h, -⟩ := exampleJump_accepted
  exact @accepted_allowsPlan Unicode.ascii exampleRuntime ⟨some "Bearer vmap_k1", none⟩
    exampleJump exampleApproved db (.claim "j1" exampleBody exampleIds) reply 4 h
    (by simp [ManagedOp.approvalChecks])

end VardrMap
