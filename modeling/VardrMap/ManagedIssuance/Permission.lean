import VardrMap.Operations
import VardrMap.Authority.SignedHost

/-!
# What a managed permission rests on

A claim, a renewal and a consumption all pass through the same permission: the current
approval of the job, projected again from the current records and compared with the signed
context. Its policy decisions are made at the approval's own start; the window checks of the
wire carry them to every moment at which the approval was checked.
-/
namespace VardrMap
open Lib Policy Wire

variable [Unicode]

/-- The rows that `project_current_authority` has checked. -/
structure FactsHold (db : Db) (p : Projection) (f : Facts) : Prop where
  job : db.jobs.get? p.jobId = some f.job
  status : f.job.status ∈ p.jobStatuses
  toolType : f.job.toolType = gateTool
  engagement : db.engagements.get? f.job.programId = some f.engagement
  owner : p.actor = f.engagement.ownerGithubId
  stopWork : f.engagement.stopWorkAt = none
  authority : db.authorizations.get? p.authorizationId = some f.authority
  authority_program : f.authority.programId = f.engagement.id
  authority_status : f.authority.status = "active"
  case : db.jobCase f.job f.engagement.id = .ok (some f.case)
  case_hash : ∃ s, caseHash f.case.spec = .ok s ∧ p.plan.field "case_hash" = .str s

theorem projectionFacts_eq_ok {db : Db} {p : Projection} {f : Facts}
    (h : projectionFacts db p = .ok f) : FactsHold db p f := by
  unfold projectionFacts at h
  split at h
  swap
  · simp at h
  rename_i job hjob
  split at h
  swap
  · simp at h
  rename_i engagement hengagement
  obtain ⟨_, hstop, h⟩ := bind_eq_ok h
  split at h
  swap
  · simp at h
  rename_i authority hauthority
  obtain ⟨case?, hcase, h⟩ := bind_eq_ok h
  split at h
  swap
  · simp at h
  rename_i case
  obtain ⟨schema, -, h⟩ := bind_eq_ok h
  obtain ⟨_, -, h⟩ := bind_eq_ok h
  obtain ⟨profile, -, h⟩ := bind_eq_ok h
  obtain ⟨_, -, h⟩ := bind_eq_ok h
  obtain ⟨planHash, hplanHash, h⟩ := bind_eq_ok h
  obtain ⟨hash, hhash, h⟩ := bind_eq_ok h
  obtain ⟨_, heq, h⟩ := bind_eq_ok h
  obtain rfl := Except.ok.inj h
  rw [Option.filter_eq_some_iff] at hjob hengagement hauthority
  simp only [Bool.and_eq_true, List.contains_iff_mem, beq_iff_eq] at hjob hengagement hauthority
  have heq := ensure_eq_ok heq
  have hstop := ensure_eq_ok hstop
  exact {
    job := hjob.1
    status := hjob.2.1
    toolType := hjob.2.2
    engagement := hengagement.1
    owner := hengagement.2
    stopWork := by simpa using hstop
    authority := hauthority.1
    authority_program := hauthority.2.1
    authority_status := hauthority.2.2
    case := raise_eq_ok hcase
    case_hash := ⟨hash, raise_eq_ok hhash,
      (Json.get_eq_ok (raise_eq_ok hplanHash)).trans (by simpa using heq)⟩ }

/-- A projection for an approval: its arguments, the unsigned request it starts from, and
the rows that request rests on. -/
structure Projects (db : Db) (job : ScanJob) (permission result : Json) (revision : ℕ)
    (p : Projection) (raw : Json) (f : Facts) : Prop where
  job_eq : f.job = job
  revision_eq : revision = f.engagement.managedAuthorityRevision
  args_job : p.jobId = job.id
  args_revision : p.authorityRevision = revision
  expires_at : Wire.timestamp (permission.field "expires_at") = .ok p.expiresAt
  not_before : Wire.timestamp (permission.field "not_before") = .ok p.now
  max_executions : ∃ n : ℤ, permission.field "max_executions" = .int n ∧ p.maxExecutions = .int n ∧
    1 ≤ n
  max_duration_seconds : ∃ n : ℤ, permission.field "max_duration_seconds" = .int n ∧
    p.maxDurationSeconds = .int n
  credential_grants : permission.field "credential_grants" = p.credentialGrants
  facts : FactsHold db p f
  projected : ∃ dispatches narrowed, Projected db p raw f dispatches narrowed
  context : ∀ k, k ≠ "authority_sha256" →
    (result.field "context").field k = (raw.field "context").field k
  case : result.field "case" = f.case.spec

omit [Unicode] in
theorem integer_eq_ok {j : Json} {lo hi n : ℤ} (h : integer j lo hi = .ok n) :
    j = .int n ∧ lo ≤ n ∧ n ≤ hi := by
  unfold integer at h
  split at h
  · rename_i m hm
    split at h
    · rename_i hle
      obtain rfl := Except.ok.inj h
      simp only [Bool.and_eq_true, decide_eq_true_eq] at hle
      cases j with
      | int k =>
        obtain rfl : k = m := by simpa [Json.int?] using hm
        exact ⟨rfl, hle⟩
      | _ => simp [Json.int?] at hm
    · simp at h
  · simp at h

omit [Unicode] in
theorem permitted_eq_ok {permission : Json} {name : String} {maximum n : ℤ}
    (h : Issuer.permitted permission name maximum = .ok n) :
    permission.field name = .int n ∧ 1 ≤ n ∧ n ≤ maximum := by
  unfold Issuer.permitted at h
  obtain ⟨j, hj, h⟩ := bind_eq_ok h
  obtain ⟨rfl, hlo, hhi⟩ := integer_eq_ok h
  exact ⟨Json.item_eq_ok (raise_eq_ok hj), hlo, hhi⟩

theorem projection_eq_ok {issuer : Issuer} {db : Db} {job : ScanJob} {actor : String}
    {enrollment : ManagedEnrollment} {authorizationId : String} {plan permission : Json}
    {revision : ℕ} {jobStatuses : List JobStatus} {result : Json}
    (hjob : db.jobs.get? job.id = some job)
    (h : issuer.projection db job actor enrollment authorizationId plan permission revision
      jobStatuses = .ok result) :
    ∃ p raw f, Projects db job permission result revision p raw f ∧ p.actor = actor ∧
      p.authorizationId = authorizationId ∧ p.plan = plan ∧ p.runnerId = enrollment.runnerId ∧
      p.jobStatuses = jobStatuses := by
  unfold Issuer.projection at h
  obtain ⟨engagement, hengagement, h⟩ := bind_eq_ok h
  obtain ⟨_, hrevision, h⟩ := bind_eq_ok h
  obtain ⟨maxExecutions, hexecutions, h⟩ := bind_eq_ok h
  obtain ⟨maxDuration, hduration, h⟩ := bind_eq_ok h
  obtain ⟨maxBytes, -, h⟩ := bind_eq_ok h
  obtain ⟨expires, hexpires, h⟩ := bind_eq_ok h
  obtain ⟨expiresAt, hexpiresAt, h⟩ := bind_eq_ok h
  obtain ⟨grants, hgrants, h⟩ := bind_eq_ok h
  obtain ⟨start, hstart, h⟩ := bind_eq_ok h
  obtain ⟨notBefore, hnotBefore, h⟩ := bind_eq_ok h
  obtain ⟨raw, hraw, h⟩ := bind_eq_ok h
  dsimp only at h
  obtain ⟨authorityHash, -, h⟩ := bind_eq_ok h
  obtain rfl := Except.ok.inj h
  obtain ⟨f, dispatches, narrowed, hp⟩ := projectCurrentAuthority_eq_ok hraw
  have hf := projectionFacts_eq_ok hp.facts_ok
  have hengagement := found_eq_ok hengagement
  have hrev : revision = engagement.managedAuthorityRevision := by
    simpa using require_eq_ok hrevision
  have hf_job : f.job = job := Option.some.inj (hf.job.symm.trans hjob)
  have hf_engagement : f.engagement = engagement :=
    Option.some.inj (hf.engagement.symm.trans (hf_job ▸ hengagement))
  obtain ⟨hn, hn1, -⟩ := permitted_eq_ok hexecutions
  refine ⟨_, raw, f, {
    job_eq := hf_job
    revision_eq := hf_engagement ▸ hrev
    args_job := rfl
    args_revision := rfl
    expires_at := by rwa [Json.item_eq_ok (raise_eq_ok hexpires)]
    not_before := by rwa [Json.item_eq_ok (raise_eq_ok hstart)]
    max_executions := ⟨maxExecutions, hn, rfl, hn1⟩
    max_duration_seconds := ⟨maxDuration, (permitted_eq_ok hduration).1, rfl⟩
    credential_grants := Json.item_eq_ok (raise_eq_ok hgrants)
    facts := hf
    projected := ⟨dispatches, narrowed, hp⟩
    context := fun k hk => ?_
    case := ?_ }, rfl, rfl, rfl, rfl, rfl⟩
  · rw [Json.field_set_self (by simpa using hp.isObj.1), Json.field_set_ne hk]
  · rw [Json.field_set_ne (by decide), Json.field_set_ne (by decide), hp.case_spec]

/-- The current approval of a job, with the enrolled runner that may use it. -/
structure Permitted (issuer : Issuer) (db : Db) (request : HttpRequest) (job : ScanJob)
    (body : ClaimControl) (jobStatuses : List JobStatus) (a : ManagedApproval) (result : Json)
    (row : ManagedEnrollment) (p : Projection) (raw : Json) (f : Facts) : Prop where
  approval : db.approvalOf job = some a
  current : job.managedApprovalId = some a.id
  stored : db.approvals.get? a.id = some a
  revoked : a.revoked = false
  jobId : a.jobId = job.id
  engagementId : a.engagementId = job.programId
  enrollment : db.enrollments.get? a.enrollmentId = some row
  enrollment_owner : row.owner = a.owner
  key : ∃ k, db.apiKeys.get? row.apiKeyId = some k ∧ k.githubId = a.owner ∧
    Sha256.ofText (request.header.drop bearerPrefix.length) = k.keyHash
  hasApiKey : request.hasApiKey = true
  principal : Sha256.ofText request.header = row.principalHash
  origin : body.origin = issuer.origin
  runnerId : body.runnerId = row.runnerId
  projects : Projects db job a.context result a.revision p raw f
  args_authorization : p.authorizationId = a.authorizationId
  args_plan : p.plan = a.plan
  args_runner : p.runnerId = row.runnerId
  args_statuses : p.jobStatuses = jobStatuses

omit [Unicode] in
theorem enrollment_eq_ok {issuer : Issuer} {db : Db} {enrollmentId owner : String}
    {row : ManagedEnrollment} {key : ApiKey}
    (h : issuer.enrollment db enrollmentId owner = .ok (row, key)) :
    db.enrollments.get? enrollmentId = some row ∧ row.owner = owner ∧ row.origin = issuer.origin ∧
      db.apiKeys.get? row.apiKeyId = some key ∧ key.githubId = owner := by
  unfold Issuer.enrollment at h
  obtain ⟨row', hrow, h⟩ := bind_eq_ok h
  obtain ⟨key', hkey, h⟩ := bind_eq_ok h
  obtain ⟨n, -, h⟩ := bind_eq_ok h
  obtain ⟨rfl, rfl⟩ := Prod.mk.inj (Except.ok.inj h)
  have hrow := Option.filter_eq_some_iff.mp (found_eq_ok hrow)
  have hkey := Option.filter_eq_some_iff.mp (found_eq_ok hkey)
  simp only [Bool.and_eq_true, beq_iff_eq] at hrow hkey
  exact ⟨hrow.1, hrow.2.1.2, hrow.2.2, hkey.1, hkey.2.1⟩

omit [Unicode] in
theorem approvalOf_eq_some {db : Db} {job : ScanJob} {a : ManagedApproval}
    (h : db.approvalOf job = some a) :
    job.managedApprovalId = some a.id ∧ db.approvals.get? a.id = some a := by
  unfold Db.approvalOf at h
  cases hm : job.managedApprovalId with
  | none => simp [hm] at h
  | some id =>
    rw [hm, Option.bind_some] at h
    have hid : a.id = id := Table.key_of_get? h
    exact ⟨by rw [hid], hid ▸ h⟩

/-- What an accepted permission establishes, and the moment it was checked at. -/
theorem claimPermission_eq_ok {issuer : Issuer} {db : Db} {request : HttpRequest} {job : ScanJob}
    {body : ClaimControl} {now : Except Refusal DateTime} {jobStatuses : List JobStatus}
    {approval : ManagedApproval} {result : Json} (hjob : db.jobs.get? job.id = some job)
    (h : issuer.claimPermission db request job body now jobStatuses = .ok (approval, result)) :
    (∃ row p raw f, Permitted issuer db request job body jobStatuses approval result row p raw
      f) ∧
      ∃ t payload, now = .ok t ∧ issuer.wire.approval approval.envelope (result.field "context")
        approval.owner t = .ok payload := by
  unfold Issuer.claimPermission at h
  obtain ⟨approval', happroval, h⟩ := bind_eq_ok h
  obtain ⟨⟨enrollment, key⟩, henrollment, h⟩ := bind_eq_ok h
  dsimp only at h
  obtain ⟨_, hcaller, h⟩ := bind_eq_ok h
  obtain ⟨result', hresult, h⟩ := bind_eq_ok h
  obtain ⟨t, ht, h⟩ := bind_eq_ok h
  obtain ⟨payload, hpayload, h⟩ := bind_eq_ok h
  obtain ⟨rfl, rfl⟩ := Prod.mk.inj (Except.ok.inj h)
  refine ⟨?_, t, payload, ht, hpayload⟩
  have happroval := Option.filter_eq_some_iff.mp (found_eq_ok happroval)
  simp only [Bool.and_eq_true, Bool.not_eq_true', beq_iff_eq] at happroval
  have hcaller := require_eq_ok hcaller
  simp only [Bool.and_eq_true, beq_iff_eq] at hcaller
  obtain ⟨hrow, howner, horigin, hkey, hgithub⟩ := enrollment_eq_ok henrollment
  obtain ⟨p, raw, f, hprojects, -, hauth, hplan, hrunner, hstatuses⟩ :=
    projection_eq_ok hjob hresult
  obtain ⟨hcurrent, hstored⟩ := approvalOf_eq_some happroval.1
  exact ⟨enrollment, p, raw, f, {
    approval := happroval.1
    current := hcurrent
    stored := hstored
    revoked := happroval.2.1.1
    jobId := happroval.2.1.2
    engagementId := happroval.2.2
    enrollment := hrow
    enrollment_owner := howner
    key := ⟨key, hkey, hgithub, hcaller.1.1.1.2⟩
    hasApiKey := hcaller.1.1.1.1
    principal := hcaller.1.1.2
    origin := hcaller.1.2
    runnerId := hcaller.2
    projects := hprojects
    args_authorization := hauth
    args_plan := hplan
    args_runner := hrunner
    args_statuses := hstatuses }⟩

/-! ## From the approval's start to the moment of the check -/

/-- The policy input of a dispatch with the current rows, at a moment. -/
def currentInput (engagement : Engagement) (authority : Authorization) (job : ScanJob)
    (rows : List ScopeItem) (url : Text) (now : DateTime) : PolicyInput :=
  { policyCandidate engagement authority job rows now with
    target := url
    stopWork := engagement.stopWorkAt.isSome }

/-- The evaluator allows the dispatch with the current rows at a moment. -/
def AllowsDispatch (engagement : Engagement) (authority : Authorization) (job : ScanJob)
    (rows : List ScopeItem) (now : DateTime) (dispatch : Json) : Prop :=
  ∃ request url d, dispatch.item "request" = .ok request ∧ request.item "url" = .ok (.str url) ∧
    evaluate (currentInput engagement authority job rows url.toList now) = .ok d ∧
    d.allowed = true

/-- The evaluator allows every dispatch of the approved plan at a moment, with the engagement,
the named authorization and the scope rows that the database holds. -/
def AllowsPlan (db : Db) (job : ScanJob) (a : ManagedApproval) (now : DateTime) : Prop :=
  ∃ engagement authority dispatches, db.engagements.get? job.programId = some engagement ∧
    db.authorizations.get? a.authorizationId = some authority ∧
    authority.programId = engagement.id ∧ planDispatches a.plan = .ok dispatches ∧
    ∀ d ∈ dispatches, AllowsDispatch engagement authority job (db.scopeRows engagement.id) now d

/-- Only the window gates look at the time: a decision at one moment is the decision at
another one when both pass the engagement's gates. -/
theorem evaluate_at {c : PolicyInput} {t : DateTime} {d : PolicyDecision}
    (h : evaluate c = .ok d) (hd : d.allowed = true)
    (ht : (evaluateEngagement { c with now := t }).allowed = true) :
    evaluate { c with now := t } = .ok d := by
  obtain ⟨hgate, -⟩ := evaluate_allowed h hd
  simp only [evaluate, hgate, Bool.not_true, Bool.false_eq_true, if_false] at h
  simp only [evaluate, ht, Bool.not_true, Bool.false_eq_true, if_false]
  exact h

omit [Unicode] in
/-- The gates of an authorization that passes at one moment pass at a later one before its
window ends. -/
theorem evaluateAuthorization_later {auth : AuthorizationSnapshot} {capability : String}
    {s t : DateTime} (h : (evaluateAuthorization auth capability s).allowed = true)
    (hle : s.instant ≤ t.instant) (hend : ∀ stop, auth.windowEnd = some stop →
      t.instant ≤ stop.instant) : (evaluateAuthorization auth capability t).allowed = true := by
  unfold evaluateAuthorization at h ⊢
  split at h
  · simp [deny] at h
  split at h
  · simp [deny] at h
  rename_i hstatus hstart
  split at h
  · simp [deny] at h
  split at h
  · simp [deny] at h
  rename_i hcapability
  have hopened : ¬ auth.windowStart.any (fun start => t.instant < start.instant) = true := by
    cases hw : auth.windowStart with
    | none => simp
    | some start =>
      simp only [hw, Option.any_some, decide_eq_true_eq] at hstart ⊢
      omega
  have hclosed : ¬ auth.windowEnd.any (fun stop => stop.instant < t.instant) = true := by
    cases hw : auth.windowEnd with
    | none => simp
    | some stop =>
      have := hend stop hw
      simp only [Option.any_some, decide_eq_true_eq]
      omega
  rw [if_neg hstatus, if_neg hopened, if_neg hclosed, if_neg hcapability]

/-- The decision behind the entry of a signed dispatch. -/
theorem narrow_allowed {candidate : PolicyInput} {dispatch entry : Json}
    (h : narrow candidate dispatch = .ok entry) :
    ∃ request url d, dispatch.item "request" = .ok request ∧
      request.item "url" = .ok (.str url) ∧
      evaluate { candidate with target := url.toList } = .ok d ∧ d.allowed = true := by
  unfold narrow at h
  obtain ⟨request, hrequest, h⟩ := bind_eq_ok h
  obtain ⟨url, hurl, h⟩ := bind_eq_ok h
  obtain ⟨d, hd, h⟩ := bind_eq_ok h
  obtain ⟨_, hallowed, -⟩ := bind_eq_ok h
  have hallowed := ensure_eq_ok hallowed
  have hd := raise_eq_ok hd
  obtain ⟨text, rfl⟩ := evaluateTarget_allowed hd hallowed
  exact ⟨request, text, d, raise_eq_ok hrequest, raise_eq_ok hurl, hd, hallowed⟩

/-- A time that a context lists, read back: the whole seconds of what was written. -/
theorem timeText_reads {context : Json} {name : String} {t u : DateTime}
    (h : timeText (some t) = .ok (context.field name)) (hu : ReadsTime context name u) :
    u.instant ≤ t.instant ∧ t.instant < u.instant + 1000000 ∧ u.instant % 1000000 = 0 := by
  obtain ⟨s, hs, hu⟩ := hu
  unfold timeText at h
  obtain ⟨text, htext, h⟩ := bind_eq_ok h
  have h := Except.ok.inj h
  rw [hs, Json.str.injEq] at h
  rw [← h, String.toList_ofList] at hu
  exact DateTime.timestamp_stamp htext hu

/-- A projection whose context is valid at a moment allows the plan at that moment. -/
theorem Projects.allowsPlan {db : Db} {job : ScanJob} {permission result raw : Json}
    {revision : ℕ} {p : Projection} {f : Facts} {a : ManagedApproval} {t : DateTime}
    (h : Projects db job permission result revision p raw f)
    (hauth : p.authorizationId = a.authorizationId) (hplan : p.plan = a.plan)
    (hvalid : ContractWire.within (result.field "context") "not_before" "expires_at" t = .ok true)
    (htesting : ContractWire.within (result.field "context") "testing_start" "testing_end" t =
      .ok true) : AllowsPlan db job a t := by
  obtain ⟨dispatches, narrowed, hp⟩ := h.projected
  obtain ⟨start, -, hstart, -, hstart_le, -⟩ := ContractWire.within_eq_true hvalid
  obtain ⟨-, stop, -, hstop, -, hlt_stop⟩ := ContractWire.within_eq_true htesting
  -- the approval's start is a whole second, so the context states it exactly
  have hle : p.now.instant ≤ t.instant := by
    have hread := timeText_reads (h.context "not_before" (by decide) ▸ hp.not_before) hstart
    obtain ⟨s, -, hs⟩ := Wire.timestamp_eq_ok h.not_before
    have hwhole := (DateTime.timestamp_whole hs).2
    omega
  have hend : ∀ bound, f.authority.windowEnd = some bound → t.instant ≤ bound.instant := by
    intro bound hbound
    have htext := h.context "testing_end" (by decide) ▸ hp.testing_end
    rw [hbound, Option.getD_some] at htext
    have hread := timeText_reads htext hstop
    omega
  have hengagement := h.facts.engagement
  rw [h.job_eq] at hengagement
  refine ⟨f.engagement, f.authority, dispatches, hengagement, hauth ▸ h.facts.authority,
    h.facts.authority_program, hplan ▸ hp.dispatches_ok, fun d hd => ?_⟩
  obtain ⟨entry, -, hentry⟩ := exists_of_forall₂ hp.narrow_ok hd
  obtain ⟨request, url, decision, hrequest, hurl, hdecision, hallowed⟩ := narrow_allowed hentry
  rw [h.job_eq] at hdecision
  refine ⟨request, url, decision, hrequest, hurl, ?_, hallowed⟩
  have hinput : currentInput f.engagement f.authority job (db.scopeRows f.engagement.id)
      url.toList t = { ({ policyCandidate f.engagement f.authority job
        (db.scopeRows f.engagement.id) p.now with target := url.toList } : PolicyInput) with
        now := t } := by
    simp [currentInput, policyCandidate, h.facts.stopWork]
  rw [hinput]
  refine evaluate_at hdecision hallowed ?_
  obtain ⟨hgate, -⟩ := evaluate_allowed hdecision hallowed
  have hstatus : shown f.engagement.engagementStatus = activeEngagementStatus := by
    by_contra hne
    simp [evaluateEngagement, policyCandidate, hne, deny] at hgate
  simp only [evaluateEngagement, policyCandidate, hstatus, bne_self_eq_false,
    Bool.false_eq_true, if_false] at hgate ⊢
  exact evaluateAuthorization_later hgate hle hend

end VardrMap
