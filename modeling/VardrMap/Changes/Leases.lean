import VardrMap.Changes.Deliveries
import VardrMap.ManagedIssuance.TrustedTime

/-!
# Leases and the authority behind them

The lease of a managed execution should end with its authority: with the approval's context, its
testing window, every credential grant, and the seconds that were allocated and permitted. Each
renewal keeps to that. The first lease is as long as that of any other execution, so it keeps to
it only when the claim was made early enough.
-/
namespace VardrMap
open Lib

variable [Unicode] {rt : Runtime}

/-- A lease ends by then within every end that a context states, and within the seconds allocated
and permitted from the start of the job. -/
structure LeaseWithin (context : Json) (startedAt : Instant) (durationSeconds : ℕ)
    (expiresAt : Instant) : Prop where
  expires_at : ∃ t, ReadsTime context "expires_at" t ∧ expiresAt ≤ t.instant
  testing_end : ∃ t, ReadsTime context "testing_end" t ∧ expiresAt ≤ t.instant
  grants : ∀ grants, (context.field "credential_grants").iter = .ok grants →
    ∀ grant ∈ grants, ∀ t, ReadsTime grant "expires_at" t → expiresAt ≤ t.instant
  allocation : ∃ maximum : ℤ, context.field "max_duration_seconds" = .int maximum ∧
    expiresAt ≤ startedAt + seconds (min durationSeconds maximum)

/-- Every active execution with a contract has a lease within the authority that the contract was
issued under. -/
def Capped (db : Db) : Prop :=
  ∀ c ∈ db.contracts.rows, ∀ a x j, db.approvals.get? c.approvalRecordId = some a →
    db.executions.get? c.jobId = some x → db.jobs.get? c.jobId = some j → x.state = .active →
      ∃ startedAt, j.startedAt = some startedAt ∧
        LeaseWithin a.context startedAt x.durationSeconds x.expiresAt

/-! ## What an approval states -/

/-- A context states its own end, the end of the testing window after it, and a duration. -/
structure StatesEnds (context : Json) : Prop where
  ends : ∃ s t, ReadsTime context "expires_at" s ∧ ReadsTime context "testing_end" t ∧
    s.instant ≤ t.instant
  max_duration_seconds : ∃ maximum : ℤ, context.field "max_duration_seconds" = .int maximum

/-- A context states a time once. -/
theorem ReadsTime.unique {context : Json} {name : String} {s t : DateTime}
    (hs : ReadsTime context name s) (ht : ReadsTime context name t) : s = t := by
  obtain ⟨text, htext, hs⟩ := hs
  obtain ⟨text', htext', ht⟩ := ht
  obtain rfl := Json.str.inj (htext.symm.trans htext')
  exact Option.some.inj (hs.symm.trans ht)

/-- A registered context states its ends: its validity was checked to end within the testing
window, and both ends are written with whole seconds. -/
theorem Registers.statesEnds {issuer : Issuer} {clocks : Clocks} {r : Issuer.Registration}
    {db : Db} {i : Registered} (h : Registers issuer clocks r db i) :
    StatesEnds (i.row issuer r).context := by
  obtain ⟨permission, p, raw, f, hp, -⟩ := h.projects
  obtain ⟨dispatches, narrowed, hraw⟩ := hp.projected
  obtain ⟨t, payload, -, hpayload⟩ := h.approved 2 (by simp)
  obtain ⟨-, hvalid, htesting⟩ := ContractWire.approval_eq_ok hpayload
  obtain ⟨-, s, -, hs, -, -⟩ := ContractWire.within_eq_true hvalid
  obtain ⟨-, u, -, hu, -, -⟩ := ContractWire.within_eq_true htesting
  refine ⟨⟨s, u, hs, hu, ?_⟩, ?_⟩
  · have hread := timeText_reads (hp.context "expires_at" (by decide) ▸ hraw.expires_at) hs
    have hread' := timeText_reads (hp.context "testing_end" (by decide) ▸ hraw.testing_end) hu
    have hle := hraw.expires_le
    omega
  · obtain ⟨n, -, hn⟩ := hp.max_duration_seconds
    exact ⟨n, (hp.context _ (by decide)).trans (hraw.max_duration_seconds.trans hn)⟩

/-! ## Renewals -/

theorem readsTime_of_timestamp {context : Json} {name : String} {t : DateTime}
    (h : Wire.timestamp (context.field name) = .ok t) : ReadsTime context name t :=
  Wire.timestamp_eq_ok h

omit [Unicode] in
/-- The seconds that a renewal counts are those from the start of the job. -/
theorem allocationEnd_eq_ok {j : ScanJob} {x : JobExecution} {permission : Json} {t : Instant}
    (h : Issuer.allocationEnd j x permission = .ok t) :
    ∃ startedAt, ∃ maximum : ℤ, j.startedAt = some startedAt ∧
      permission.field "max_duration_seconds" = .int maximum ∧
      t = startedAt + seconds (min x.durationSeconds maximum) := by
  unfold Issuer.allocationEnd at h
  obtain ⟨startedAt, hstarted, h⟩ := bind_eq_ok h
  obtain ⟨_, -, h⟩ := bind_eq_ok h
  obtain ⟨value, hvalue, h⟩ := bind_eq_ok h
  obtain ⟨maximum, hmaximum, h⟩ := bind_eq_ok h
  obtain rfl := Except.ok.inj h
  refine ⟨startedAt, maximum, found_eq_ok hstarted, ?_, rfl⟩
  rw [Json.item_eq_ok (raise_eq_ok hvalue)]
  have hmaximum := found_eq_ok hmaximum
  cases value with
  | int n => exact congrArg Json.int (Option.some.inj hmaximum)
  | _ => cases hmaximum

section
variable {issuer : Issuer} {clocks : Clocks} {request : HttpRequest} {jobId : String} {db : Db}

/-- A renewed lease is within the approval that it was renewed under, when that states its
ends. -/
theorem Renews.leaseWithin {body : ControlRequest} {ref : AttemptRef} {r : Renewal}
    (h : Renews issuer clocks request jobId body ref db r)
    (hstates : StatesEnds r.live.approval.context) :
    ∃ startedAt, r.live.job.startedAt = some startedAt ∧
      LeaseWithin r.live.approval.context startedAt (r.execution clocks).durationSeconds
        (r.execution clocks).expiresAt := by
  obtain ⟨user, hl⟩ := h.live
  obtain ⟨result, row, p, raw, f, hp, hcontext⟩ := hl.permitted
  obtain ⟨dispatches, narrowed, hraw⟩ := hp.projects.projected
  have hkept : ∀ k, k ≠ "authority_sha256" →
      r.live.permission.field k = (raw.field "context").field k :=
    fun k hk => hcontext ▸ hp.projects.context k hk
  have hbound : ∀ e ∈ r.allocation :: r.ends, (r.execution clocks).expiresAt ≤ e :=
    fun e he => h.expiresAt_le.trans (foldl_min_le he)
  obtain ⟨startedAt, maximum, hstarted, hmaximum, hallocation⟩ :=
    allocationEnd_eq_ok h.allocation
  obtain ⟨expiresAt, testingEnd, grants, times, hexpires, -, hiter, htimes, hends⟩ :=
    permissionEnds_eq_ok h.ends
  obtain ⟨⟨s, t, hs, ht, hst⟩, -⟩ := hstates
  -- the end that is projected again is the one of the approval
  have hread : (r.execution clocks).expiresAt ≤ s.instant := by
    have hs' : s = p.expiresAt := hs.unique (readsTime_of_timestamp hp.projects.expires_at)
    have htext := hkept "expires_at" (by decide) ▸ hraw.expires_at
    have hle := timeText_reads htext (readsTime_of_timestamp hexpires)
    have hend := hbound expiresAt.instant (by simp [hends])
    rw [hs']
    exact hend.trans hle.1
  have hgrants : r.live.permission.field "credential_grants" =
      r.live.approval.context.field "credential_grants" := by
    rw [hkept _ (by decide), hraw.credential_grants, hp.projects.credential_grants]
  have hduration : r.live.permission.field "max_duration_seconds" =
      r.live.approval.context.field "max_duration_seconds" := by
    obtain ⟨n, hn, hp⟩ := hp.projects.max_duration_seconds
    rw [hkept _ (by decide), hraw.max_duration_seconds, hn, hp]
  refine ⟨startedAt, hstarted, {
    expires_at := ⟨s, hs, hread⟩
    testing_end := ⟨t, ht, hread.trans hst⟩
    grants := fun grants' hgrants' grant hgrant u hu => ?_
    allocation := ⟨maximum, hduration ▸ hmaximum, ?_⟩ }⟩
  · rw [← hgrants, hiter] at hgrants'
    obtain rfl := Except.ok.inj hgrants'
    obtain ⟨v, hv, hread'⟩ := exists_of_forall₂ htimes hgrant
    obtain rfl := hu.unique (readsTime_of_timestamp hread')
    refine hbound u.instant (List.mem_cons_of_mem _ ?_)
    rw [hends]
    exact List.mem_cons_of_mem _ (List.mem_cons_of_mem _ (List.mem_map_of_mem hv))
  · exact hallocation ▸ hbound r.allocation (List.mem_cons_self ..)

end

/-! ## The first lease -/

/-- When the first lease of a claim ends: ten seconds after its control reading. -/
def Op.firstLeaseEnd (op : Op) : Instant := op.clocks.control 0 + seconds leaseSeconds

/-- An accepted managed claim whose first lease outlives the approval, or the seconds that the
claim asks for and the approval permits. -/
def Op.overleases (op : Op) (rt : Runtime) (db : Db) : Prop :=
  ∃ jobId body ids reply j a startedAt n, op.call = .managed (.claim jobId body ids) ∧
    (exec rt op db).2 = .ok reply ∧ db.jobs.get? jobId = some j ∧ db.approvalOf j = some a ∧
    op.clocks.now 3 = .ok startedAt ∧ body.durationSeconds = some n ∧
    ¬ LeaseWithin a.context startedAt.instant n op.firstLeaseEnd

omit [Unicode] in
/-- The lease and the seconds of a new execution. -/
theorem issue_lease {jobId : String} {user : User} {request : HttpRequest} {body : ClaimControl}
    {token : String} {now : Instant} {targets : Option TargetReceipt}
    {duration : Option DurationReceipt} {row : JobExecution} {capability : Capability}
    (h : issue jobId user request body token now targets duration = .ok (row, capability)) :
    row.expiresAt = now + seconds leaseSeconds ∧
      row.durationSeconds = (duration.map DurationReceipt.allocatedSeconds).getD 0 := by
  unfold issue at h
  obtain ⟨hash, -, h⟩ := bind_eq_ok h
  obtain ⟨rfl, -⟩ := Prod.mk.inj (Except.ok.inj h)
  exact ⟨rfl, rfl⟩

omit [Unicode] in
/-- An allocation of seconds gives those that were asked for. -/
theorem allocate_seconds {e e' : Engagement} {body : ClaimControl} {n : ℕ}
    {receipt : Option DurationReceipt} (hn : body.durationSeconds = some n)
    (h : allocate e (some body) = .ok (e', receipt)) :
    (receipt.map DurationReceipt.allocatedSeconds).getD 0 = n := by
  unfold allocate at h
  simp only [Option.bind_some, hn] at h
  split at h
  · obtain ⟨_, hnone, -⟩ := bind_eq_ok h
    exact absurd (ensure_eq_ok hnone) (by simp)
  · obtain ⟨m, hm, h⟩ := bind_eq_ok h
    obtain rfl := Option.some.inj (found_eq_ok hm)
    obtain ⟨_, -, h⟩ := bind_eq_ok h
    obtain ⟨-, rfl⟩ := Prod.mk.inj (Except.ok.inj h)
    rfl

section
variable {issuer : Issuer} {clocks : Clocks} {request : HttpRequest} {jobId : String} {db : Db}
  {body : ClaimControl} {ids : Issuer.ClaimIds} {i : Issued}

/-- The execution of a claim has its first lease, and the seconds that were asked for. -/
theorem Issues.lease (h : Issues issuer clocks request jobId body ids db i) :
    i.execution.expiresAt = clocks.control 0 + seconds leaseSeconds ∧
      body.durationSeconds = some i.execution.durationSeconds := by
  obtain ⟨n, hn⟩ := h.durationSeconds
  obtain ⟨e, -, hallocate⟩ := h.charge
  obtain ⟨hexpires, hseconds⟩ := issue_lease h.issue
  rw [allocate_seconds hn hallocate] at hseconds
  exact ⟨hexpires, hseconds ▸ hn⟩

end

/-! ## Changes of leases -/

/-- How an execution changes that is active before and after: it stays, its job is not managed,
or its lease is renewed. -/
inductive LeaseStep (rt : Runtime) (db db' : Db) (x : JobExecution) : JobExecution → Prop
  | same : LeaseStep rt db db' x x
  | unmanaged {x' : JobExecution} {j : ScanJob} (job : db.jobs.get? x.jobId = some j)
      (unmanaged : j.managed = false) : LeaseStep rt db db' x x'
  | renewed {clocks : Clocks} {request : HttpRequest} {jobId : String} {body : ControlRequest}
      {ref : AttemptRef} {r : Renewal}
      (renews : Renews rt.issuer clocks request jobId body ref db r)
      (live : r.live.execution = x) (jobs : db'.jobs = db.jobs) :
      LeaseStep rt db db' x (r.execution clocks)

/-- One execution is replaced. -/
theorem leaseStep_put {db db' : Db} {r old x x' : JobExecution} {k : String}
    (hx' : (db.executions.put r).get? k = some x')
    (hold : db.executions.get? (Keyed.key r) = some old)
    (hstep : r.state = .active → old.state = .active ∧ LeaseStep rt db db' old r)
    (hx : db.executions.get? k = some x) (hactive : x'.state = .active) :
    x.state = .active ∧ LeaseStep rt db db' x x' := by
  rcases Table.of_get?_put hold hx' with ⟨rfl, rfl⟩ | ⟨-, hsame⟩
  · obtain rfl := Option.some.inj (hx.symm.trans hold)
    exact hstep hactive
  · obtain rfl := Option.some.inj (hx.symm.trans hsame)
    exact ⟨hactive, .same⟩

omit [Unicode] in
theorem finish_not_active (x : JobExecution) (o : Outcome) : (x.finish o).state ≠ .active := by
  cases o <;> exact nofun

omit [Unicode] in
/-- Stop-work leaves an execution active only when it leaves it as it is. -/
theorem halt_active {db : Db} {programId : String} {x : JobExecution}
    (h : (db.halt programId x).state = .active) : db.halt programId x = x := by
  unfold Db.halt JobExecution.requestCancel at h ⊢
  split
  · rename_i hjob
    rw [if_pos hjob] at h
    split
    · rename_i hactive
      rw [if_pos hactive] at h
      cases h
    · rfl
  · rfl

/-- A held execution that is active was active, and has its lease unless its job is unmanaged. -/
theorem Held.leaseStep {db db' : Db} {x x' : JobExecution} (h : Held db x x')
    (hactive : x'.state = .active) : x.state = .active ∧ LeaseStep rt db db' x x' := by
  refine ⟨h.active hactive, ?_⟩
  rcases h.lease with hlease | ⟨-, -, j, hj, hunmanaged⟩
  · obtain ⟨state, expiresAt, rfl⟩ := h.row
    obtain rfl : expiresAt = x.expiresAt := hlease
    obtain rfl : state = x.state := hactive.trans (h.active hactive).symm
    exact .same
  · exact .unmanaged hj hunmanaged

/-- An execution that is active after a change was active before, or it is new. -/
theorem Change.lease {db db' : Db} {es : List Event} (h : Change rt db es db') {k : String}
    {x x' : JobExecution} (hx : db.executions.get? k = some x)
    (hx' : db'.executions.get? k = some x') (hactive : x'.state = .active) :
    x.state = .active ∧ LeaseStep rt db db' x x' := by
  have hkept : db.executions.get? k = some x' → x.state = .active ∧ LeaseStep rt db db' x x' :=
    fun hsame => by
      obtain rfl := Option.some.inj (hx.symm.trans hsame)
      exact ⟨hactive, .same⟩
  cases h with
  | dropped keep =>
    have hx' : (db.executions.filter fun x => (db.jobs.get? x.jobId).any keep).get? k =
      some x' := hx'
    rw [Table.get?_filter, Option.filter_eq_some_iff] at hx'
    exact hkept hx'.1
  | halted now stored =>
    rw [Table.get?_map, hx, Option.map_some, Option.some.injEq] at hx'
    subst hx'
    refine hkept ?_
    rw [halt_active hactive, hx]
  | held stored holds =>
    refine leaseStep_put hx' (stored_key stored ?_) (fun h => holds.leaseStep h) hx hactive
    obtain ⟨state, expiresAt, hrow⟩ := holds.row
    rw [hrow]
    rfl
  | finished o now message execution =>
    exact leaseStep_put hx' (stored_key execution rfl)
      (fun h => absurd h (finish_not_active _ _)) hx hactive
  | claimed claims =>
    rcases claims.executions with hsame | ⟨y, -, hinsert⟩
    · exact hkept (hsame ▸ hx')
    · exact hkept (hx.trans ((Table.get?_insert_of_get? hinsert hx).symm.trans hx'))
  | issued issues =>
    exact hkept (hx.trans ((Table.get?_insert_of_get? issues.executions hx).symm.trans hx'))
  | renewed renews =>
    obtain ⟨user, hl⟩ := renews.live
    exact leaseStep_put hx' renews.stored_key (fun _ => ⟨hl.active, .renewed renews rfl rfl⟩) hx
      hactive
  | concluded reports =>
    exact leaseStep_put hx' (stored_key reports.execution rfl)
      (fun h => absurd h (finish_not_active _ _)) hx hactive
  | ended reports =>
    exact leaseStep_put hx' (stored_key reports.execution rfl)
      (fun h => absurd h (finish_not_active _ _)) hx hactive
  | _ => exact hkept hx'

/-- A contract was issued just now, with its first lease, or it is a stored one. -/
theorem Change.leased_row {db db' : Db} {es : List Event} (h : Change rt db es db') {k : String}
    {c' : ManagedContract} (hc' : db'.contracts.get? k = some c') :
    (∃ clocks request jobId body ids i, Issues rt.issuer clocks request jobId body ids db i ∧
      .leased i.approval i.running i.execution ∈ es ∧ c' = i.contract ids ∧
      db' = i.commit ids db) ∨
    ∃ c, db.contracts.get? k = some c ∧ c'.jobId = c.jobId ∧
      c'.approvalRecordId = c.approvalRecordId := by
  cases h with
  | issued issues =>
    rcases Table.of_get?_insert issues.contracts hc' with ⟨rfl, rfl⟩ | hc
    · exact .inl ⟨_, _, _, _, _, _, issues, by simp, rfl, rfl⟩
    · exact .inr ⟨c', hc, rfl, rfl⟩
  | consumed consumes =>
    rcases Table.of_get?_put consumes.stored_key hc' with ⟨rfl, rfl⟩ | ⟨-, hc⟩
    · exact .inr ⟨_, consumes.stored_key, rfl, rfl⟩
    · exact .inr ⟨c', hc, rfl, rfl⟩
  | _ => exact .inr ⟨c', hc', rfl, rfl⟩

/-- What the bounds of leases rest on. -/
structure Leasing (db : Db) : Prop where
  sound : Sound db
  states : ∀ k a, db.approvals.get? k = some a → StatesEnds a.context
  named : ∀ k c j, db.contracts.get? k = some c → db.jobs.get? c.jobId = some j →
    j.managedApprovalId = some c.approvalRecordId
  capped : Capped db

theorem Leasing.empty : Leasing .empty where
  sound := .empty
  states := fun _ _ h => by cases h
  named := fun _ _ _ h => by cases h
  capped := fun _ h => absurd h List.not_mem_nil

section
variable {db db' : Db} {es : List Event}

theorem Leasing.states_kept (hdb : Leasing db) (h : Change rt db es db') {k : String}
    {a : ManagedApproval} (ha : db'.approvals.get? k = some a) : StatesEnds a.context := by
  cases h with
  | registered registers =>
    rcases Table.of_get?_insert registers.approvals ha with ⟨rfl, rfl⟩ | ha
    · exact registers.statesEnds
    · exact hdb.states k a ha
  | revoked stored =>
    rcases Table.of_get?_put (revoked_key stored) ha with ⟨rfl, rfl⟩ | ⟨-, ha⟩
    · have hkept := hdb.states _ _ stored
      exact hkept
    · exact hdb.states k a ha
  | issued issues =>
    rcases Table.of_get?_put issues.counted_key ha with ⟨rfl, rfl⟩ | ⟨-, ha⟩
    · have hkept := hdb.states _ _ issues.approval_key
      exact hkept
    · exact hdb.states k a ha
  | _ => exact hdb.states k a ha

omit [Unicode] in
/-- A job that has an execution keeps its approval and its start. -/
theorem JobStep.kept (hmatched : Matched db) {j j' : ScanJob} {x : JobExecution}
    (h : JobStep db db' j j') (hj : db.jobs.get? j.id = some j)
    (hx : db.executions.get? j.id = some x) :
    j'.managedApprovalId = j.managedApprovalId ∧ j'.startedAt = j.startedAt := by
  cases h with
  | progress => exact ⟨rfl, rfl⟩
  | started pending =>
    rw [hmatched.pending hj pending] at hx
    cases hx
  | bound pending =>
    rw [hmatched.pending hj pending] at hx
    cases hx

/-- The rows behind a contract that was there before, as they were. -/
theorem Leasing.before (hdb : Leasing db) (h : Change rt db es db') {k : String}
    {c : ManagedContract} {j' : ScanJob} (hc : db.contracts.get? k = some c)
    (hj' : db'.jobs.get? c.jobId = some j') :
    ∃ j x, db.jobs.get? c.jobId = some j ∧ db.executions.get? c.jobId = some x ∧
      j.authorizationContractRequired = true ∧ j.managedApprovalId = some c.approvalRecordId ∧
      j'.managedApprovalId = j.managedApprovalId ∧ j'.startedAt = j.startedAt := by
  obtain ⟨hknown, hrows⟩ := hdb.sound.endings.contract k c hc
  obtain ⟨j, hj, hstep⟩ := h.job_of_known hknown hj'
  obtain ⟨hrequired, x, hx⟩ := hrows j hj
  have hid : j.id = c.jobId := Table.key_of_get? hj
  obtain ⟨hbound, hstarted⟩ := hstep.kept hdb.sound.matched (hid ▸ hj) (hid ▸ hx)
  exact ⟨j, x, hj, hx, hrequired, hdb.named k c j hc hj, hbound, hstarted⟩

theorem Leasing.named_kept (hdb : Leasing db) (h : Change rt db es db') {k : String}
    {c' : ManagedContract} {j' : ScanJob} (hc' : db'.contracts.get? k = some c')
    (hj' : db'.jobs.get? c'.jobId = some j') :
    j'.managedApprovalId = some c'.approvalRecordId := by
  rcases h.leased_row hc' with ⟨_, _, _, _, _, i, hi, -, rfl, rfl⟩ | ⟨c, hc, hjob, hname⟩
  · have hrunning := Table.get?_put_self hi.running_key
    obtain rfl := Option.some.inj (hj'.symm.trans hrunning)
    obtain ⟨row, p, raw, f, hp⟩ := hi.permitted
    exact hp.current
  · rw [hjob] at hj'
    obtain ⟨j, x, -, -, -, hbound, hsame, -⟩ := hdb.before h hc hj'
    rw [hsame, hbound, hname]

/-- A change keeps leases within their authority when the first leases that it gives are. -/
theorem Leasing.capped_kept (hdb : Leasing db) (h : Change rt db es db')
    (hes : ∀ a j x, .leased a j x ∈ es → ∃ startedAt, j.startedAt = some startedAt ∧
      LeaseWithin a.context startedAt x.durationSeconds x.expiresAt) : Capped db' := by
  intro c' hmem a' x' j' ha' hx' hj' hactive
  have hc' := Table.get?_of_mem hmem
  rcases h.leased_row hc' with ⟨_, _, _, _, _, i, hi, hev, rfl, rfl⟩ | ⟨c, hc, hjob, hname⟩
  · obtain rfl := Option.some.inj (hj'.symm.trans (Table.get?_put_self hi.running_key))
    obtain rfl := Option.some.inj (hx'.symm.trans hi.execution_stored)
    obtain rfl := Option.some.inj (ha'.symm.trans (Table.get?_put_self hi.counted_key))
    have hfirst := hes _ _ _ hev
    exact hfirst
  · rw [hjob] at hx' hj'
    rw [hname] at ha'
    obtain ⟨j, x, hj, hx, hrequired, hbound, -, hstarted⟩ := hdb.before h hc hj'
    obtain ⟨a, ha, -⟩ := hdb.sound.issuance.approval _ c hc
    obtain ⟨b, hb, hstep⟩ := h.approval ha
    obtain rfl := Option.some.inj (hb.symm.trans ha')
    have hcontext : b.context = a.context := by
      obtain ⟨issued, revoked, rfl⟩ := hstep.row
      rfl
    rw [hcontext, hstarted]
    obtain ⟨hwas, hlease⟩ := h.lease hx hx' hactive
    cases hlease with
    | same => exact hdb.capped c (Table.mem_of_get? hc) a x' j ha hx hj hactive
    | unmanaged job unmanaged =>
      have hid : x.jobId = c.jobId := Table.key_of_get? hx
      obtain rfl := Option.some.inj (hj.symm.trans (hid ▸ job))
      exact absurd hrequired (by simp [required_of_managed_false unmanaged])
    | renewed renews live =>
      -- the approval of the renewal is the one of the contract
      obtain ⟨user, hl⟩ := renews.live
      obtain ⟨result, row, p, raw, f, hp, -⟩ := hl.permitted
      have hid : x.jobId = c.jobId := Table.key_of_get? hx
      have hid' := Table.key_of_get? hl.execution
      rw [live] at hid'
      obtain rfl := Option.some.inj (hj.symm.trans ((hid.symm.trans hid') ▸ hl.job))
      obtain happroval := Option.some.inj (hbound.symm.trans hp.current)
      obtain rfl := Option.some.inj (ha.symm.trans (happroval ▸ hp.stored))
      exact renews.leaseWithin (hdb.states _ _ hp.stored)

theorem Leasing.step (hdb : Leasing db) (h : Change rt db es db')
    (hes : ∀ a j x, .leased a j x ∈ es → ∃ startedAt, j.startedAt = some startedAt ∧
      LeaseWithin a.context startedAt x.durationSeconds x.expiresAt) : Leasing db' where
  sound := hdb.sound.step h
  states := fun _ _ ha => hdb.states_kept h ha
  named := fun _ _ _ hc hj => hdb.named_kept h hc hj
  capped := hdb.capped_kept h hes

end

theorem Leasing.run {db db' : Db} {es : List Event} (hdb : Leasing db) (h : Changes rt db es db')
    (hes : ∀ a j x, .leased a j x ∈ es → ∃ startedAt, j.startedAt = some startedAt ∧
      LeaseWithin a.context startedAt x.durationSeconds x.expiresAt) : Leasing db' := by
  let inv (fs : List Event) (db : Db) : Prop := fs ⊆ es → Leasing db
  have hstart : inv [] db := fun _ => hdb
  refine h.traceInvariant inv (fun {db₁ db₂ fs gs} hdb hchange hsub => ?_) hstart
    (List.Subset.refl _)
  have hdb := hdb fun ev hev => hsub (List.mem_append_left _ hev)
  exact hdb.step hchange fun a j x hev => hes a j x (hsub (List.mem_append_right _ hev))

/-! ## Runs -/

/-- The first lease of an accepted claim, in the rows of the claim. -/
theorem Op.leases.within {op : Op} {db : Db} {i : Issued} {reply : Reply}
    (h : op.leases rt db i) (hreply : (exec rt op db).2 = .ok reply)
    (hop : ¬ op.overleases rt db) : ∃ startedAt, i.running.startedAt = some startedAt ∧
      LeaseWithin i.approval.context startedAt i.execution.durationSeconds
        i.execution.expiresAt := by
  obtain ⟨jobId, body, ids, observed, hcall, hi⟩ := h
  obtain ⟨hexpires, hseconds⟩ := hi.lease
  obtain ⟨row, p, raw, f, hp⟩ := hi.permitted
  refine ⟨i.startedAt.instant, rfl, ?_⟩
  by_contra hwithin
  refine hop ⟨jobId, body, ids, reply, i.job, i.approval, i.startedAt, _, hcall, hreply, hi.job,
    hp.approval, hi.startedAt, hseconds, ?_⟩
  rwa [hexpires] at hwithin

theorem Leasing.exec {op : Op} {db : Db} (hdb : Leasing db) (hop : ¬ op.overleases rt db) :
    Leasing (exec rt op db).1 := by
  obtain ⟨es, hchanges, hemits⟩ := exec_changes rt op db
  cases hreply : (VardrMap.exec rt op db).2 with
  | ok reply =>
    refine hdb.run hchanges fun a j x hev => ?_
    obtain ⟨i, hleases, rfl, rfl, rfl⟩ := hemits.leased a j x hev
    exact hleases.within hreply hop
  | error e =>
    by_cases hmanaged : ∃ m, op.call = .managed m
    · -- a refused managed operation leaves at most another clock reading
      obtain ⟨m, hcall⟩ := hmanaged
      have hexec : VardrMap.exec rt op db = m.run rt op.request op.clocks db := by
        rw [VardrMap.exec, hcall]
      rw [hexec] at hreply ⊢
      rcases managedOp_cases rt op.request op.clocks m db with
        ⟨observed, e', hrun⟩ | ⟨-, observed, db', reply, -, hrun⟩
      · rw [hrun]
        have hobserved : Changes rt db [] { db with observed } := changes_observed db observed
        exact hdb.run hobserved fun _ _ _ hev => absurd hev List.not_mem_nil
      · rw [hrun] at hreply
        cases hreply
    · refine hdb.run hchanges fun a j x hev => ?_
      obtain ⟨i, ⟨jobId, body, ids, observed, hcall, -⟩, -⟩ := hemits.leased a j x hev
      exact absurd ⟨_, hcall⟩ hmanaged

/-- A claim that overleases leaves an execution whose lease outlives its authority. -/
theorem overleases_not_capped {op : Op} {db : Db} (h : op.overleases rt db) :
    ¬ Capped (exec rt op db).1 := by
  obtain ⟨jobId, body, ids, reply, j, a, startedAt, n, hcall, hreply, hj, ha, hstarted, hn,
    hover⟩ := h
  obtain ⟨-, observed, db', hbody, hdb'⟩ := exec_managed_ok hcall hreply
  obtain ⟨i, hi, rfl, -⟩ := claim_eq_ok hbody
  obtain ⟨hexpires, hseconds⟩ := hi.lease
  obtain ⟨row, p, raw, f, hp⟩ := hi.permitted
  obtain rfl : j = i.job := Option.some.inj (hj.symm.trans hi.job)
  obtain rfl : a = i.approval := Option.some.inj (ha.symm.trans hp.approval)
  obtain rfl : startedAt = i.startedAt := Except.ok.inj (hstarted.symm.trans hi.startedAt)
  obtain rfl : n = i.execution.durationSeconds := Option.some.inj (hn.symm.trans hseconds)
  intro hcapped
  have hcontract : (i.commit ids { db with observed }).contracts.get? (i.contract ids).id =
      some (i.contract ids) := (Table.get?_insert hi.contracts _).trans (if_pos rfl)
  obtain ⟨-, hactive, -⟩ := issue_eq_ok hi.issue
  rw [hdb'] at hcapped
  obtain ⟨t, ht, hwithin⟩ := hcapped _ (Table.mem_of_get? hcontract) _ _ _
    (Table.get?_put_self hi.counted_key) hi.execution_stored
    (Table.get?_put_self hi.running_key) hactive
  obtain rfl := Option.some.inj ht
  rw [hexpires] at hwithin
  exact hover hwithin

/-- In a run whose accepted managed claims are all made early enough for their first lease, every
lease of an active managed execution is within its authority, in every database on the way; and
a claim made too late leaves a database where that fails. -/
theorem leases_capped_iff (rt : Runtime) (ops : List Op) :
    (∀ earlier, earlier <+: ops → Capped (after rt earlier .empty)) ↔
      ∀ earlier op, earlier ++ [op] <+: ops → ¬ op.overleases rt (after rt earlier .empty) := by
  constructor
  · intro hcapped earlier op hprefix hop
    refine overleases_not_capped hop ?_
    have hafter := hcapped _ hprefix
    rwa [after_append] at hafter
  · intro hok earlier hprefix
    refine (after_induction Leasing (fun op db => ¬ op.overleases rt db)
      (fun op db hdb hop => hdb.exec hop) (fun before op h => ?_) .empty).capped
    exact hok before op (h.trans hprefix)

/-! ## An approval that ends sooner -/

omit [Unicode] in
theorem exampleContext_expires_at {t : DateTime}
    (h : @ReadsTime Unicode.ascii exampleContext "expires_at" t) :
    t.instant = 63900000005000000 := by
  let _ := Unicode.ascii
  obtain ⟨s, hs, ht⟩ := h
  obtain rfl : "2025-11-29T08:00:05Z" = s := Json.str.inj hs
  have hread : (DateTime.timestamp "2025-11-29T08:00:05Z".toList).map DateTime.instant =
      some 63900000005000000 := by decide +kernel
  rw [ht] at hread
  exact Option.some.inj hread

omit [Unicode] in
/-- An approval that ends five seconds after the claim is outlived by the first lease. -/
theorem lease_outlives_approval : ¬ ∀ (rt : Runtime) (ops : List Op),
    @Capped Unicode.ascii (@after Unicode.ascii rt ops .empty) := by
  let _ := Unicode.ascii
  intro h
  have hcapped := h deliveryRuntime (deliveryOps.take 11 ++ (deliveryOps.drop 11).take 1)
  rw [after_append, deliveryApproved.2, deliveryClaimed.2] at hcapped
  obtain ⟨startedAt, -, hwithin⟩ := hcapped _ (List.mem_singleton_self _) _ _ _ rfl rfl rfl rfl
  obtain ⟨t, ht, hle⟩ := hwithin.expires_at
  have hend := exampleContext_expires_at ht
  change (63900000010000000 : ℤ) ≤ t.instant at hle
  rw [hend] at hle
  exact absurd hle (by decide)

end VardrMap
