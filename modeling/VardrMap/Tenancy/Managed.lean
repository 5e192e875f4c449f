import VardrMap.Tenancy.Requests

/-!
# Managed operations and the engagements that they change

The job of a managed operation belongs to an engagement that its caller can reach, and nothing
is written outside that engagement. An approval is written under the job that it was
registered for, a contract, a result and a stop under the job of the contract.
-/
namespace VardrMap
open Lib

variable [Unicode] {rt : Runtime} {request : HttpRequest} {clocks : Clocks} {db db' : Db}
  {reply : Reply}

/-! ## Who may ask -/

section
variable {issuer : Issuer} {jobId : String}

/-- The job of a managed operation belongs to an engagement that its caller can reach. -/
structure Reached (identity : Identity) (request : HttpRequest) (db : Db) (jobId : String)
    (j : ScanJob) : Prop where
  stored : db.jobs.get? jobId = some j
  caller : ∃ user, getCurrentUser identity db request = .ok user ∧
    db.reaches user.githubId j.programId = true

theorem operator_eq_ok {actor : User} (h : issuer.operator db request = .ok actor) :
    ∃ user, getCurrentUser issuer.identity db request = .ok user ∧
      actor.githubId = user.githubId := by
  unfold Issuer.operator at h
  obtain ⟨_, -, h⟩ := bind_eq_ok h
  obtain ⟨user, huser, h⟩ := bind_eq_ok h
  obtain ⟨_, -, h⟩ := bind_eq_ok h
  obtain ⟨_, -, h⟩ := bind_eq_ok h
  obtain rfl := Except.ok.inj h
  exact ⟨user, huser, rfl⟩

theorem reached_of_operator {actor : User} {j : ScanJob}
    (hactor : issuer.operator db request = .ok actor) (hj : lockJob db jobId actor = .ok j) :
    Reached issuer.identity request db jobId j := by
  obtain ⟨user, huser, hsame⟩ := operator_eq_ok hactor
  obtain ⟨hj, hreach⟩ := lockJob_reaches hj
  exact ⟨hj, user, huser, hsame ▸ hreach⟩

theorem reached_of_owned {user : User} {body : ControlRequest} {x : JobExecution}
    (huser : getCurrentUser issuer.identity db request = .ok user)
    (hx : owned db jobId user request body = .ok x) :
    ∃ j, Reached issuer.identity request db jobId j := by
  obtain ⟨-, j, hj, hreach⟩ := owned_reaches hx
  exact ⟨j, hj, user, huser, hreach⟩

theorem live_reached {body : ControlRequest} {ref : AttemptRef} {l : Issuer.Live}
    (h : issuer.live clocks request jobId body ref db = .ok (db', l)) :
    ∃ j, Reached issuer.identity request db jobId j := by
  unfold Issuer.live at h
  obtain ⟨user, huser, h⟩ := bind_eq_ok h
  obtain ⟨x, hx, -⟩ := bind_eq_ok h
  exact reached_of_owned huser hx

theorem ownedReport_reached {body : ControlRequest} {r : Report} {o : OwnedReport}
    (h : Results.ownedReport issuer request jobId body r db = .ok o) :
    ∃ j, Reached issuer.identity request db jobId j := by
  unfold Results.ownedReport at h
  obtain ⟨n, -, h⟩ := bind_eq_ok h
  obtain ⟨user, huser, h⟩ := bind_eq_ok h
  obtain ⟨x, hx, -⟩ := bind_eq_ok h
  exact reached_of_owned huser hx

theorem observer_reached {body : ClaimControl} {f : Observations.Fingerprints}
    {o : Observations.Observed}
    (h : Observations.observer issuer request jobId body f db = .ok o) :
    ∃ j, Reached issuer.identity request db jobId j := by
  obtain ⟨user, huser, h⟩ := bind_eq_ok h
  obtain ⟨j, hj, -⟩ := bind_eq_ok h
  obtain ⟨hj, hreach⟩ := lockJob_reaches hj
  exact ⟨j, hj, user, huser, hreach⟩

/-- Every managed operation reads its job for a caller who can reach its engagement. -/
theorem body_reached {op : ManagedOp} (h : op.body rt request clocks db = .ok (db', reply)) :
    ∃ j, Reached rt.identity request db op.jobId j := by
  cases op with
  | review id r =>
    obtain ⟨actor, hactor, h⟩ := bind_eq_ok (show rt.issuer.review _ _ _ _ _ = _ from h)
    obtain ⟨j, hj, -⟩ := bind_eq_ok h
    exact ⟨j, reached_of_operator hactor hj⟩
  | register r =>
    obtain ⟨actor, hactor, h⟩ := bind_eq_ok (show rt.issuer.register _ _ _ _ = _ from h)
    obtain ⟨j, hj, -⟩ := bind_eq_ok h
    exact ⟨j, reached_of_operator hactor hj⟩
  | revoke id =>
    obtain ⟨actor, hactor, h⟩ := bind_eq_ok (show rt.issuer.revoke _ _ _ _ = _ from h)
    obtain ⟨j, hj, -⟩ := bind_eq_ok h
    exact ⟨j, reached_of_operator hactor hj⟩
  | claim id body ids =>
    obtain ⟨user, huser, h⟩ := bind_eq_ok (show rt.issuer.claim _ _ _ _ _ _ = _ from h)
    obtain ⟨j, hj, -⟩ := bind_eq_ok h
    obtain ⟨hj, hreach⟩ := lockJob_reaches hj
    exact ⟨j, hj, user, huser, hreach⟩
  | current id body ref =>
    obtain ⟨⟨db₂, l⟩, hlive, -⟩ := bind_eq_ok (show rt.issuer.current _ _ _ _ _ _ = _ from h)
    exact live_reached hlive
  | refresh id body ref =>
    obtain ⟨⟨db₂, l⟩, hlive, -⟩ := bind_eq_ok (show rt.issuer.refresh _ _ _ _ _ _ = _ from h)
    exact live_reached hlive
  | consume id body ref sha =>
    obtain ⟨⟨db₂, l⟩, hlive, -⟩ := bind_eq_ok (show rt.issuer.consume _ _ _ _ _ _ _ = _ from h)
    exact live_reached hlive
  | submit id body r a =>
    obtain ⟨o, ho, -⟩ := bind_eq_ok (show Results.submit _ _ _ _ _ _ _ _ _ = _ from h)
    exact ownedReport_reached ho
  | finish id body r receipt outcome confirmed =>
    obtain ⟨outcome, -, h⟩ := bind_eq_ok h
    obtain ⟨o, ho, -⟩ := bind_eq_ok (show Results.finish _ _ _ _ _ _ _ _ _ = _ from h)
    exact ownedReport_reached ho
  | inspectResult id body r =>
    obtain ⟨o, ho, -⟩ := bind_eq_ok (show Results.inspect _ _ _ _ _ _ = _ from h)
    exact ownedReport_reached ho
  | report id body r outcome cause confirmed =>
    obtain ⟨o, ho, -⟩ := bind_eq_ok (show Stops.report _ _ _ _ _ _ _ _ = _ from h)
    exact ownedReport_reached ho
  | inspectStop id body r =>
    obtain ⟨o, ho, -⟩ := bind_eq_ok (show Stops.inspect _ _ _ _ _ _ = _ from h)
    exact ownedReport_reached ho
  | observe id body f =>
    obtain ⟨o, ho, -⟩ := bind_eq_ok (show Observations.inspect _ _ _ _ _ _ = _ from h)
    exact observer_reached ho

/-! ## What is written -/

/-- A registration files an approval under its job. -/
theorem Registers.holding {r : Issuer.Registration} {i : Registered} {id : String}
    (h : Registers issuer clocks r db i) (hid : i.job.programId ≠ id) :
    ({ db with
      approvals := i.approvals
      jobs := db.jobs.put (i.bound issuer r)
      observed := some i.locked.instant } : Db).holding id = db.holding id := by
  have hkey : i.job.id = r.jobId := Table.key_of_get? h.job
  let db₁ : Db := { db with approvals := i.approvals }
  have happrovals : db₁.holding id = db.holding id :=
    holding_approvals h.job hid fun k hk => Table.select_insert h.approvals
      (beq_eq_false_iff_ne.mpr fun hrow => hk (hkey.symm.trans hrow))
  have hjob₁ : db₁.jobs.get? r.jobId = some i.job := h.job
  have hjobs : (db₁.putJob (i.bound issuer r)).holding id = db₁.holding id :=
    holding_put hjob₁ hid rfl rfl
  exact hjobs.trans happrovals

omit [Unicode] in
theorem holding_putApproval {a r : ManagedApproval} {j : ScanJob} {id : String}
    (hj : db.jobs.get? a.jobId = some j) (hid : j.programId ≠ id)
    (ha : db.approvals.get? a.id = some a) (hkey : r.id = a.id) (hjob : r.jobId = a.jobId) :
    ({ db with approvals := db.approvals.put r } : Db).holding id = db.holding id :=
  holding_approvals hj hid fun _ hk => Table.select_put (stored_key ha hkey)
    (beq_eq_false_iff_ne.mpr hk) (beq_eq_false_iff_ne.mpr (hjob ▸ hk))

/-- A managed claim writes its own engagement, its job, and what is filed under it. -/
theorem Issues.holding {body : ClaimControl} {ids : Issuer.ClaimIds} {i : Issued} {id : String}
    (h : Issues issuer clocks request jobId body ids db i) (hid : i.job.programId ≠ id) :
    (i.commit ids db).holding id = db.holding id := by
  obtain ⟨hexecution, -⟩ := issue_eq_ok h.issue
  obtain ⟨row, p, raw, f, hp⟩ := h.permitted
  have hkey : i.job.id = jobId := Table.key_of_get? h.job
  have he : i.charged.id = i.job.programId := Table.key_of_get? h.engagement
  let db₁ := (db.minted ids.contractId).putEngagement i.charged
  have hengagement : db₁.holding id = db.holding id := holding_putEngagement (he ▸ hid)
  have hjob : db₁.jobs.get? jobId = some i.job := h.job
  let db₂ : Db := { db₁ with executions := i.executions }
  have hexecutions : db₂.holding id = db₁.holding id :=
    holding_executions hjob hid fun k hk =>
      Table.get?_insert_ne h.executions fun hx => hk (hexecution.symm.trans hx)
  let db₃ : Db := { db₂ with
    approvals := db₂.approvals.put { i.approval with issued := i.approval.issued + 1 } }
  have happroval : db₂.jobs.get? i.approval.jobId = some i.job := by
    rw [hp.jobId, hkey]
    exact h.job
  have happrovals : db₃.holding id = db₂.holding id :=
    holding_putApproval happroval hid h.approval_key rfl rfl
  let db₄ : Db := { db₃ with contracts := i.contracts }
  have hjob₃ : db₃.jobs.get? jobId = some i.job := h.job
  have hcontracts : db₄.holding id = db₃.holding id :=
    holding_contracts hjob₃ hid fun k hk =>
      contractOf_insert h.contracts fun hc => hk (hkey.symm.trans hc)
  have hjobs : (db₄.putJob i.running).holding id = db₄.holding id :=
    holding_put hjob hid rfl rfl
  exact hjobs.trans (hcontracts.trans (happrovals.trans (hexecutions.trans hengagement)))

/-- A first result is filed under its job and its contract. -/
theorem retained_holding {body : ControlRequest} {r : Report} {a : Results.Artifact}
    {o : OwnedReport} {row : ManagedResult} {id : String}
    (ho : Reports issuer request jobId body r db o) (h : Results.Retains clocks r a db db' o row)
    (hid : o.job.programId ≠ id) : db'.holding id = db.holding id := by
  have hkey : o.job.id = jobId := Table.key_of_get? ho.job
  obtain ⟨receipt, hreceipt, hinsert⟩ := h.filed
  obtain ⟨assessment, receipts, results, locked, hresults, -, -, rfl⟩ := h.committed
  obtain ⟨upload, caseSha256, receiptSha256, retained, rfl, -⟩ := h.row_eq
  let db₁ : Db := { db with receipts }
  have hreceipts : db₁.holding id = db.holding id :=
    holding_receipts ho.job hid fun k hk =>
      Table.get?_insert_ne hinsert fun hr => hk (hkey.symm.trans (hreceipt.symm.trans hr))
  have hjob : db₁.jobs.get? jobId = some o.job := ho.job
  let db₂ : Db := { db₁ with results }
  have hresult : db₂.holding id = db₁.holding id :=
    holding_results hjob hid ho.contract fun k hk => Table.get?_insert_ne hresults hk
  have hjobs : (db₂.putJob { o.job with assessment }).holding id = db₂.holding id :=
    holding_put hjob hid rfl rfl
  exact hjobs.trans (hresult.trans hreceipts)

/-- An end is written to the job, its execution, and the row under its contract. -/
theorem concluded_holding {body : ControlRequest} {r : Report} {o : OwnedReport}
    {row : ManagedResult} {outcome : Outcome} {i : ℕ} {locked : DateTime} {id : String}
    (ho : Reports issuer request jobId body r db o) (hrow : db.results.get? o.contract.id = some row)
    (h : Results.Concludes issuer clocks request body outcome db db' o row i locked)
    (hid : o.job.programId ≠ id) : db'.holding id = db.holding id := by
  obtain ⟨finishedAt, rfl⟩ := h.committed
  have hcontract : row.contractId = o.contract.id := Table.key_of_get? hrow
  have hexecution : o.execution.jobId = jobId := Table.key_of_get? ho.execution
  let db₁ : Db := { db with results := db.results.put { row with
    outcome := some outcome, finishedAt := some finishedAt } }
  have hresults : db₁.holding id = db.holding id :=
    holding_results ho.job hid ho.contract fun k hk =>
      Table.get?_put_ne fun hr => hk (hcontract.symm.trans hr)
  have hjob : db₁.jobs.get? jobId = some o.job := ho.job
  let db₂ := db₁.putExecution (o.execution.finish outcome)
  have hexecutions : db₂.holding id = db₁.holding id :=
    holding_putExecution (x := o.execution.finish outcome) (by rw [← hexecution] at hjob; exact hjob)
      hid
  have hjobs : (db₂.putJob (o.job.finish outcome finishedAt outcome.errorMessage)).holding id =
      db₂.holding id := holding_put hjob hid rfl rfl
  exact hjobs.trans (hexecutions.trans hresults)

theorem ended_holding {body : ControlRequest} {r : Report} {cause : String} {o : OwnedReport}
    {row : ManagedStop} {id : String} (ho : Reports issuer request jobId body r db o)
    (h : Stops.Ends clocks r cause db db' o row) (hid : o.job.programId ≠ id) :
    db'.holding id = db.holding id := by
  obtain ⟨stops, locked, hinsert, -, -, rfl⟩ := h.committed
  obtain ⟨receiptSha256, finishedAt, rfl, -⟩ := h.row_eq
  have hexecution : o.execution.jobId = jobId := Table.key_of_get? ho.execution
  let db₁ : Db := { db with stops }
  have hstops : db₁.holding id = db.holding id :=
    holding_stops ho.job hid ho.contract fun k hk => Table.get?_insert_ne hinsert hk
  have hjob : db₁.jobs.get? jobId = some o.job := ho.job
  let db₂ := db₁.putExecution (o.execution.finish (Stops.outcomeOf cause))
  have hexecutions : db₂.holding id = db₁.holding id :=
    holding_putExecution (x := o.execution.finish (Stops.outcomeOf cause))
      (by rw [← hexecution] at hjob; exact hjob) hid
  have hjobs : (db₂.putJob { o.job with
      status := .failed, completedAt := some finishedAt, errorMessage := cause }).holding id =
      db₂.holding id := holding_put hjob hid rfl rfl
  exact hjobs.trans (hexecutions.trans hstops)

/-- A managed operation writes what is kept of the engagement of its job. -/
theorem body_holding {op : ManagedOp} {j : ScanJob} {id : String} (hdb : Sound db)
    (h : op.body rt request clocks db = .ok (db', reply))
    (hj : db.jobs.get? op.jobId = some j) (hid : j.programId ≠ id) :
    db'.holding id = db.holding id := by
  cases op with
  | review =>
    rw [review_eq_ok h]
  | register r =>
    obtain ⟨t, -, rfl⟩ | ⟨i, hi, rfl⟩ := register_eq_ok h
    · rfl
    · obtain rfl := Option.some.inj (hj.symm.trans hi.job)
      exact hi.holding hid
  | revoke k =>
    obtain ⟨i, a, t, hi, ha, -, rfl⟩ := revoke_eq_ok h
    obtain rfl := Option.some.inj (hj.symm.trans hi)
    obtain ⟨approvalId, hcurrent, ha⟩ := Option.bind_eq_some_iff.mp ha
    obtain rfl : a.id = approvalId := Table.key_of_get? ha
    obtain ⟨a', ha', hjob⟩ := hdb.issuance.bound k j a.id hi hcurrent
    obtain rfl := Option.some.inj (ha.symm.trans ha')
    subst hjob
    exact holding_putApproval (r := { a with revoked := true }) hi hid ha rfl rfl
  | claim k body ids =>
    obtain ⟨i, hi, rfl, -⟩ := claim_eq_ok h
    obtain rfl := Option.some.inj (hj.symm.trans hi.job)
    exact hi.holding hid
  | current =>
    obtain ⟨user, l, t, -, -, rfl⟩ := current_eq_ok h
    rfl
  | refresh =>
    obtain ⟨r, hr, rfl⟩ := refresh_eq_ok h
    obtain ⟨user, hl⟩ := hr.live
    have hexecution : r.live.execution.jobId = _ := Table.key_of_get? hl.execution
    exact holding_putExecution (x := r.execution clocks) (by rw [← hexecution] at hj; exact hj) hid
  | consume =>
    obtain ⟨l, locked, last, hc, rfl⟩ := consume_eq_ok h
    obtain ⟨user, hl⟩ := hc.live
    obtain ⟨hstored, hjob⟩ := contractOf_stored hl.contract
    exact holding_contracts hj hid fun k hk =>
      contractOf_put (c := { l.contract with consumed := true }) hstored rfl
        fun hc => hk (hjob.symm.trans hc)
  | submit =>
    obtain ⟨o, ho, rfl | ⟨row, hrow⟩⟩ := Results.submit_eq_ok h
    · rfl
    · obtain rfl := Option.some.inj (hj.symm.trans ho.job)
      exact retained_holding ho hrow hid
  | finish =>
    obtain ⟨outcome, -, h⟩ := bind_eq_ok h
    obtain ⟨o, row, ho, hrow, -, ⟨-, rfl, -⟩ | ⟨⟨i, locked, hconcludes⟩, -⟩⟩ :=
      Results.finish_eq_ok h
    · rfl
    · obtain rfl := Option.some.inj (hj.symm.trans ho.job)
      exact concluded_holding ho hrow hconcludes hid
  | inspectResult =>
    rw [Results.inspect_eq_ok h]
  | report =>
    obtain ⟨o, ho, ⟨rfl, -⟩ | ⟨row, hrow, -⟩⟩ := Stops.report_eq_ok h
    · rfl
    · obtain rfl := Option.some.inj (hj.symm.trans ho.job)
      exact ended_holding ho hrow hid
  | inspectStop =>
    rw [Stops.inspect_eq_ok h]
  | observe =>
    rw [Observations.inspect_eq_ok h]

end

end VardrMap
