import VardrMap.Changes.Operations

/-!
# Sound databases

Facts that every reachable database has. The identifiers of engagements, jobs and contracts
were handed out, so that a new row never takes the place of an old one. A job belongs to a
stored engagement. And an execution belongs to a stored job whose status is the one of its
state.
-/
namespace VardrMap
open Lib

variable [Unicode] {rt : Runtime}

/-! ## The rows that a change replaces -/

omit [Unicode] in
/-- A stored row is stored under the key of any row with its key. -/
theorem stored_key {α : Type} [Keyed α String] {t : Table α} {k : String} {r s : α}
    (h : t.get? k = some r) (hs : Keyed.key s = Keyed.key r) : t.get? (Keyed.key s) = some r := by
  rwa [hs, Table.key_of_get? h]

theorem Amends.stored_key {db db' : Db} {e e' : Engagement} (h : Amends db db' e e') :
    db.engagements.get? (Keyed.key e') = some e := by
  change db.engagements.get? e'.id = _
  rw [h.id_eq]
  exact h.stored

omit [Unicode] in
theorem halted_key {db : Db} {e : Engagement} (now : Instant)
    (h : db.engagements.get? e.id = some e) :
    db.engagements.get? (Keyed.key (e.halted now)) = some e := by
  have hid : (e.halted now).id = e.id := by
    unfold Engagement.halted Engagement.advance Engagement.bump
    split <;> rfl
  change db.engagements.get? (e.halted now).id = _
  rwa [hid]

omit [Unicode] in
theorem Admits.stored_key {db : Db} {j : ScanJob} {e e' : Engagement} {c : Charge}
    (h : Admits db j e e' c) : db.engagements.get? (Keyed.key e') = some e := by
  have he : e.id = j.programId := Table.key_of_get? h.engagement
  rw [h.charged]
  change db.engagements.get? e.id = _
  rw [he]
  exact h.engagement

omit [Unicode] in
theorem Claims.stored_key {db : Db} {jobId : String} {e e' : Engagement} {j running : ScanJob}
    {c : Charge} {executions : Table JobExecution}
    (h : Claims db jobId e e' j running c executions) :
    db.jobs.get? (Keyed.key running) = some j := by
  obtain ⟨startedAt, caseSnapshot, rfl⟩ := h.running
  exact h.admits.job

theorem Registers.stored_key {issuer : Issuer} {clocks : Clocks} {r : Issuer.Registration}
    {db : Db} {i : Registered} (h : Registers issuer clocks r db i) :
    db.jobs.get? (Keyed.key (i.bound issuer r)) = some i.job := VardrMap.stored_key h.job rfl

section
variable {issuer : Issuer} {clocks : Clocks} {request : HttpRequest} {jobId : String} {db : Db}

theorem Issues.charged_key {body : ClaimControl} {ids : Issuer.ClaimIds} {i : Issued}
    (h : Issues issuer clocks request jobId body ids db i) :
    db.engagements.get? (Keyed.key i.charged) = some i.engagement := stored_key h.engagement rfl

theorem Issues.running_key {body : ClaimControl} {ids : Issuer.ClaimIds} {i : Issued}
    (h : Issues issuer clocks request jobId body ids db i) :
    db.jobs.get? (Keyed.key i.running) = some i.job := stored_key h.job rfl

theorem Issues.approval_key {body : ClaimControl} {ids : Issuer.ClaimIds} {i : Issued}
    (h : Issues issuer clocks request jobId body ids db i) :
    db.approvals.get? i.approval.id = some i.approval := by
  obtain ⟨row, p, raw, f, hp⟩ := h.permitted
  exact hp.stored

theorem Issues.counted_key {body : ClaimControl} {ids : Issuer.ClaimIds} {i : Issued}
    (h : Issues issuer clocks request jobId body ids db i) :
    db.approvals.get? (Keyed.key { i.approval with issued := i.approval.issued + 1 }) =
      some i.approval := h.approval_key

/-- The execution of a claim is stored under its job. -/
theorem Issues.execution_stored {body : ClaimControl} {ids : Issuer.ClaimIds} {i : Issued}
    (h : Issues issuer clocks request jobId body ids db i) :
    i.executions.get? i.job.id = some i.execution := by
  obtain ⟨hid, -⟩ := issue_eq_ok h.issue
  have hjob : i.job.id = jobId := Table.key_of_get? h.job
  rw [hjob, ← hid, Table.get?_insert h.executions]
  exact if_pos rfl

omit [Unicode] in
theorem revoked_key {a : ManagedApproval} (h : db.approvals.get? a.id = some a) :
    db.approvals.get? (Keyed.key { a with revoked := true }) = some a := h

omit [Unicode] in
/-- The contract of a job is stored. -/
theorem contractOf_stored {c : ManagedContract} (h : db.contractOf jobId = some c) :
    db.contracts.get? c.id = some c ∧ c.jobId = jobId := by
  obtain ⟨hmem, hid⟩ := contractOf_eq_some h
  exact ⟨Table.get?_of_mem hmem, hid⟩

theorem Consumes.stored_key {body : ControlRequest} {ref : AttemptRef} {sha : String}
    {l : Issuer.Live} {locked last : DateTime}
    (h : Consumes issuer clocks request jobId body ref sha db l locked last) :
    db.contracts.get? (Keyed.key { l.contract with consumed := true }) = some l.contract := by
  obtain ⟨user, hl⟩ := h.live
  exact (contractOf_stored hl.contract).1

theorem Renews.stored_key {body : ControlRequest} {ref : AttemptRef} {r : Renewal}
    (h : Renews issuer clocks request jobId body ref db r) :
    db.executions.get? (Keyed.key (r.execution clocks)) = some r.live.execution := by
  obtain ⟨user, hl⟩ := h.live
  exact VardrMap.stored_key hl.execution rfl

end

/-! ## The row of a job -/

/-- How a stored job changes: its progress, a claim, or a new approval. A claim alone sets a
job to running, and that of a managed job starts its execution. -/
inductive JobStep (db db' : Db) (j : ScanJob) : ScanJob → Prop
  | progress (status : JobStatus) (completedAt : Option Instant) (errorMessage : String)
      (assessment : Json) (running : status = .running → j.status = .running) :
      JobStep db db' j { j with status, completedAt, errorMessage, assessment }
  | started (pending : j.status = .pending) (startedAt : Option Instant) (caseSnapshot : Json)
      (claim : j.managed = false ∨ ∃ x, db'.executions.get? j.id = some x) :
      JobStep db db' j { j with status := .running, startedAt, caseSnapshot }
  | bound (pending : j.status = .pending) (a : ManagedApproval)
      (fresh : db.approvals.get? a.id = none) (stored : db'.approvals.get? a.id = some a)
      (names : a.jobId = j.id) (executions : db'.executions = db.executions) :
      JobStep db db' j { j with
        managedApprovalId := some a.id, authorizationContractRequired := true }

omit [Unicode] in
theorem JobStep.same (db db' : Db) (j : ScanJob) : JobStep db db' j j :=
  .progress j.status j.completedAt j.errorMessage j.assessment id

omit [Unicode] in
theorem Outcome.jobStatus_ne_running (o : Outcome) : o.jobStatus ≠ .running := by
  cases o <;> exact nofun

omit [Unicode] in
/-- A patch never sets a job to running. -/
theorem Patched.running {db : Db} {j j' : ScanJob} (h : Patched db j j')
    (hrunning : j'.status = .running) : j.status = .running := by
  by_contra hne
  have hmem := (h.moved fun hsame => hne (hsame ▸ hrunning)).1
  rw [hrunning] at hmem
  cases hstatus : j.status <;> simp [hstatus, JobStatus.patchable] at hmem

omit [Unicode] in
/-- One job is replaced. -/
theorem jobStep_put {db db' : Db} {r old j' : ScanJob} {k : String}
    (hjobs : db'.jobs = db.jobs.put r) (hold : db.jobs.get? (Keyed.key r) = some old)
    (hstep : JobStep db db' old r) (hj' : db'.jobs.get? k = some j') :
    ∃ j, db.jobs.get? k = some j ∧ JobStep db db' j j' := by
  rw [hjobs] at hj'
  rcases Table.of_get?_put hold hj' with ⟨rfl, rfl⟩ | ⟨-, hj⟩
  · exact ⟨old, hold, hstep⟩
  · exact ⟨j', hj, .same db db' j'⟩

/-- A job was queued just now, or it is a stored one after its step. -/
theorem Change.job_row {db db' : Db} {es : List Event} (h : Change rt db es db') {k : String}
    {j' : ScanJob} (hj' : db'.jobs.get? k = some j') :
    (Queued db j' ∧ j'.id = k ∧ k ∈ db'.ids ∧ .queued j' ∈ es) ∨
      ∃ j, db.jobs.get? k = some j ∧ JobStep db db' j j' := by
  cases h with
  | dropped keep =>
    have hj' : (db.jobs.filter keep).get? k = some j' := hj'
    rw [Table.get?_filter, Option.filter_eq_some_iff] at hj'
    exact .inr ⟨j', hj'.1, .same _ _ j'⟩
  | queued queued stored =>
    rcases Table.of_get?_insert stored hj' with ⟨rfl, rfl⟩ | hj
    · exact .inl ⟨queued, rfl, List.mem_cons_self .., List.mem_singleton_self _⟩
    · exact .inr ⟨j', hj, .same _ _ j'⟩
  | patched rows =>
    obtain ⟨j, hj, hpatched⟩ := rows.backward hj'
    obtain ⟨status, completedAt, errorMessage, assessment, hrow⟩ := hpatched.row
    refine .inr ⟨j, hj, ?_⟩
    have hrunning := hpatched.running
    rw [hrow] at hrunning ⊢
    exact .progress status completedAt errorMessage assessment hrunning
  | finished o now message execution opened job =>
    exact .inr (jobStep_put rfl (stored_key job rfl)
      (.progress _ _ _ _ fun h => absurd h o.jobStatus_ne_running) hj')
  | claimed claims =>
    refine .inr (jobStep_put rfl claims.stored_key ?_ hj')
    obtain ⟨startedAt, caseSnapshot, rfl⟩ := claims.running
    exact .started claims.admits.status _ _ (.inl claims.unmanaged)
  | registered registers =>
    refine .inr (jobStep_put rfl registers.stored_key ?_ hj')
    have hnew := registers.approvals
    exact .bound registers.status _ (Table.get?_of_insert hnew)
      ((Table.get?_insert hnew _).trans (if_pos rfl)) rfl rfl
  | issued issues =>
    exact .inr (jobStep_put rfl issues.running_key
      (.started issues.status _ _ (.inr ⟨_, issues.execution_stored⟩)) hj')
  | retained reports =>
    exact .inr (jobStep_put rfl (stored_key reports.job rfl) (.progress _ _ _ _ id) hj')
  | concluded reports =>
    exact .inr (jobStep_put rfl (stored_key reports.job rfl)
      (.progress _ _ _ _ fun h => absurd h (Outcome.jobStatus_ne_running _)) hj')
  | ended reports =>
    exact .inr (jobStep_put rfl (stored_key reports.job rfl) (.progress _ _ _ _ nofun) hj')
  | _ => exact .inr ⟨j', hj', .same _ _ j'⟩

/-- The columns of a job that are written when it is queued, and never after. -/
structure SameRequest (j j' : ScanJob) : Prop where
  programId : j'.programId = j.programId
  toolType : j'.toolType = j.toolType
  config : j'.config = j.config
  dependsOn : j'.dependsOn = j.dependsOn

omit [Unicode] in
theorem SameRequest.refl (j : ScanJob) : SameRequest j j := ⟨rfl, rfl, rfl, rfl⟩

omit [Unicode] in
theorem SameRequest.trans {j j' j'' : ScanJob} (h : SameRequest j j') (h' : SameRequest j' j'') :
    SameRequest j j'' where
  programId := h'.programId.trans h.programId
  toolType := h'.toolType.trans h.toolType
  config := h'.config.trans h.config
  dependsOn := h'.dependsOn.trans h.dependsOn

/-- What a change of a stored job shows in its events: a job is marked by a registration, which
files nothing, and set to running by a claim; its request stays. -/
structure JobEvents (db db' : Db) (es : List Event) (j j' : ScanJob) : Prop where
  marked : j'.authorizationContractRequired = true → j.authorizationContractRequired = true ∨
    .bound j ∈ es ∧ db'.receipts = db.receipts
  running : j'.status = .running → j.status = .running ∨ .began j ∈ es
  request : SameRequest j j'

omit [Unicode] in
theorem JobEvents.same (db db' : Db) (es : List Event) (j : ScanJob) : JobEvents db db' es j j :=
  ⟨.inl, .inl, .refl j⟩

omit [Unicode] in
/-- One job is replaced. -/
theorem jobEvents_put {db db' : Db} {es : List Event} {r old j j' : ScanJob} {k : String}
    (hj : db.jobs.get? k = some j) (hj' : (db.jobs.put r).get? k = some j')
    (hold : db.jobs.get? (Keyed.key r) = some old) (hevents : JobEvents db db' es old r) :
    JobEvents db db' es j j' := by
  rcases Table.of_get?_put hold hj' with ⟨rfl, rfl⟩ | ⟨-, hsame⟩
  · obtain rfl := Option.some.inj (hj.symm.trans hold)
    exact hevents
  · obtain rfl := Option.some.inj (hj.symm.trans hsame)
    exact .same db db' es j

theorem Change.job_events {db db' : Db} {es : List Event} (h : Change rt db es db') {k : String}
    {j j' : ScanJob} (hj : db.jobs.get? k = some j) (hj' : db'.jobs.get? k = some j') :
    JobEvents db db' es j j' := by
  cases h with
  | dropped keep =>
    have hj' : (db.jobs.filter keep).get? k = some j' := hj'
    rw [Table.get?_filter, Option.filter_eq_some_iff] at hj'
    obtain rfl := Option.some.inj (hj.symm.trans hj'.1)
    exact .same _ _ _ j
  | queued queued stored =>
    obtain rfl := Option.some.inj ((Table.get?_insert_of_get? stored hj).symm.trans hj')
    exact .same _ _ _ j
  | patched rows =>
    obtain ⟨j₁, hj₁, hpatched⟩ := rows.backward hj'
    obtain rfl := Option.some.inj (hj.symm.trans hj₁)
    have hrunning := hpatched.running
    obtain ⟨status, completedAt, errorMessage, assessment, rfl⟩ := hpatched.row
    exact ⟨.inl, fun h => .inl (hrunning h), ⟨rfl, rfl, rfl, rfl⟩⟩
  | finished o now message execution opened job =>
    exact jobEvents_put hj hj' (stored_key job rfl)
      ⟨.inl, fun h => absurd h o.jobStatus_ne_running, ⟨rfl, rfl, rfl, rfl⟩⟩
  | claimed claims =>
    refine jobEvents_put hj hj' claims.stored_key ?_
    obtain ⟨startedAt, caseSnapshot, rfl⟩ := claims.running
    exact ⟨.inl, fun _ => .inr (by simp), ⟨rfl, rfl, rfl, rfl⟩⟩
  | registered registers =>
    exact jobEvents_put hj hj' registers.stored_key
      ⟨fun _ => .inr ⟨List.mem_singleton_self _, rfl⟩, .inl, ⟨rfl, rfl, rfl, rfl⟩⟩
  | issued issues =>
    exact jobEvents_put hj hj' issues.running_key
      ⟨.inl, fun _ => .inr (by simp), ⟨rfl, rfl, rfl, rfl⟩⟩
  | retained reports =>
    exact jobEvents_put hj hj' (stored_key reports.job rfl)
      ⟨.inl, .inl, ⟨rfl, rfl, rfl, rfl⟩⟩
  | concluded reports =>
    exact jobEvents_put hj hj' (stored_key reports.job rfl)
      ⟨.inl, fun h => absurd h (Outcome.jobStatus_ne_running _), ⟨rfl, rfl, rfl, rfl⟩⟩
  | ended reports =>
    exact jobEvents_put hj hj' (stored_key reports.job rfl) ⟨.inl, nofun, ⟨rfl, rfl, rfl, rfl⟩⟩
  | _ =>
    obtain rfl := Option.some.inj (hj.symm.trans hj')
    exact .same _ _ _ j

/-! ## The row of an engagement -/

/-- How a stored engagement changes: its facts, stop-work, or a charge. -/
inductive EngagementStep (db db' : Db) (es : List Event) (e : Engagement) : Engagement → Prop
  | same : EngagementStep db db' es e e
  | amended {e' : Engagement} (amends : Amends db db' e e') : EngagementStep db db' es e e'
  | halted (now : Instant) : EngagementStep db db' es e (e.halted now)
  | charged {e' : Engagement} {j : ScanJob} {c : Charge} (admits : Admits db j e e' c)
      (emitted : .charged c ∈ es) : EngagementStep db db' es e e'

/-- An accepted managed claim is admitted by the ledgers and by stop-work. -/
theorem Issues.admits {issuer : Issuer} {clocks : Clocks} {request : HttpRequest} {jobId : String}
    {body : ClaimControl} {ids : Issuer.ClaimIds} {db : Db} {i : Issued}
    (h : Issues issuer clocks request jobId body ids db i) :
    Admits db i.job i.engagement i.charged (chargeOf i.engagement i.targets i.duration) := by
  obtain ⟨e, hcharge, hallocate⟩ := h.charge
  obtain ⟨row, p, raw, f, hp⟩ := h.permitted
  have hfacts := hp.projects.facts
  have he := hfacts.engagement
  rw [hp.projects.job_eq, h.engagement] at he
  refine admits_of_gates (stored_key h.job rfl) h.status h.engagement ?_ hcharge hallocate
  rw [Option.some.inj he]
  exact hfacts.stopWork

/-- An engagement was created just now, or it is a stored one after its step. -/
theorem Change.engagement_row {db db' : Db} {es : List Event} (h : Change rt db es db')
    {k : String} {e' : Engagement} (he' : db'.engagements.get? k = some e') :
    (k ∉ db.ids ∧ k ∈ db'.ids ∧ e'.targetsSpent = 0 ∧ e'.durationAllocated = 0) ∨
      ∃ e, db.engagements.get? k = some e ∧ EngagementStep db db' es e e' := by
  cases h with
  | engaged fresh unspent stored =>
    rcases Table.of_get?_insert stored he' with ⟨rfl, rfl⟩ | he
    · exact .inl ⟨fresh, List.mem_cons_self .., unspent⟩
    · exact .inr ⟨e', he, .same⟩
  | disengaged id =>
    rw [Table.get?_filter, Option.filter_eq_some_iff] at he'
    exact .inr ⟨e', he'.1, .same⟩
  | amended known amends =>
    rcases Table.of_get?_put amends.stored_key he' with ⟨rfl, rfl⟩ | ⟨-, he⟩
    · exact .inr ⟨_, amends.stored_key, .amended amends⟩
    · exact .inr ⟨e', he, .same⟩
  | halted now stored =>
    rcases Table.of_get?_put (halted_key now stored) he' with ⟨rfl, rfl⟩ | ⟨-, he⟩
    · exact .inr ⟨_, halted_key now stored, .halted now⟩
    · exact .inr ⟨e', he, .same⟩
  | claimed claims =>
    rcases Table.of_get?_put claims.admits.stored_key he' with ⟨rfl, rfl⟩ | ⟨-, he⟩
    · exact .inr ⟨_, claims.admits.stored_key, .charged claims.admits (List.mem_cons_self ..)⟩
    · exact .inr ⟨e', he, .same⟩
  | issued issues =>
    rcases Table.of_get?_put issues.charged_key he' with ⟨rfl, rfl⟩ | ⟨-, he⟩
    · exact .inr ⟨_, issues.charged_key, .charged issues.admits (List.mem_cons_self ..)⟩
    · exact .inr ⟨e', he, .same⟩
  | _ => exact .inr ⟨e', he', .same⟩

/-! ## The row of a contract -/

/-- A contract that was issued just now, the first of its job and the next of its approval. -/
structure NewContract (db db' : Db) (c : ManagedContract) (a : ManagedApproval) : Prop where
  fresh : c.id ∉ db.ids
  known : c.id ∈ db'.ids
  first : db.contractOf c.jobId = none
  approval : db.approvals.get? a.id = some a
  approvalRecordId : c.approvalRecordId = a.id
  jobId : a.jobId = c.jobId
  unconsumed : c.consumed = false
  job : ∃ j, db.jobs.get? c.jobId = some j ∧ j.status = .pending ∧ j.managedApprovalId = some a.id
  execution : ∃ x, db'.executions.get? c.jobId = some x

theorem Issues.newContract {issuer : Issuer} {clocks : Clocks} {request : HttpRequest}
    {jobId : String} {body : ClaimControl} {ids : Issuer.ClaimIds} {db : Db} {i : Issued}
    (h : Issues issuer clocks request jobId body ids db i) :
    NewContract db (i.commit ids db) (i.contract ids) i.approval where
  fresh := h.fresh
  known := List.mem_cons_self ..
  first := by
    have hfirst := h.first
    rwa [← Table.key_of_get? h.job] at hfirst
  approval := h.approval_key
  approvalRecordId := rfl
  jobId := by
    obtain ⟨row, p, raw, f, hp⟩ := h.permitted
    exact hp.jobId
  unconsumed := rfl
  job := by
    obtain ⟨row, p, raw, f, hp⟩ := h.permitted
    exact ⟨i.job, stored_key h.job rfl, h.status, hp.current⟩
  execution := ⟨i.execution, h.execution_stored⟩

/-- A contract was issued just now, or it is a stored one, possibly consumed just now. -/
theorem Change.contract_row {db db' : Db} {es : List Event} (h : Change rt db es db') {k : String}
    {c' : ManagedContract} (hc' : db'.contracts.get? k = some c') :
    (c'.id = k ∧ ∃ a, NewContract db db' c' a) ∨
      ∃ c, db.contracts.get? k = some c ∧ (c' = c ∨ c' = { c with consumed := true }) := by
  cases h with
  | issued issues =>
    rcases Table.of_get?_insert issues.contracts hc' with ⟨rfl, rfl⟩ | hc
    · exact .inl ⟨rfl, _, issues.newContract⟩
    · exact .inr ⟨c', hc, .inl rfl⟩
  | consumed consumes =>
    rcases Table.of_get?_put consumes.stored_key hc' with ⟨rfl, rfl⟩ | ⟨-, hc⟩
    · exact .inr ⟨_, consumes.stored_key, .inr rfl⟩
    · exact .inr ⟨c', hc, .inl rfl⟩
  | _ => exact .inr ⟨c', hc', .inl rfl⟩

/-! ## Identifiers -/

/-- Identifiers of stored rows were handed out. -/
structure Known (db : Db) : Prop where
  engagement : ∀ {k e}, db.engagements.get? k = some e → k ∈ db.ids
  job : ∀ {k j}, db.jobs.get? k = some j → k ∈ db.ids ∧ j.programId ∈ db.ids
  contract : ∀ {k c}, db.contracts.get? k = some c → k ∈ db.ids

omit [Unicode] in
theorem Known.empty : Known .empty := ⟨nofun, nofun, nofun⟩

theorem Change.ids_subset {db db' : Db} {es : List Event} (h : Change rt db es db') :
    db.ids ⊆ db'.ids := by
  cases h with
  | aside _ _ _ _ _ known => exact known
  | engaged => exact List.subset_cons_self _ _
  | amended known => exact known
  | queued => exact List.subset_cons_self _ _
  | issued => exact List.subset_cons_self _ _
  | _ => exact List.Subset.refl _

theorem Known.step {db db' : Db} {es : List Event} (hdb : Known db)
    (h : Change rt db es db') : Known db' where
  engagement := fun he' => by
    rcases h.engagement_row he' with ⟨-, hk, -⟩ | ⟨e, he, -⟩
    · exact hk
    · exact h.ids_subset (hdb.engagement he)
  job := fun hj' => by
    rcases h.job_row hj' with ⟨hqueued, -, hk, -⟩ | ⟨j, hj, hstep⟩
    · obtain ⟨e, he, -⟩ := hqueued.engagement
      exact ⟨hk, h.ids_subset (hdb.engagement he)⟩
    · obtain ⟨hk, hprogram⟩ := hdb.job hj
      cases hstep <;> exact ⟨h.ids_subset hk, h.ids_subset hprogram⟩
  contract := fun hc' => by
    rcases h.contract_row hc' with ⟨rfl, a, hnew⟩ | ⟨c, hc, -⟩
    · exact hnew.known
    · exact h.ids_subset (hdb.contract hc)

/-! ## Executions and jobs -/

/-- The status of a job with an execution in this state. -/
def ExecutionState.jobStatus : ExecutionState → JobStatus
  | active | cancelRequested | uncertain => .running
  | completed => .done
  | failed | cancelled => .failed

omit [Unicode] in
@[simp] theorem Outcome.state_jobStatus (o : Outcome) : o.state.jobStatus = o.jobStatus := by
  cases o <;> rfl

omit [Unicode] in
@[simp] theorem Outcome.state_final (o : Outcome) : o.state.final = true := by
  cases o <;> rfl

omit [Unicode] in
/-- A job whose execution is open is running. -/
theorem jobStatus_of_open {s : ExecutionState} (h : s.final = false) : s.jobStatus = .running := by
  cases s <;> first | rfl | simp [ExecutionState.final] at h

omit [Unicode] in
theorem jobStatus_ne_pending (s : ExecutionState) : s.jobStatus ≠ .pending := by
  cases s <;> simp [ExecutionState.jobStatus]

/-- An execution as its job shows it; a final one holds no capacity. -/
structure JobExecution.Fits (x : JobExecution) (j : ScanJob) : Prop where
  status : j.status = x.state.jobStatus
  unreserved : x.state.final = true → x.capacityReserved = false

/-- Every execution belongs to a job, which shows its state. -/
def Matched (db : Db) : Prop :=
  ∀ k x, db.executions.get? k = some x → ∃ j, db.jobs.get? k = some j ∧ x.Fits j

omit [Unicode] in
theorem Matched.empty : Matched .empty := fun _ _ hx => by cases hx

omit [Unicode] in
/-- A pending job has no execution. -/
theorem Matched.pending {db : Db} (hdb : Matched db) {k : String} {j : ScanJob}
    (hj : db.jobs.get? k = some j) (hpending : j.status = .pending) :
    db.executions.get? k = none := by
  cases hx : db.executions.get? k with
  | none => rfl
  | some x =>
    obtain ⟨j', hj', hfits⟩ := hdb _ _ hx
    obtain rfl : j = j' := Option.some.inj (hj.symm.trans hj')
    exact absurd (hfits.status.symm.trans hpending) (jobStatus_ne_pending _)

section
variable {db db' : Db} {x x' : JobExecution} {j j' : ScanJob}

omit [Unicode] in
/-- An execution and its job are replaced together. -/
theorem Matched.put (hdb : Matched db) (hexecutions : db'.executions = db.executions.put x')
    (hjobs : db'.jobs = db.jobs.put j') (hx : db.executions.get? (Keyed.key x') = some x)
    (hj : db.jobs.get? (Keyed.key j') = some j) (hid : j'.id = x'.jobId) (hfits : x'.Fits j') :
    Matched db' := by
  intro k y hy
  rw [hexecutions] at hy
  rw [hjobs]
  rcases Table.of_get?_put hx hy with ⟨rfl, rfl⟩ | ⟨hk, hy⟩
  · refine ⟨j', ?_, hfits⟩
    have hkey : Keyed.key j' = Keyed.key y := hid
    rw [← hkey]
    exact Table.get?_put_self hj
  · obtain ⟨i, hi, hyi⟩ := hdb _ _ hy
    have hkey : Keyed.key j' ≠ k := fun h => hk (hid.symm.trans h)
    exact ⟨i, by rwa [Table.get?_put_ne hkey], hyi⟩

omit [Unicode] in
/-- An execution is replaced by one with a state of the same status. -/
theorem Matched.putExecution (hdb : Matched db) (hexecutions : db'.executions = db.executions.put x')
    (hjobs : db'.jobs = db.jobs) (hx : db.executions.get? (Keyed.key x') = some x)
    (h : ∀ j, x.Fits j → x'.Fits j) : Matched db' := by
  intro k y hy
  rw [hexecutions] at hy
  rw [hjobs]
  rcases Table.of_get?_put hx hy with ⟨rfl, rfl⟩ | ⟨-, hy⟩
  · obtain ⟨j, hj, hfits⟩ := hdb _ _ hx
    exact ⟨j, hj, h j hfits⟩
  · exact hdb _ _ hy

omit [Unicode] in
/-- A job is replaced, and its execution fits it as before. -/
theorem Matched.putJob (hdb : Matched db) (hexecutions : db'.executions = db.executions)
    (hjobs : db'.jobs = db.jobs.put j') (hj : db.jobs.get? (Keyed.key j') = some j)
    (h : ∀ x : JobExecution, x.Fits j → x.Fits j') : Matched db' := by
  intro k x hx
  rw [hexecutions] at hx
  obtain ⟨i, hi, hfits⟩ := hdb _ _ hx
  rw [hjobs, Table.get?_put hj]
  by_cases hk : Keyed.key j' = k
  · rw [if_pos hk]
    rw [← hk, hj] at hi
    obtain rfl := Option.some.inj hi
    exact ⟨j', rfl, h x hfits⟩
  · rw [if_neg hk]
    exact ⟨i, hi, hfits⟩

omit [Unicode] in
/-- A claim of a pending job, without an execution of its own so far. -/
theorem Matched.putPending (hdb : Matched db) (hexecutions : db'.executions = db.executions)
    (hjobs : db'.jobs = db.jobs.put j') (hj : db.jobs.get? (Keyed.key j') = some j)
    (hpending : j.status = .pending) : Matched db' :=
  hdb.putJob hexecutions hjobs hj fun _ hfits =>
    absurd (hfits.status.symm.trans hpending) (jobStatus_ne_pending _)

omit [Unicode] in
/-- A claim of a pending job starts its execution. -/
theorem Matched.start (hdb : Matched db) (hinsert : db.executions.insert x = some db'.executions)
    (hjobs : db'.jobs = db.jobs.put j') (hj : db.jobs.get? (Keyed.key j') = some j)
    (hpending : j.status = .pending) (hid : x.jobId = j'.id) (hfits : x.Fits j') :
    Matched db' := by
  intro k y hy
  rcases Table.of_get?_insert hinsert hy with ⟨rfl, rfl⟩ | hy
  · have hkey : Keyed.key j' = Keyed.key y := hid.symm
    rw [hjobs, ← hkey]
    exact ⟨j', Table.get?_put_self hj, hfits⟩
  · have hkept : Matched { db with jobs := db.jobs.put j' } := hdb.putPending rfl rfl hj hpending
    obtain ⟨i, hi, hyi⟩ := hkept _ _ hy
    exact ⟨i, by rwa [hjobs], hyi⟩

end

theorem Matched.step {db db' : Db} {es : List Event} (hdb : Matched db)
    (h : Change rt db es db') : Matched db' := by
  cases h with
  | dropped keep =>
    intro k x hx
    have hx : (db.executions.filter fun x => (db.jobs.get? x.jobId).any keep).get? k = some x := hx
    rw [Table.get?_filter, Option.filter_eq_some_iff] at hx
    obtain ⟨hx, hkeep⟩ := hx
    obtain ⟨j, hj, hfits⟩ := hdb _ _ hx
    have hid : x.jobId = k := Table.key_of_get? hx
    rw [hid, hj] at hkeep
    refine ⟨j, ?_, hfits⟩
    change (db.jobs.filter keep).get? k = some j
    rw [Table.get?_filter, hj]
    simpa [Option.filter] using hkeep
  | halted now stored =>
    intro k x hx
    rw [Table.get?_map, Option.map_eq_some_iff] at hx
    obtain ⟨y, hy, rfl⟩ := hx
    obtain ⟨j, hj, hfits⟩ := hdb _ _ hy
    refine ⟨j, hj, ?_⟩
    unfold Db.halt JobExecution.requestCancel
    split
    · split
      · rename_i hactive
        have hactive : y.state = .active := by simpa using hactive
        exact ⟨by rw [hfits.status, hactive]; rfl, fun h => by cases h⟩
      · exact hfits
    · exact hfits
  | queued queued stored =>
    intro k x hx
    obtain ⟨j, hj, hfits⟩ := hdb _ _ hx
    exact ⟨j, Table.get?_insert_of_get? stored hj, hfits⟩
  | patched rows =>
    intro k x hx
    obtain ⟨j, hj, hfits⟩ := hdb _ _ hx
    obtain ⟨j', hj', hpatched⟩ := rows.forward hj
    refine ⟨j', hj', ?_, hfits.unreserved⟩
    by_contra hne
    have hid : j.id = k := Table.key_of_get? hj
    rcases (hpatched.moved fun h => hne (h.trans hfits.status)).2 with hpending | hnone
    · exact jobStatus_ne_pending _ (hfits.status.symm.trans hpending)
    · rw [hid, hx] at hnone
      cases hnone
  | held stored holds =>
    obtain ⟨state, expiresAt, rfl⟩ := holds.row
    refine hdb.putExecution rfl rfl (stored_key stored rfl) fun j hfits => ?_
    rcases holds.opened with hsame | ⟨hopen, hopen'⟩
    · rwa [hsame]
    · have hopen' : state.final = false := hopen'
      refine ⟨?_, fun hfinal => ?_⟩
      · rw [hfits.status, jobStatus_of_open hopen, jobStatus_of_open hopen']
      · rw [show state.final = true from hfinal] at hopen'
        cases hopen'
  | finished o now message execution opened job =>
    exact hdb.put rfl rfl (stored_key execution rfl) (stored_key job rfl) (Table.key_of_get? job)
      ⟨(Outcome.state_jobStatus o).symm, fun _ => rfl⟩
  | claimed claims =>
    have hpending := claims.admits.status
    have hkey := claims.stored_key
    rcases claims.executions with hsame | ⟨x, hstarts, hinsert⟩
    · exact hdb.putPending hsame rfl hkey hpending
    · obtain ⟨startedAt, caseSnapshot, rfl⟩ := claims.running
      refine hdb.start hinsert rfl hkey hpending hstarts.jobId ⟨?_, fun hfinal => ?_⟩
      · rw [hstarts.state]
        rfl
      · rw [hstarts.state] at hfinal
        cases hfinal
  | registered registers =>
    exact hdb.putPending rfl rfl registers.stored_key registers.status
  | issued issues =>
    obtain ⟨hid, hactive, -⟩ := issue_eq_ok issues.issue
    refine hdb.start issues.executions rfl issues.running_key issues.status
      (hid.trans (Table.key_of_get? issues.job).symm) ⟨?_, fun hfinal => ?_⟩
    · rw [hactive]
      rfl
    · rw [hactive] at hfinal
      cases hfinal
  | renewed renews =>
    exact hdb.putExecution rfl rfl renews.stored_key
      fun j hfits => ⟨hfits.status, hfits.unreserved⟩
  | retained reports =>
    exact hdb.putJob rfl rfl (stored_key reports.job rfl)
      fun x hfits => ⟨hfits.status, hfits.unreserved⟩
  | concluded reports stored concludes =>
    exact hdb.put rfl rfl (stored_key reports.execution rfl) (stored_key reports.job rfl)
      ((Table.key_of_get? reports.job).trans (Table.key_of_get? reports.execution).symm)
      ⟨(Outcome.state_jobStatus _).symm, fun _ => rfl⟩
  | ended reports known inserted ends =>
    refine hdb.put rfl rfl (stored_key reports.execution rfl) (stored_key reports.job rfl)
      ((Table.key_of_get? reports.job).trans (Table.key_of_get? reports.execution).symm)
      ⟨?_, fun _ => rfl⟩
    rw [JobExecution.finish, Outcome.state_jobStatus]
    unfold Stops.outcomeOf
    split <;> rfl
  | _ => exact hdb

/-! ## Reachable databases -/

/-- Every reachable database is sound. -/
theorem Reachable.sound {db : Db} (h : Reachable rt db) : Known db ∧ Matched db :=
  h.invariant (fun db => Known db ∧ Matched db)
    (fun hdb hchange => ⟨hdb.1.step hchange, hdb.2.step hchange⟩) ⟨.empty, .empty⟩

end VardrMap
