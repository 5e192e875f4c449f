import VardrMap.Changes.Records
import VardrMap.Operations

/-!
# Operations as changes

Whatever an operation commits is a sequence of changes, and it emits what the operation did:
the charge of the claim that it admitted, the lease of a managed claim, and the jobs that a
status change set to done.
-/
namespace VardrMap
open Lib

variable [Unicode] {rt : Runtime}

/-! ## The engagement routes -/

theorem engagementOp_changes {request : HttpRequest} {clocks : Clocks} {op : EngagementOp}
    {db db' : Db} {reply : Reply} (h : op.run rt request clocks db = .ok (db', reply)) :
    Changes rt db [] db' := by
  cases op with
  | create => exact createEngagement_changes h
  | update => exact updateEngagement_changes h
  | delete => exact deleteEngagement_changes h
  | configureDuration => exact configureDuration_changes h
  | configureTargets => exact configureTargets_changes h
  | configureConcurrency => exact configureConcurrency_changes h
  | engageStopWork => exact engageStopWork_changes h
  | releaseStopWork => exact releaseStopWork_changes h
  | addInScopeItem => exact addScope_changes h
  | addOutScopeItem => exact addScope_changes h
  | deleteScopeItem => exact deleteScopeItem_changes h
  | importScope => exact importScope_changes h
  | createAuthorization => exact createAuthorization_changes h
  | updateAuthorization => exact updateAuthorization_changes h
  | createProposal => exact createProposal_changes h
  | approveProposal => exact approveProposal_changes h
  | rejectProposal => exact rejectProposal_changes h
  | createTestCase => exact createTestCase_changes h
  | saveReviewedCases => exact saveReviewedCases_changes h
  | updateTestCase => exact updateTestCase_changes h
  | deleteTestCase => exact deleteTestCase_changes h

/-! ## What an operation emits -/

/-- The charge that an event states. -/
def Event.charge? : Event → Option Charge
  | charged c => some c
  | _ => none

/-- The engagement of a job. -/
def Db.programOf (db : Db) (jobId : String) : String :=
  ((db.jobs.get? jobId).map ScanJob.programId).getD ""

/-- The charge of a claim with this reply. -/
def claimCharge (db : Db) (jobId : String) : Except Refusal Reply → Option Charge
  | .ok (.claimed capability _ _) => some {
      engagementId := db.programOf jobId
      targets := ((capability.bind Capability.targetBudget).map TargetReceipt.charged).getD 0
      seconds := ((capability.bind Capability.durationBudget).map
        DurationReceipt.allocatedSeconds).getD 0 }
  | _ => none

/-- The charge of the claim that an operation admits. -/
def admitted (rt : Runtime) (op : Op) (db : Db) : Option Charge :=
  match op.call with
  | .job (.claim jobId _ _) => claimCharge db jobId (exec rt op db).2
  | .managed (.claim jobId _ _) => claimCharge db jobId (exec rt op db).2
  | _ => none

/-- An operation sets a job to done that has no execution. -/
def Op.completes (op : Op) (rt : Runtime) (db : Db) (j : ScanJob) : Prop :=
  ∃ errorMessage reply, op.call = .job (.update j.id ⟨some .done, errorMessage⟩) ∧
    (exec rt op db).2 = .ok reply ∧ db.jobs.get? j.id = some j ∧ db.executions.get? j.id = none

/-- An operation is a managed claim that was accepted as stated. -/
def Op.leases (op : Op) (rt : Runtime) (db : Db) (i : Issued) : Prop :=
  ∃ jobId body ids observed, op.call = .managed (.claim jobId body ids) ∧
    Issues rt.issuer op.clocks op.request jobId body ids { db with observed } i

/-- The job that an operation claims. -/
def Op.claims? (op : Op) : Option String :=
  match op.call with
  | .job (.claim jobId _ _) => some jobId
  | .managed (.claim jobId _ _) => some jobId
  | _ => none

/-- An operation queues a new job, alone or in a pipeline, with a rate that the engagement
allows then. -/
structure Op.Queues (op : Op) (db : Db) (j : ScanJob) : Prop where
  call : (∃ id c, op.call = .job (.create id c)) ∨ ∃ id stages, op.call = .job (.pipeline id stages)
  fresh : j.id ∉ db.ids
  rate : ∃ e, db.engagements.get? j.programId = some e ∧
    RateWithin e.maxRequestRate j.toolType j.config

/-- An operation is an accepted claim of the pending job. -/
structure Op.Begins (op : Op) (rt : Runtime) (db : Db) (j : ScanJob) : Prop where
  call : op.claims? = some j.id
  accepted : ∃ reply, (exec rt op db).2 = .ok reply
  stored : db.jobs.get? j.id = some j
  pending : j.status = .pending

/-- An operation is an accepted registration of an approval for the pending job. -/
structure Op.Binds (op : Op) (rt : Runtime) (db : Db) (j : ScanJob) : Prop where
  call : ∃ r, op.call = .managed (.register r) ∧ r.jobId = j.id
  accepted : ∃ reply, (exec rt op db).2 = .ok reply
  stored : db.jobs.get? j.id = some j
  pending : j.status = .pending

/-- What the changes of an operation emit. -/
structure Emits (rt : Runtime) (op : Op) (db : Db) (es : List Event) : Prop where
  charges : es.filterMap Event.charge? = (admitted rt op db).toList
  done : ∀ j, .moved j .done ∈ es → op.completes rt db j
  leased : ∀ a j x, .leased a j x ∈ es →
    ∃ i, op.leases rt db i ∧ a = i.approval ∧ j = i.running ∧ x = i.execution
  provisioned : .provisioned ∈ es → ∃ p, op.call = .provision p
  queued : ∀ j, .queued j ∈ es → op.Queues db j
  began : ∀ j, .began j ∈ es → op.Begins rt db j
  bound : ∀ j, .bound j ∈ es → op.Binds rt db j

/-- An operation that emits nothing is no accepted claim. -/
theorem Emits.nil {op : Op} {db : Db} (h : admitted rt op db = none) : Emits rt op db [] where
  charges := by rw [h]; rfl
  done := fun _ hmem => absurd hmem List.not_mem_nil
  leased := fun _ _ _ hmem => absurd hmem List.not_mem_nil
  provisioned := fun hmem => absurd hmem List.not_mem_nil
  queued := fun _ hmem => absurd hmem List.not_mem_nil
  began := fun _ hmem => absurd hmem List.not_mem_nil
  bound := fun _ hmem => absurd hmem List.not_mem_nil

/-- An operation that only queues jobs is no accepted claim. -/
theorem Emits.queues {op : Op} {db : Db} {es : List Event} (h : admitted rt op db = none)
    (hes : ∀ ev ∈ es, ∃ j, ev = .queued j ∧ op.Queues db j) : Emits rt op db es where
  charges := by
    rw [h]
    refine List.filterMap_eq_nil_iff.mpr fun ev hev => ?_
    obtain ⟨j, rfl, -⟩ := hes ev hev
    rfl
  done := fun _ hmem => by obtain ⟨_, hev, -⟩ := hes _ hmem; cases hev
  leased := fun _ _ _ hmem => by obtain ⟨_, hev, -⟩ := hes _ hmem; cases hev
  provisioned := fun hmem => by obtain ⟨_, hev, -⟩ := hes _ hmem; cases hev
  queued := fun j hmem => by
    obtain ⟨j', hev, hqueues⟩ := hes _ hmem
    cases hev
    exact hqueues
  began := fun _ hmem => by obtain ⟨_, hev, -⟩ := hes _ hmem; cases hev
  bound := fun _ hmem => by obtain ⟨_, hev, -⟩ := hes _ hmem; cases hev

/-! ## The job routes -/

/-- The stages are queued under identifiers that are new to the database before them. -/
theorem enqueueStages_changes {e : Engagement} {createdAt : Instant} {previous : Option String}
    {stages : List (JobCreate × Json)} {db db' : Db} (he : db.engagements.get? e.id = some e)
    (hstages : ∀ c config, (c, config) ∈ stages → ∀ dependsOn,
      RateWithin e.maxRequestRate c.toolType config ∧
        NamesCase db (c.row e.id config dependsOn createdAt))
    (h : enqueueStages e createdAt previous stages db = .ok db') :
    ∃ es, Changes rt db es db' ∧ ∀ ev ∈ es, ∃ j, ev = .queued j ∧ j.id ∉ db.ids ∧
      j.programId = e.id ∧ RateWithin e.maxRequestRate j.toolType j.config := by
  induction stages generalizing previous db with
  | nil =>
    obtain rfl := Except.ok.inj h
    exact ⟨[], .refl _, fun _ hmem => absurd hmem List.not_mem_nil⟩
  | cons stage stages ih =>
    obtain ⟨c, config⟩ := stage
    obtain ⟨db₁, hqueue, h⟩ := bind_eq_ok h
    obtain ⟨hfresh, jobs, hjobs, rfl⟩ := enqueue_eq_ok hqueue
    obtain ⟨hrate, hcase⟩ := hstages c config (List.mem_cons_self ..) previous
    have hqueued : Queued db (c.row e.id config previous createdAt) := {
      engagement := ⟨e, he, hrate⟩
      status := rfl
      approval := rfl
      fresh := hfresh
      case := hcase }
    have he' : ({ db.minted (c.row e.id config previous createdAt).id with jobs } :
        Db).engagements.get? e.id = some e := he
    obtain ⟨es, hchanges, hes⟩ := ih he'
      (fun c' config' hmem => hstages c' config' (List.mem_cons_of_mem _ hmem)) h
    refine ⟨_, .head (.queued hqueued hjobs) hchanges, fun ev hev => ?_⟩
    rcases List.mem_cons.mp hev with rfl | hev
    · exact ⟨_, rfl, hfresh, rfl, hrate⟩
    · obtain ⟨j, rfl, hnew, hj⟩ := hes ev hev
      exact ⟨j, rfl, fun hmem => hnew (List.mem_cons_of_mem _ hmem), hj⟩

/-- A checked stage names a case, under the engagement that it was checked for. -/
theorem createPipeline_changes {p : Platform} {clocks : Clocks} {request : HttpRequest}
    {programId : String} {stages : List JobCreate} {db db' : Db} {reply : Reply}
    (h : createPipeline p clocks request programId stages db = .ok (db', reply)) :
    ∃ es, Changes rt db es db' ∧ ∀ ev ∈ es, ∃ j, ev = .queued j ∧ j.id ∉ db.ids ∧
      ∃ e, db.engagements.get? j.programId = some e ∧
        RateWithin e.maxRequestRate j.toolType j.config := by
  obtain ⟨user, -, h⟩ := bind_eq_ok h
  obtain ⟨e, he, h⟩ := bind_eq_ok h
  obtain ⟨_, -, h⟩ := bind_eq_ok h
  obtain ⟨configs, hconfigs, h⟩ := bind_eq_ok h
  obtain ⟨db₁, hqueue, h⟩ := bind_eq_ok h
  obtain ⟨rfl, -⟩ := Prod.mk.inj (Except.ok.inj h)
  have hstored := (writableEngagement_stored he).1
  obtain ⟨es, hchanges, hes⟩ := enqueueStages_changes hstored (fun c config hmem dependsOn => by
    rw [← List.zipIdx_map_fst 0 stages, List.zip_map_left] at hmem
    obtain ⟨⟨⟨c, i⟩, config⟩, hchecked, hpair⟩ := List.mem_map.mp hmem
    obtain ⟨rfl, rfl⟩ := Prod.mk.inj hpair
    have hstage := (List.forall₂_iff_zip.mp (mapM_eq_ok hconfigs)).2 hchecked
    exact validatedConfig_eq_ok (validatedStage_eq_ok hstage) dependsOn _) hqueue
  refine ⟨es, hchanges, fun ev hev => ?_⟩
  obtain ⟨j, rfl, hfresh, hprogram, hrate⟩ := hes ev hev
  exact ⟨j, rfl, hfresh, e, hprogram ▸ hstored, hrate⟩

/-- A transaction that emits nothing, committed or rolled back. -/
theorem settle_changes {op : Op} {db : Db} {commit : Commit} (hadmitted : admitted rt op db = none)
    (h : ∀ db' reply, commit = .ok (db', reply) → Changes rt db [] db') :
    ∃ es, Changes rt db es (settle db commit).1 ∧ Emits rt op db es := by
  refine ⟨[], ?_, .nil hadmitted⟩
  cases hcommit : commit with
  | error => exact .refl _
  | ok c => exact h c.1 c.2 hcommit

/-- A transaction that queues jobs, committed or rolled back. -/
theorem settle_queues {op : Op} {db : Db} {commit : Commit} (hadmitted : admitted rt op db = none)
    (hcall : (∃ id c, op.call = .job (.create id c)) ∨
      ∃ id stages, op.call = .job (.pipeline id stages))
    (h : ∀ db' reply, commit = .ok (db', reply) → ∃ es, Changes rt db es db' ∧
      ∀ ev ∈ es, ∃ j, ev = .queued j ∧ j.id ∉ db.ids ∧ ∃ e,
        db.engagements.get? j.programId = some e ∧
          RateWithin e.maxRequestRate j.toolType j.config) :
    ∃ es, Changes rt db es (settle db commit).1 ∧ Emits rt op db es := by
  cases hcommit : commit with
  | error => exact ⟨[], .refl _, .nil hadmitted⟩
  | ok c =>
    obtain ⟨es, hchanges, hes⟩ := h c.1 c.2 hcommit
    refine ⟨es, hchanges, .queues hadmitted fun ev hev => ?_⟩
    obtain ⟨j, rfl, hfresh, hrate⟩ := hes ev hev
    exact ⟨j, rfl, hcall, hfresh, hrate⟩

/-- Failing pending jobs moves them. -/
theorem given_changes (rt : Runtime) {db : Db} {f : ScanJob → ScanJob}
    (hf : ∀ j : ScanJob, (f j).id = j.id)
    (hrow : ∀ j ∈ db.jobs.rows, f j = j ∨
      j.status = .pending ∧ ∃ now message, f j = j.giveUp now message) :
    ∃ es, Changes rt db es { db with jobs := db.jobs.map f hf } ∧
      ∀ ev ∈ es, ∃ j, ev = .moved j .failed := by
  let es := (db.jobs.rows.filter fun j => (f j).status != j.status).map fun j =>
    Event.moved j .failed
  have hfailed : ∀ j ∈ db.jobs.rows, (f j).status ≠ j.status → (f j).status = .failed :=
    fun j hj hne => by
      rcases hrow j hj with hsame | ⟨-, now, message, hgive⟩
      · exact absurd (congrArg ScanJob.status hsame) hne
      · rw [hgive]
        rfl
  refine ⟨es, .single (.patched (.map hf fun j hj => ?_) (fun k j j' hj hj' hne => ?_)
    fun ev hev => ?_), fun ev hev => ?_⟩
  · rcases hrow j hj with hsame | ⟨hpending, now, message, hgive⟩
    · rw [hsame]
      exact .refl db j
    · rw [hgive]
      exact giveUp_patched hpending now message
  · rw [Table.get?_map, hj, Option.map_some, Option.some.injEq] at hj'
    subst hj'
    have hmem := Table.mem_of_get? hj
    rw [hfailed j hmem hne]
    exact List.mem_map_of_mem (List.mem_filter.mpr ⟨hmem, by simpa using hne⟩)
  · obtain ⟨j, -, rfl⟩ := List.mem_map.mp hev
    exact ⟨j, .failed, rfl⟩
  · obtain ⟨j, -, rfl⟩ := List.mem_map.mp hev
    exact ⟨j, rfl⟩

/-- A listing moves the jobs that it fails. -/
theorem pendingJobs_changes (rt : Runtime) {p : Platform} {clocks : Clocks}
    {request : HttpRequest} {db db' : Db} {reply : Reply}
    (h : pendingJobs p clocks request db = .ok (db', reply)) :
    ∃ es, Changes rt db es db' ∧ ∀ ev ∈ es, ∃ j, ev = .moved j .failed := by
  obtain ⟨f, hf, hrow, rfl⟩ := pendingJobs_eq_ok h
  exact given_changes rt hf hrow

theorem updateJob_changes (rt : Runtime) {p : Platform} {clocks : Clocks} {request : HttpRequest}
    {jobId : String} {body : JobStatusUpdate} {db db' : Db} {reply : Reply}
    (h : updateJob p clocks request jobId body db = .ok (db', reply)) :
    ∃ es, Changes rt db es db' ∧ ∀ ev ∈ es, ∃ j status, ev = .moved j status ∧ j.id = jobId ∧
      body.status = some status ∧ db.jobs.get? jobId = some j ∧ db.executions.get? jobId = none := by
  rcases updateJob_eq_ok h with rfl | ⟨j, j', hj, hx, hpatched, hstatus, rfl⟩ | ⟨x, hx, hactive, rfl⟩
  · exact ⟨[], .refl _, fun _ hmem => absurd hmem List.not_mem_nil⟩
  · obtain rfl : j.id = jobId := Table.key_of_get? hj
    have hid : j'.id = j.id := by
      obtain ⟨status, completedAt, errorMessage, assessment, hrow⟩ := hpatched.row
      rw [hrow]
    have hkey : db.jobs.get? (Keyed.key j') = some j := by
      change db.jobs.get? j'.id = _
      rw [hid]
      exact hj
    refine ⟨[.moved j j'.status], .single (.patched (.put hkey hpatched (.refl db)) ?_ ?_), ?_⟩
    · intro k i i' hi hi' hne
      rw [Table.get?_put hkey] at hi'
      split at hi'
      · rename_i hk
        rw [← hk, hkey] at hi
        obtain rfl := Option.some.inj hi
        obtain rfl := Option.some.inj hi'
        exact List.mem_singleton.mpr rfl
      · rw [hi] at hi'
        exact absurd (congrArg ScanJob.status (Option.some.inj hi').symm) hne
    · intro ev hev
      exact ⟨j, j'.status, List.mem_singleton.mp hev⟩
    · intro ev hev
      exact ⟨j, j'.status, List.mem_singleton.mp hev, rfl, hstatus, hj, hx⟩
  · obtain rfl : x.jobId = jobId := Table.key_of_get? hx
    refine ⟨[], .single (.held hx (.state ?_ rfl ?_)), fun _ hmem => absurd hmem List.not_mem_nil⟩
    · rw [hactive]
      rfl
    · simp

theorem refreshExecution_changes {p : Platform} {clocks : Clocks} {request : HttpRequest}
    {jobId : String} {body : ControlRequest} {db db' : Db} {reply : Reply}
    (h : refreshExecution p clocks request jobId body db = .ok (db', reply)) :
    Changes rt db [] db' := by
  obtain ⟨x, j, e, hcontrols, ⟨hactive, -, -, -, rfl⟩ | ⟨-, rfl⟩⟩ := refreshExecution_eq_ok h
  · have hx := hcontrols.execution
    obtain rfl : x.jobId = jobId := Table.key_of_get? hx
    refine .single (.held hx {
      row := ⟨x.state, _, rfl⟩
      opened := .inr ⟨by rw [hactive]; rfl, by rw [hactive]; rfl⟩
      active := id
      lease := .inr ⟨hactive, hactive, j, hcontrols.job, hcontrols.unmanaged⟩ })
  · have hx := hcontrols.execution
    obtain rfl : x.jobId = jobId := Table.key_of_get? hx
    exact .single (.held hx (observed_held db x _ _))

theorem finishExecution_changes {p : Platform} {clocks : Clocks} {request : HttpRequest}
    {jobId : String} {body : ControlRequest} {f : Finish} {db db' : Db}
    {reply : Except Refusal Reply}
    (h : finishExecution p clocks request jobId body f db = .ok (db', reply)) :
    Changes rt db [] db' := by
  obtain ⟨x, j, e, hcontrols, hfinishes⟩ := finishExecution_eq_ok h
  have hx := hcontrols.execution
  obtain rfl : x.jobId = jobId := Table.key_of_get? hx
  cases hfinishes with
  | again => exact .refl _
  | late opened => exact .single (.held hx (.state opened rfl nofun))
  | uncertain opened => exact .single (.held hx (.state opened rfl nofun))
  | ended now opened =>
    exact .single (.finished _ now _ hx opened hcontrols.job hcontrols.unmanaged)

/-- A filed result is written to its job. -/
theorem uploadJobResult_changes {p : Platform} {request : HttpRequest} {jobId : String}
    {upload : GateUpload} {db db' : Db} {reply : Reply}
    (h : uploadJobResult p request jobId upload db = .ok (db', reply)) :
    Changes rt db [] db' := by
  obtain ⟨j, hj, hunmanaged, rfl | ⟨assessment, receipt, receipts, hjob, hinsert, rfl⟩⟩ :=
    uploadJobResult_eq_ok h
  · exact .refl _
  obtain rfl : j.id = jobId := Table.key_of_get? hj
  have hkey : db.jobs.get? (Keyed.key { j with assessment }) = some j := hj
  refine changes_trans (.single (.filed (hjob ▸ hj) hunmanaged hinsert))
    (.single (.patched (.put hkey ?_ (.refl _)) ?_ ?_))
  · exact ⟨⟨j.status, j.completedAt, j.errorMessage, assessment, rfl⟩, fun hne => absurd rfl hne⟩
  · intro k i i' hi hi' hne
    have hi : db.jobs.get? k = some i := hi
    rw [Table.get?_put hkey] at hi'
    split at hi'
    · rename_i hk
      rw [← hk, hkey] at hi
      obtain rfl := Option.some.inj hi
      obtain rfl := Option.some.inj hi'
      exact absurd rfl hne
    · rw [hi] at hi'
      exact absurd (congrArg ScanJob.status (Option.some.inj hi').symm) hne
  · exact fun ev hev => absurd hev List.not_mem_nil

/-- A claim emits its charge alone, the one that its reply states. -/
theorem claimJob_changes (rt : Runtime) {p : Platform} {clocks : Clocks} {request : HttpRequest} {jobId : String}
    {body : Option ClaimControl} {token : String} {db db' : Db} {reply : Reply}
    (h : claimJob p clocks request jobId body token db = .ok (db', reply)) :
    ∃ c j, Changes rt db [.charged c, .began j] db' ∧ claimCharge db jobId (.ok reply) = some c ∧
      j.id = jobId ∧ db.jobs.get? j.id = some j ∧ j.status = .pending := by
  obtain ⟨e, e', j, running, c, executions, capability, warning, hclaims, rfl, rfl, rfl⟩ :=
    claimJob_eq_ok h
  refine ⟨_, j, .single (.claimed hclaims), ?_, hclaims.jobId, hclaims.admits.job,
    hclaims.admits.status⟩
  have hprogram : db.programOf jobId = e.id := by
    have he : e.id = j.programId := Table.key_of_get? hclaims.admits.engagement
    have hj := hclaims.admits.job
    rw [hclaims.jobId] at hj
    simp [Db.programOf, hj, he]
  simp only [claimCharge, hprogram, chargeOf]

theorem jobOp_changes (request : HttpRequest) (clocks : Clocks) (op : JobOp) (db : Db) :
    ∃ es, Changes rt db es (op.run rt request clocks db).1 ∧
      Emits rt ⟨request, clocks, .job op⟩ db es := by
  cases op with
  | create =>
    refine settle_queues rfl (.inl ⟨_, _, rfl⟩) fun db' reply h => ?_
    obtain ⟨j, jobs, hqueued, hjobs, rfl⟩ := createJob_eq_ok h
    refine ⟨_, .single (.queued hqueued hjobs), fun ev hev => ?_⟩
    exact ⟨j, List.mem_singleton.mp hev, hqueued.fresh, hqueued.engagement⟩
  | pipeline =>
    exact settle_queues rfl (.inr ⟨_, _, rfl⟩) fun db' reply h => createPipeline_changes h
  | pending =>
    cases hcommit : pendingJobs rt.toPlatform clocks request db with
    | error e =>
      refine ⟨[], ?_, .nil rfl⟩
      simpa only [JobOp.run, hcommit, settle] using Lib.Run.refl _
    | ok committed =>
      obtain ⟨es, hchanges, hes⟩ := pendingJobs_changes rt hcommit
      refine ⟨es, by simpa only [JobOp.run, hcommit, settle] using hchanges, ?_⟩
      exact {
        charges := List.filterMap_eq_nil_iff.mpr fun ev hev => by
          obtain ⟨j, rfl⟩ := hes ev hev
          rfl
        done := fun j hmem => by
          obtain ⟨j', hj'⟩ := hes _ hmem
          cases hj'
        leased := fun a j x hmem => by
          obtain ⟨j', hj'⟩ := hes _ hmem
          cases hj'
        provisioned := fun hmem => by
          obtain ⟨j', hj'⟩ := hes _ hmem
          cases hj'
        queued := fun j hmem => by
          obtain ⟨j', hj'⟩ := hes _ hmem
          cases hj'
        began := fun j hmem => by
          obtain ⟨j', hj'⟩ := hes _ hmem
          cases hj'
        bound := fun j hmem => by
          obtain ⟨j', hj'⟩ := hes _ hmem
          cases hj' }
  | update id body =>
    cases hcommit : updateJob rt.toPlatform clocks request id body db with
    | error e =>
      refine ⟨[], ?_, .nil rfl⟩
      simpa only [JobOp.run, hcommit, settle] using Lib.Run.refl _
    | ok committed =>
      obtain ⟨es, hchanges, hes⟩ := updateJob_changes rt hcommit
      refine ⟨es, by simpa only [JobOp.run, hcommit, settle] using hchanges, ?_⟩
      exact {
        charges := List.filterMap_eq_nil_iff.mpr fun ev hev => by
          obtain ⟨j, status, rfl, -⟩ := hes ev hev
          rfl
        done := fun j hmem => by
          obtain ⟨j', status, hj', hid, hstatus, hj, hx⟩ := hes _ hmem
          cases hj'
          subst hid
          refine ⟨body.errorMessage, committed.2, by rw [← hstatus], ?_, hj, hx⟩
          simp only [exec, JobOp.run, hcommit, settle]
        leased := fun a j x hmem => by
          obtain ⟨j', status, hj', -⟩ := hes _ hmem
          cases hj'
        provisioned := fun hmem => by
          obtain ⟨j', status, hj', -⟩ := hes _ hmem
          cases hj'
        queued := fun j hmem => by
          obtain ⟨j', status, hj', -⟩ := hes _ hmem
          cases hj'
        began := fun j hmem => by
          obtain ⟨j', status, hj', -⟩ := hes _ hmem
          cases hj'
        bound := fun j hmem => by
          obtain ⟨j', status, hj', -⟩ := hes _ hmem
          cases hj' }
  | claim id body token =>
    cases hcommit : claimJob rt.toPlatform clocks request id body token db with
    | error e =>
      refine ⟨[], ?_, .nil ?_⟩
      · simpa only [JobOp.run, hcommit, settle] using Lib.Run.refl _
      · simp only [admitted, exec, JobOp.run, hcommit, settle, claimCharge]
    | ok committed =>
      obtain ⟨c, j, hchanges, hc, hid, hj, hpending⟩ := claimJob_changes rt hcommit
      refine ⟨[.charged c, .began j],
        by simpa only [JobOp.run, hcommit, settle] using hchanges, ?_⟩
      exact {
        charges := by
          simp only [admitted, exec, JobOp.run, hcommit, settle, hc]
          rfl
        done := fun j hmem => by simp at hmem
        leased := fun a j x hmem => by simp at hmem
        provisioned := fun hmem => by simp at hmem
        queued := fun j hmem => by simp at hmem
        began := fun j' hmem => by
          obtain rfl : j' = j := by simpa using hmem
          refine ⟨congrArg some hid.symm, ⟨committed.2, ?_⟩, hj, hpending⟩
          simp only [exec, JobOp.run, hcommit, settle]
        bound := fun j hmem => by simp at hmem }
  | status =>
    refine settle_changes rfl fun db' reply h => ?_
    rw [executionStatus_eq_ok h]
    exact .refl _
  | control => exact settle_changes rfl fun db' reply h => refreshExecution_changes h
  | finish id body outcome =>
    refine ⟨[], ?_, .nil rfl⟩
    simp only [JobOp.run]
    split
    · rename_i h
      exact finishExecution_changes h
    · exact .refl _
  | delete =>
    refine settle_changes rfl fun db' reply h => ?_
    rw [(deleteJob_eq_ok h).2]
    exact .single (.dropped _)
  | upload => exact settle_changes rfl fun db' reply h => uploadJobResult_changes h

/-! ## The managed operations -/

/-- A managed operation that is refused leaves at most another clock reading; one that is
accepted has committed its body after the clock was observed. -/
theorem managedOp_cases (rt : Runtime) (request : HttpRequest) (clocks : Clocks) (op : ManagedOp) (db : Db) :
    (∃ observed e, op.run rt request clocks db = ({ db with observed }, .error e)) ∨
    op.arguments = .ok () ∧ ∃ observed db' reply,
      op.body rt request clocks { db with observed } = .ok (db', reply) ∧
      op.run rt request clocks db = (db', .ok reply) := by
  unfold ManagedOp.run
  split
  swap
  · exact .inl ⟨db.observed, _, rfl⟩
  rename_i harguments
  unfold operation
  split
  · exact .inl ⟨db.observed, _, rfl⟩
  rename_i db₁ henter
  obtain ⟨text, -, henter⟩ := bind_eq_ok henter
  obtain ⟨t, -, -, rfl⟩ := observe_eq_ok henter
  split
  · rename_i db' reply hbody
    exact .inr ⟨harguments, some t.instant, db', reply, hbody, rfl⟩
  · rename_i e hbody
    split
    · rename_i db₂ hexit
      obtain ⟨t', -, -, rfl⟩ := observe_eq_ok hexit
      exact .inl ⟨some t'.instant, e, rfl⟩
    · rename_i e' hexit
      exact .inl ⟨some t.instant, e', rfl⟩

omit [Unicode] in
theorem reportArguments_eq_ok {outcome cause : String} {confirmed : Bool} {u : Unit}
    (h : Stops.reportArguments outcome cause confirmed = .ok u) :
    Stops.causes.contains cause = true := by
  have h := Wire.require_eq_ok h
  simp only [Bool.and_eq_true] at h
  exact h.1.1

/-- An accepted managed operation that neither claims nor registers. -/
theorem body_changes {request : HttpRequest} {clocks : Clocks} {op : ManagedOp} {db db' : Db}
    {reply : Reply} (harguments : op.arguments = .ok ())
    (h : op.body rt request clocks db = .ok (db', reply))
    (hclaim : ∀ id body ids, op ≠ .claim id body ids) (hregister : ∀ r, op ≠ .register r) :
    Changes rt db [] db' := by
  cases op with
  | review =>
    rw [review_eq_ok h]
    exact .refl _
  | register r => exact absurd rfl (hregister r)
  | revoke =>
    obtain ⟨j, a, t, -, ha, -, rfl⟩ := revoke_eq_ok h
    obtain ⟨id, -, ha⟩ := Option.bind_eq_some_iff.mp ha
    obtain rfl : a.id = id := Table.key_of_get? ha
    exact changes_trans (.single (.revoked ha)) (changes_observed _ _)
  | claim id body ids => exact absurd rfl (hclaim id body ids)
  | current =>
    obtain ⟨user, l, t, -, -, rfl⟩ := current_eq_ok h
    exact changes_observed db _
  | refresh =>
    obtain ⟨r, hr, rfl⟩ := refresh_eq_ok h
    exact changes_trans (.single (.renewed hr)) (changes_observed _ _)
  | consume =>
    obtain ⟨l, locked, last, hl, rfl⟩ := consume_eq_ok h
    exact changes_trans (.single (.consumed hl)) (changes_observed _ _)
  | submit =>
    obtain ⟨o, ho, rfl | ⟨row, hrow⟩⟩ := Results.submit_eq_ok h
    · exact .refl _
    · obtain ⟨assessment, receipts, results, locked, hinsert, -, -, rfl⟩ := hrow.committed
      exact .single (.retained ho hinsert hrow)
  | finish =>
    obtain ⟨outcome, -, h⟩ := bind_eq_ok h
    obtain ⟨o, row, ho, hrow, -, ⟨-, rfl, -⟩ | ⟨⟨i, locked, hconcludes⟩, -⟩⟩ := Results.finish_eq_ok h
    · exact .refl _
    · obtain ⟨finishedAt, rfl⟩ := hconcludes.committed
      exact .single (.concluded ho hrow hconcludes)
  | inspectResult =>
    rw [Results.inspect_eq_ok h]
    exact .refl _
  | report =>
    obtain ⟨o, ho, ⟨rfl, -⟩ | ⟨row, hrow, -⟩⟩ := Stops.report_eq_ok h
    · exact .refl _
    · obtain ⟨stops, locked, hinsert, -, -, rfl⟩ := hrow.committed
      exact .single (.ended ho (reportArguments_eq_ok harguments) hinsert hrow)
  | inspectStop =>
    rw [Stops.inspect_eq_ok h]
    exact .refl _
  | observe =>
    rw [Observations.inspect_eq_ok h]
    exact .refl _

/-- An accepted managed claim emits its charge, the one that its reply states, and its lease. -/
theorem claim_changes {request : HttpRequest} {clocks : Clocks} {jobId : String}
    {body : ClaimControl} {ids : Issuer.ClaimIds} {db db' : Db} {reply : Reply}
    (h : rt.issuer.claim clocks request jobId body ids db = .ok (db', reply)) :
    ∃ i c, Issues rt.issuer clocks request jobId body ids db i ∧
      Changes rt db [.charged c, .began i.job, .leased i.approval i.running i.execution] db' ∧
      claimCharge db jobId (.ok reply) = some c := by
  obtain ⟨i, hi, rfl, document, rfl⟩ := claim_eq_ok h
  refine ⟨i, _, hi, .single (.issued hi), ?_⟩
  obtain ⟨-, -, -, htargets, hduration⟩ := issue_eq_ok hi.issue
  have hprogram : db.programOf jobId = i.engagement.id := by
    have he : i.engagement.id = i.job.programId := Table.key_of_get? hi.engagement
    simp [Db.programOf, hi.job, he]
  simp only [claimCharge, Option.bind_some, htargets, hduration, hprogram, chargeOf]

theorem managedOp_changes (request : HttpRequest) (clocks : Clocks) (op : ManagedOp) (db : Db) :
    ∃ es, Changes rt db es (op.run rt request clocks db).1 ∧
      Emits rt ⟨request, clocks, .managed op⟩ db es := by
  rcases managedOp_cases rt request clocks op db with
    ⟨observed, e, hrun⟩ | ⟨harguments, observed, db', reply, hbody, hrun⟩
  · refine ⟨[], hrun ▸ changes_observed db observed, .nil ?_⟩
    cases op with
    | claim => simp only [admitted, exec, hrun, claimCharge]
    | _ => rfl
  · by_cases hclaim : ∃ id body ids, op = .claim id body ids
    · obtain ⟨id, body, ids, rfl⟩ := hclaim
      obtain ⟨i, c, hi, hchanges, hc⟩ := claim_changes hbody
      rw [hrun]
      refine ⟨_, (changes_observed db observed).trans hchanges, ?_⟩
      exact {
        charges := by
          have hc : claimCharge db id (.ok reply) = some c := hc
          simp only [admitted, exec, hrun, hc]
          rfl
        done := fun j hmem => by simp at hmem
        leased := fun a j x hmem => by
          obtain ⟨rfl, rfl, rfl⟩ : a = i.approval ∧ j = i.running ∧ x = i.execution := by
            simpa using hmem
          exact ⟨i, ⟨id, body, ids, observed, rfl, hi⟩, rfl, rfl, rfl⟩
        provisioned := fun hmem => by simp at hmem
        queued := fun j hmem => by simp at hmem
        began := fun j hmem => by
          obtain rfl : j = i.job := by simpa using hmem
          have hid : i.job.id = id := Table.key_of_get? hi.job
          refine ⟨congrArg some hid.symm, ⟨reply, ?_⟩, ?_, hi.status⟩
          · simp only [exec, hrun]
          · rw [hid]
            exact hi.job
        bound := fun j hmem => by simp at hmem }
    · have hclaim : ∀ id body ids, op ≠ .claim id body ids := fun id body ids h =>
        hclaim ⟨id, body, ids, h⟩
      by_cases hregister : ∃ r, op = .register r
      · obtain ⟨r, rfl⟩ := hregister
        rw [hrun]
        obtain ⟨t, -, rfl⟩ | ⟨i, hi, rfl⟩ := register_eq_ok hbody
        · exact ⟨[], changes_trans (changes_observed db observed) (changes_observed _ _),
            .nil rfl⟩
        · refine ⟨_, (changes_observed db observed).trans (.single (.registered hi)), ?_⟩
          exact {
            charges := rfl
            done := fun j hmem => by simp at hmem
            leased := fun a j x hmem => by simp at hmem
            provisioned := fun hmem => by simp at hmem
            queued := fun j hmem => by simp at hmem
            began := fun j hmem => by simp at hmem
            bound := fun j hmem => by
              obtain rfl : j = i.job := by simpa using hmem
              have hid : i.job.id = r.jobId := Table.key_of_get? hi.job
              refine ⟨⟨r, rfl, hid.symm⟩, ⟨reply, ?_⟩, ?_, hi.status⟩
              · simp only [exec, hrun]
              · rw [hid]
                exact hi.job }
      · refine ⟨[], hrun ▸ changes_trans (changes_observed db observed)
          (body_changes harguments hbody hclaim fun r h => hregister ⟨r, h⟩), .nil ?_⟩
        cases op with
        | claim id body ids => exact absurd rfl (hclaim id body ids)
        | _ => rfl

/-- An accepted managed operation has committed its body after the clock was observed. -/
theorem exec_managed_ok {op : Op} {m : ManagedOp} {db : Db} {reply : Reply}
    (hcall : op.call = .managed m) (h : (exec rt op db).2 = .ok reply) :
    m.arguments = .ok () ∧ ∃ observed db',
      m.body rt op.request op.clocks { db with observed } = .ok (db', reply) ∧
      (exec rt op db).1 = db' := by
  have hexec : exec rt op db = m.run rt op.request op.clocks db := by rw [exec, hcall]
  rw [hexec] at h ⊢
  rcases managedOp_cases rt op.request op.clocks m db with
    ⟨observed, e, hrun⟩ | ⟨harguments, observed, db', reply', hbody, hrun⟩
  · rw [hrun] at h
    cases h
  · rw [hrun] at h ⊢
    obtain rfl : reply' = reply := Except.ok.inj h
    exact ⟨harguments, observed, db', hbody, rfl⟩

/-! ## Runs -/

/-- Every operation is a sequence of changes, which emits what the operation did. -/
theorem exec_changes (rt : Runtime) (op : Op) (db : Db) :
    ∃ es, Changes rt db es (exec rt op db).1 ∧ Emits rt op db es := by
  obtain ⟨request, clocks, call⟩ := op
  cases call with
  | engagement op => exact settle_changes rfl fun db' reply h => engagementOp_changes h
  | job op => exact jobOp_changes request clocks op db
  | managed op => exact managedOp_changes request clocks op db
  | provision p =>
    refine ⟨[.provisioned], .single (.provisioned p), ?_⟩
    exact {
      charges := rfl
      done := fun j hmem => by simp at hmem
      leased := fun a j x hmem => by simp at hmem
      provisioned := fun _ => ⟨p, rfl⟩
      queued := fun j hmem => by simp at hmem
      began := fun j hmem => by simp at hmem
      bound := fun j hmem => by simp at hmem }

/-- What all changes preserve, every operation preserves. -/
theorem exec_invariant (inv : Db → Prop)
    (hstep : ∀ {db db' : Db} {es : List Event}, inv db → Change rt db es db' → inv db') {db : Db}
    (hdb : inv db) (op : Op) : inv (exec rt op db).1 := by
  obtain ⟨es, hchanges, -⟩ := exec_changes rt op db
  exact hchanges.invariant inv hstep hdb

/-- What all changes preserve, every run preserves. -/
theorem after_invariant (inv : Db → Prop)
    (hstep : ∀ {db db' : Db} {es : List Event}, inv db → Change rt db es db' → inv db') {db : Db}
    (hdb : inv db) (ops : List Op) : inv (after rt ops db) := by
  induction ops generalizing db with
  | nil => exact hdb
  | cons op ops ih => exact ih (exec_invariant inv hstep hdb op)

/-- What an operation preserves under a condition, a run preserves whose operations all meet
it. -/
theorem after_induction (inv : Db → Prop) (ok : Op → Db → Prop)
    (hstep : ∀ op db, inv db → ok op db → inv (exec rt op db).1) {ops : List Op} {db : Db}
    (hok : ∀ earlier op, earlier ++ [op] <+: ops → ok op (after rt earlier db)) (hdb : inv db) :
    inv (after rt ops db) := by
  induction ops generalizing db with
  | nil => exact hdb
  | cons op ops ih =>
    refine ih (fun earlier op' h => ?_) (hstep op db hdb (hok [] op ?_))
    · exact hok (op :: earlier) op' ((List.prefix_cons_inj op).mpr h)
    · exact (List.prefix_cons_inj op).mpr List.nil_prefix

/-- What all changes preserve holds of every reachable database. -/
theorem Reachable.invariant (inv : Db → Prop)
    (hstep : ∀ {db db' : Db} {es : List Event}, inv db → Change rt db es db' → inv db')
    (hempty : inv .empty) {db : Db} (h : Reachable rt db) : inv db := by
  obtain ⟨ops, rfl⟩ := h
  exact after_invariant inv hstep hempty ops

end VardrMap
