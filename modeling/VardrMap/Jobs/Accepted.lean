import VardrMap.Engagements

/-!
# What the job routes accepted

One inversion per operation on jobs: the rows that an accepted call read, and the database
it committed.
-/
namespace VardrMap
open Lib Policy

/-- The database with an execution replaced. -/
def Db.putExecution (db : Db) (x : JobExecution) : Db :=
  { db with executions := db.executions.put x }

/-- The database with a job replaced. -/
def Db.putJob (db : Db) (j : ScanJob) : Db := { db with jobs := db.jobs.put j }

variable [Unicode]

/-! ## Queueing -/

/-- What the checks on a queued job left: a gate job names a stored case of its engagement. -/
def NamesCase (db : Db) (job : ScanJob) : Prop :=
  job.toolType = gateTool → ∃ text, job.testCaseId = .ok text ∧
    ∃ c, db.testCases.get? (String.ofList (Text.strip text.toList)) = some c

theorem validateTestCaseRef_eq_ok {db : Db} {job : ScanJob} {u : Unit}
    (h : validateTestCaseRef db job = .ok u) : ∃ text, job.testCaseId = .ok text ∧
      ∃ c, db.testCases.get? (String.ofList (Text.strip text.toList)) = some c := by
  unfold validateTestCaseRef at h
  obtain ⟨text, htext, h⟩ := bind_eq_ok h
  dsimp only at h
  obtain ⟨_, -, h⟩ := bind_eq_ok h
  have hcase := ensure_eq_ok h
  cases hget : db.testCases.get? (String.ofList (Text.strip text.toList)) with
  | none => simp [hget] at hcase
  | some c => exact ⟨text, raise_eq_ok htext, c, hget⟩

/-- The case that a job names depends on its configuration alone. -/
theorem testCaseId_congr {j j' : ScanJob} (h : j.config = j'.config) :
    j.testCaseId = j'.testCaseId := by
  unfold ScanJob.testCaseId
  rw [h]

/-- A configuration that passed keeps the rate under the ceiling, and names a case. -/
theorem validatedConfig_eq_ok {db : Db} {e : Engagement} {c : JobCreate} {config : Json}
    (h : validatedConfig db e c = .ok config) (dependsOn : Option String) (createdAt : Instant) :
    RateWithin e.maxRequestRate c.toolType config ∧
      NamesCase db (c.row e.id config dependsOn createdAt) := by
  unfold validatedConfig at h
  obtain ⟨config', hconfig, h⟩ := bind_eq_ok h
  dsimp only at h
  by_cases hgate : (c.toolType == gateTool) = true
  · rw [if_pos hgate] at h
    obtain ⟨_, hcase, h⟩ := bind_eq_ok h
    obtain rfl := Except.ok.inj h
    obtain ⟨text, htext, hget⟩ := validateTestCaseRef_eq_ok hcase
    exact ⟨queuedConfig_eq_ok hconfig, fun _ => ⟨text, (testCaseId_congr rfl).trans htext, hget⟩⟩
  · rw [if_neg hgate] at h
    obtain rfl := Except.ok.inj h
    exact ⟨queuedConfig_eq_ok hconfig, fun htool => absurd (beq_iff_eq.mpr htool) hgate⟩

theorem validatedStage_eq_ok {db : Db} {e : Engagement} {c : JobCreate} {i : ℕ} {config : Json}
    (h : validatedStage db e c i = .ok config) : validatedConfig db e c = .ok config := by
  obtain ⟨_, -, h⟩ := bind_eq_ok h
  obtain ⟨_, -, h⟩ := bind_eq_ok h
  exact h

/-- A queued row: pending, unclaimed, under a new identifier, and with a rate that the
engagement allows. -/
structure Queued (db : Db) (job : ScanJob) : Prop where
  engagement : ∃ e, db.engagements.get? job.programId = some e ∧
    RateWithin e.maxRequestRate job.toolType job.config
  status : job.status = .pending
  approval : job.managedApprovalId = none
  fresh : job.id ∉ db.ids
  case : NamesCase db job

theorem enqueue_eq_ok {db db' : Db} {job : ScanJob} (h : enqueue db job = .ok db') :
    job.id ∉ db.ids ∧ ∃ jobs, db.jobs.insert job = some jobs ∧
      db' = { db.minted job.id with jobs } := by
  obtain ⟨_, hmint, h⟩ := bind_eq_ok h
  obtain ⟨jobs, hjobs, h⟩ := bind_eq_ok h
  have hmint := ensure_eq_ok hmint
  simp only [Bool.and_eq_true, Bool.not_eq_true', List.contains_eq_mem,
    decide_eq_false_iff_not] at hmint
  exact ⟨hmint.1, jobs, found_eq_ok hjobs, (Except.ok.inj h).symm⟩

theorem createJob_eq_ok {p : Platform} {clocks : Clocks} {request : HttpRequest}
    {programId : String} {c : JobCreate} {db db' : Db} {reply : Reply}
    (h : createJob p clocks request programId c db = .ok (db', reply)) :
    ∃ job jobs, Queued db job ∧ db.jobs.insert job = some jobs ∧
      db' = { db.minted job.id with jobs } := by
  obtain ⟨user, -, h⟩ := bind_eq_ok h
  obtain ⟨e, he, h⟩ := bind_eq_ok h
  obtain ⟨_, -, h⟩ := bind_eq_ok h
  obtain ⟨_, -, h⟩ := bind_eq_ok h
  obtain ⟨_, -, h⟩ := bind_eq_ok h
  obtain ⟨config, hconfig, h⟩ := bind_eq_ok h
  dsimp only at h
  obtain ⟨_, -, h⟩ := bind_eq_ok h
  obtain ⟨finding, -, h⟩ := bind_eq_ok h
  obtain ⟨db₁, hqueue, h⟩ := bind_eq_ok h
  obtain ⟨rfl, -⟩ := Prod.mk.inj (Except.ok.inj h)
  obtain ⟨hfresh, jobs, hjobs, rfl⟩ := enqueue_eq_ok hqueue
  have he := writableEngagement_eq_ok he
  obtain rfl : e.id = programId := Table.key_of_get? he
  obtain ⟨hrate, hcase⟩ := validatedConfig_eq_ok hconfig c.dependsOn (clocks.wall 0).instant
  exact ⟨_, jobs, {
    engagement := ⟨e, he, hrate⟩
    status := rfl
    approval := rfl
    fresh := hfresh
    case := hcase }, hjobs, rfl⟩

/-! ## Listing and status changes -/

/-- A job without a claim that is moved to another status, never to running; or only other
columns of its progress change. -/
structure Patched (db : Db) (old new : ScanJob) : Prop where
  row : ∃ status completedAt errorMessage assessment,
    new = { old with status, completedAt, errorMessage, assessment }
  moved : new.status ≠ old.status → new.status ∈ old.status.patchable ∧
    (old.status = .pending ∨ db.executions.get? old.id = none)

omit [Unicode] in
theorem Patched.refl (db : Db) (j : ScanJob) : Patched db j j where
  row := ⟨j.status, j.completedAt, j.errorMessage, j.assessment, rfl⟩
  moved := fun h => absurd rfl h

omit [Unicode] in
theorem giveUp_patched {db : Db} {j : ScanJob} (h : j.status = .pending) (now : Instant)
    (message : String) : Patched db j (j.giveUp now message) where
  row := ⟨.failed, some now, message, j.assessment, rfl⟩
  moved := fun _ => ⟨by rw [h]; simp [ScanJob.giveUp, JobStatus.patchable], .inl h⟩

omit [Unicode] in
/-- A listing fails the jobs that it names. -/
theorem failListed_cases (failures : List (String × String)) (now : Instant) (j : ScanJob) :
    failListed failures now j = j ∨
      ∃ message, (j.id, message) ∈ failures ∧ failListed failures now j = j.giveUp now message := by
  unfold failListed
  split
  · rename_i message hlookup
    obtain ⟨before, rest, hfailures, -⟩ := List.lookup_eq_some_iff.mp hlookup
    exact .inr ⟨message, by simp [hfailures], rfl⟩
  · exact .inl rfl

/-- A listing fails pending jobs. -/
theorem pendingJobs_eq_ok {p : Platform} {clocks : Clocks} {request : HttpRequest} {db db' : Db}
    {reply : Reply} (h : pendingJobs p clocks request db = .ok (db', reply)) :
    ∃ f, ∃ hf : ∀ j : ScanJob, (f j).id = j.id,
      (∀ j ∈ db.jobs.rows, f j = j ∨
        j.status = .pending ∧ ∃ now message, f j = j.giveUp now message) ∧
      db' = { db with jobs := db.jobs.map f hf } := by
  obtain ⟨user, -, h⟩ := bind_eq_ok h
  dsimp only at h
  obtain ⟨listed, hlisted, h⟩ := bind_eq_ok h
  obtain ⟨rfl, -⟩ := Prod.mk.inj (Except.ok.inj h)
  refine ⟨_, failListed_id _ _, fun j hj => ?_, rfl⟩
  refine (failListed_cases _ _ j).imp id fun ⟨message, hmem, hgive⟩ => ?_
  -- whoever is failed was listed, so it was read as pending
  obtain ⟨x, hx, hkey⟩ := List.mem_filterMap.mp hmem
  obtain ⟨m, -, hpair⟩ := Option.map_eq_some_iff.mp hkey
  obtain ⟨i, hi, hlisting⟩ := exists_of_mapM_eq_ok (raise_eq_ok hlisted) hx
  obtain ⟨l, -, hl⟩ := bind_eq_ok hlisting
  have hid : i.id = j.id :=
    (congrArg Prod.fst (Except.ok.inj hl)).trans (congrArg Prod.fst hpair)
  obtain ⟨hi, hpending⟩ := List.mem_filter.mp hi
  obtain rfl : i = j := Table.eq_of_key hi hj hid
  simp only [Bool.and_eq_true, beq_iff_eq] at hpending
  exact ⟨hpending.1, _, message, hgive⟩

/-- A status change patches the job, or asks its active execution to stop. -/
theorem updateJob_eq_ok {p : Platform} {clocks : Clocks} {request : HttpRequest} {jobId : String}
    {body : JobStatusUpdate} {db db' : Db} {reply : Reply}
    (h : updateJob p clocks request jobId body db = .ok (db', reply)) :
    db' = db ∨
    (∃ j j', db.jobs.get? jobId = some j ∧ db.executions.get? jobId = none ∧ Patched db j j' ∧
      body.status = some j'.status ∧ db' = db.putJob j') ∨
    ∃ x, db.executions.get? jobId = some x ∧ x.state = .active ∧
      db' = db.putExecution { x with state := .cancelRequested } := by
  obtain ⟨user, -, h⟩ := bind_eq_ok h
  obtain ⟨j, hj, h⟩ := bind_eq_ok h
  obtain ⟨status, hstatus, h⟩ := bind_eq_ok h
  obtain ⟨e, -, h⟩ := bind_eq_ok h
  have hj := (lockJob_eq_ok hj).1
  split at h
  · rename_i x hx
    obtain ⟨_, -, h⟩ := bind_eq_ok h
    obtain ⟨_, -, h⟩ := bind_eq_ok h
    split at h
    · rename_i hactive
      obtain ⟨rfl, -⟩ := Prod.mk.inj (Except.ok.inj h)
      exact .inr (.inr ⟨x, hx, by simpa using hactive, rfl⟩)
    · exact .inl (Prod.mk.inj (Except.ok.inj h)).1.symm
  · rename_i hx
    unfold patchJob at h
    split at h
    · exact .inl (Prod.mk.inj (Except.ok.inj h)).1.symm
    · obtain ⟨_, hpatchable, h⟩ := bind_eq_ok h
      dsimp only at h
      obtain ⟨rfl, -⟩ := Prod.mk.inj (Except.ok.inj h)
      have hid : j.id = jobId := Table.key_of_get? hj
      refine .inr (.inl ⟨j, _, hj, hx, ⟨⟨status, _, _, j.assessment, rfl⟩, fun _ => ?_⟩,
        found_eq_ok hstatus, rfl⟩)
      exact ⟨by simpa using ensure_eq_ok hpatchable, .inr (hid ▸ hx)⟩

/-! ## Claims -/

/-- What an accepted claim adds to the ledgers of its engagement. -/
structure Charge where
  engagementId : String
  targets : ℕ
  seconds : ℕ
  deriving DecidableEq

/-- A pending job that may be claimed: its engagement is not stopped, and the charge stays
within the limits. -/
structure Admits (db : Db) (j : ScanJob) (e e' : Engagement) (c : Charge) : Prop where
  job : db.jobs.get? j.id = some j
  status : j.status = .pending
  engagement : db.engagements.get? j.programId = some e
  stopWork : e.stopWorkAt = none
  charged : e' = { e with
    targetsSpent := e.targetsSpent + c.targets
    durationAllocated := e.durationAllocated + c.seconds }
  engagementId : c.engagementId = e.id
  targets_le : c.targets = 0 ∨ e'.targetsSpent ≤ e.targetLimit.getD 0
  seconds_le : c.seconds = 0 ∨ e'.durationAllocated ≤ e.durationLimit.getD 0

/-- The execution of a claim: active, and with a reservation only below the limit. -/
structure Starts (db : Db) (j : ScanJob) (e : Engagement) (x : JobExecution) : Prop where
  jobId : x.jobId = j.id
  state : x.state = .active
  reserved : x.capacityReserved = true → db.reserved e.id < e.concurrencyLimit.getD 0

/-- The charge that the receipts of a claim state. -/
def chargeOf (e : Engagement) (targets : Option TargetReceipt)
    (duration : Option DurationReceipt) : Charge :=
  ⟨e.id, (targets.map TargetReceipt.charged).getD 0,
    (duration.map DurationReceipt.allocatedSeconds).getD 0⟩

/-- The gates of a claim, together. -/
theorem admits_of_gates {db : Db} {j : ScanJob} {e e₁ e₂ : Engagement} {case : Option Json}
    {body : Option ClaimControl} {targets : Option TargetReceipt}
    {duration : Option DurationReceipt} (hj : db.jobs.get? j.id = some j)
    (hpending : j.status = .pending) (he : db.engagements.get? j.programId = some e)
    (hstop : e.stopWorkAt = none) (hcharge : charge e j case body = .ok (e₁, targets))
    (hallocate : allocate e₁ body = .ok (e₂, duration)) :
    Admits db j e e₂ (chargeOf e targets duration) := by
  obtain ⟨rfl, htargets⟩ := charge_eq_ok hcharge
  obtain ⟨rfl, hseconds⟩ := allocate_eq_ok hallocate
  refine ⟨hj, hpending, he, hstop, rfl, rfl, ?_, ?_⟩
  · cases targets with
    | none => exact .inl rfl
    | some r => exact .inr (htargets rfl)
  · cases duration with
    | none => exact .inl rfl
    | some r => exact .inr (hseconds rfl)

/-- What an accepted claim of an unmanaged job established. -/
structure Claims (db : Db) (jobId : String) (e e' : Engagement) (j running : ScanJob)
    (c : Charge) (executions : Table JobExecution) : Prop where
  jobId : j.id = jobId
  admits : Admits db j e e' c
  unmanaged : j.managed = false
  running : ∃ startedAt caseSnapshot, running = { j with
    status := .running, startedAt := some startedAt, caseSnapshot }
  executions : executions = db.executions ∨
    ∃ x, Starts db j e x ∧ db.executions.insert x = some executions

/-- Without control there is nothing to charge. -/
theorem charge_none {e e' : Engagement} {j : ScanJob} {case : Option Json}
    {targets : Option TargetReceipt} (h : charge e j case none = .ok (e', targets)) :
    targets = none := by
  unfold charge at h
  dsimp only at h
  split at h
  · obtain ⟨_, -, h⟩ := bind_eq_ok h
    exact (Prod.mk.inj (Except.ok.inj h)).2.symm
  · obtain ⟨_, hbound, -⟩ := bind_eq_ok h
    simpa using ensure_eq_ok hbound

omit [Unicode] in
theorem allocate_none {e e' : Engagement} {duration : Option DurationReceipt}
    (h : allocate e none = .ok (e', duration)) : duration = none := by
  unfold allocate at h
  dsimp only at h
  split at h
  · obtain ⟨_, -, h⟩ := bind_eq_ok h
    exact (Prod.mk.inj (Except.ok.inj h)).2.symm
  · obtain ⟨n, hn, -⟩ := bind_eq_ok h
    exact absurd (found_eq_ok hn) (by simp)

theorem claimJob_eq_ok {p : Platform} {clocks : Clocks} {request : HttpRequest} {jobId : String}
    {body : Option ClaimControl} {token : String} {db db' : Db} {reply : Reply}
    (h : claimJob p clocks request jobId body token db = .ok (db', reply)) :
    ∃ e e' j running c executions capability warning,
      Claims db jobId e e' j running c executions ∧
      reply = .claimed capability .null warning ∧
      c = chargeOf e (capability.bind Capability.targetBudget)
        (capability.bind Capability.durationBudget) ∧
      db' = { db with
        engagements := db.engagements.put e'
        jobs := db.jobs.put running
        executions } := by
  obtain ⟨user, -, h⟩ := bind_eq_ok h
  obtain ⟨j, hj, h⟩ := bind_eq_ok h
  obtain ⟨e, he, h⟩ := bind_eq_ok h
  obtain ⟨_, hunmanaged, h⟩ := bind_eq_ok h
  dsimp only at h
  obtain ⟨_, hpending, h⟩ := bind_eq_ok h
  obtain ⟨_, hbefore, h⟩ := bind_eq_ok h
  obtain ⟨warning, -, h⟩ := bind_eq_ok h
  obtain ⟨snapshot, -, h⟩ := bind_eq_ok h
  obtain ⟨_, hfree, h⟩ := bind_eq_ok h
  obtain ⟨⟨e₁, targets⟩, hcharge, h⟩ := bind_eq_ok h
  dsimp only at h
  obtain ⟨⟨e₂, duration⟩, hallocate, h⟩ := bind_eq_ok h
  dsimp only at h
  obtain ⟨⟨executions, capability⟩, hissue, h⟩ := bind_eq_ok h
  obtain ⟨rfl, rfl⟩ := Prod.mk.inj (Except.ok.inj h)
  have hj := (lockJob_eq_ok hj).1
  have hid : j.id = jobId := Table.key_of_get? hj
  have he := writableEngagement_eq_ok he
  have hpending : j.status = .pending := by simpa using ensure_eq_ok hpending
  have hfree := ensure_eq_ok hfree
  simp only [Bool.and_eq_true, Option.isNone_iff_eq_none] at hfree
  have hadmits := admits_of_gates (hid ▸ hj) hpending he hfree.2 hcharge hallocate
  cases body with
  | none =>
    obtain ⟨rfl, rfl⟩ := Prod.mk.inj (Except.ok.inj hissue)
    obtain rfl := charge_none hcharge
    obtain rfl := allocate_none hallocate
    exact ⟨e, e₂, j, _, _, _, none, warning, {
      jobId := hid
      admits := hadmits
      unmanaged := by simpa using ensure_eq_ok hunmanaged
      running := ⟨_, _, rfl⟩
      executions := .inl rfl }, rfl, rfl, rfl⟩
  | some body =>
    obtain ⟨⟨x, k⟩, hrow, hstore⟩ := bind_eq_ok hissue
    dsimp only at hstore
    obtain ⟨executions', hinsert, hpair⟩ := bind_eq_ok hstore
    obtain ⟨rfl, rfl⟩ := Prod.mk.inj (Except.ok.inj hpair)
    obtain ⟨hxid, hactive, hreserved, htargets, hduration⟩ := issue_eq_ok hrow
    exact ⟨e, e₂, j, _, _, _, some k, warning, {
      jobId := hid
      admits := hadmits
      unmanaged := by simpa using ensure_eq_ok hunmanaged
      running := ⟨_, _, rfl⟩
      executions := .inr ⟨x, ⟨hxid.trans hid.symm, hactive, fun hr =>
        beforeClaim_eq_ok hbefore (by simpa using hreserved ▸ hr)⟩, found_eq_ok hinsert⟩ }, rfl,
      by simp [htargets, hduration], rfl⟩

/-! ## Controlling an execution -/

omit [Unicode] in
/-- An execution that is still active once it was observed is not stopped and not expired, and
nothing was written. -/
theorem observed_active {x : JobExecution} {stopped : Bool} {now : Instant}
    (h : (x.observed stopped now).state = .active) :
    x.state = .active ∧ stopped = false ∧ now < x.expiresAt ∧ x.observed stopped now = x := by
  unfold JobExecution.observed at h ⊢
  split at h
  · rename_i hx
    simp [h] at hx
  · rename_i hx
    split at h
    · cases h
    · rename_i hstopped
      split at h
      · cases h
      · rename_i hexpired
        rw [if_neg hx, if_neg hstopped, if_neg hexpired]
        exact ⟨h, by simpa using hstopped, by simpa using hexpired, rfl⟩

/-- An execution that is held: another state that is not final, never back to active; or a new
lease of an active execution of an unmanaged job. -/
structure Held (db : Db) (x x' : JobExecution) : Prop where
  row : ∃ state expiresAt, x' = { x with state, expiresAt }
  opened : x' = x ∨ x.state.final = false ∧ x'.state.final = false
  active : x'.state = .active → x.state = .active
  lease : x'.expiresAt = x.expiresAt ∨ x.state = .active ∧ x'.state = .active ∧
    ∃ j, db.jobs.get? x.jobId = some j ∧ j.managed = false

omit [Unicode] in
/-- A change of state only. -/
theorem Held.state {db : Db} {x : JobExecution} {state : ExecutionState}
    (hx : x.state.final = false) (hs : state.final = false) (hactive : state ≠ .active) :
    Held db x { x with state } where
  row := ⟨state, x.expiresAt, rfl⟩
  opened := .inr ⟨hx, hs⟩
  active := fun h => absurd h hactive
  lease := .inl rfl

omit [Unicode] in
theorem observed_held (db : Db) (x : JobExecution) (stopped : Bool) (now : Instant) :
    Held db x (x.observed stopped now) := by
  have hsame : Held db x x := ⟨⟨x.state, x.expiresAt, rfl⟩, .inl rfl, id, .inl rfl⟩
  unfold JobExecution.observed
  split
  · exact hsame
  · rename_i hx
    have hactive : x.state = .active := by simpa using hx
    have hopen : x.state.final = false := by rw [hactive]; rfl
    split
    · exact .state hopen rfl nofun
    · split
      · exact .state hopen rfl nofun
      · exact hsame

/-- What a control request established. -/
structure Controls (clocks : Clocks) (db : Db) (jobId : String) (x : JobExecution)
    (j : ScanJob) (e : Engagement) : Prop where
  execution : db.executions.get? jobId = some x
  job : db.jobs.get? jobId = some j
  unmanaged : j.managed = false
  engagement : db.engagements.get? j.programId = some e

/-- A control request renews the lease of a live execution, or it tells the runner to stop. -/
theorem refreshExecution_eq_ok {p : Platform} {clocks : Clocks} {request : HttpRequest}
    {jobId : String} {body : ControlRequest} {db db' : Db} {reply : Reply}
    (h : refreshExecution p clocks request jobId body db = .ok (db', reply)) :
    ∃ x j e, Controls clocks db jobId x j e ∧
      ((x.state = .active ∧ e.stopWorkAt = none ∧ clocks.control 0 < x.expiresAt ∧
        j.status = .running ∧ db' = db.putExecution
          { x with expiresAt := clocks.control 1 + seconds leaseSeconds }) ∨
      ((∃ runnerId origin, reply = .control x.jobId runnerId origin .cancel leaseSeconds) ∧
        db' = db.putExecution (x.observed e.stopWorkAt.isSome (clocks.control 0)))) := by
  obtain ⟨user, -, h⟩ := bind_eq_ok h
  obtain ⟨x, hx, h⟩ := bind_eq_ok h
  obtain ⟨j, hj, h⟩ := bind_eq_ok h
  obtain ⟨e, he, h⟩ := bind_eq_ok h
  obtain ⟨_, hunmanaged, h⟩ := bind_eq_ok h
  dsimp only at h
  obtain ⟨rfl, rfl⟩ := Prod.mk.inj (Except.ok.inj h)
  refine ⟨x, j, e, ⟨(owned_eq_ok hx).1, found_eq_ok hj, by simpa using ensure_eq_ok hunmanaged,
    writableEngagement_eq_ok he⟩, ?_⟩
  by_cases hlive : (x.observed e.stopWorkAt.isSome (clocks.control 0)).state = .active ∧
      j.status = .running
  · obtain ⟨hactive, hstopped, hlease, hsame⟩ := observed_active hlive.1
    left
    refine ⟨hactive, by simpa using hstopped, hlease, hlive.2, ?_⟩
    simp [hsame, hactive, hlive.2, Db.putExecution]
  · right
    have hcond : (((x.observed e.stopWorkAt.isSome (clocks.control 0)).state == .active) &&
        j.status == .running) = false := by
      simpa using hlive
    simp only [hcond, Bool.false_eq_true, if_false]
    refine ⟨⟨x.runnerId, x.origin, ?_⟩, rfl⟩
    obtain ⟨state, expiresAt, hrow⟩ := (observed_held db x e.stopWorkAt.isSome (clocks.control 0)).row
    rw [hrow]
    rfl

/-- How a finalization by the owner ended. -/
inductive Finishes (clocks : Clocks) (db : Db) (x : JobExecution) (j : ScanJob)
    (e : Engagement) : Finish → Db → Except Refusal Reply → Prop
  | again {f : Finish} (final : x.state.final = true) (same : x.state = f.state) :
      Finishes clocks db x j e f db (.ok (.finalized x.state))
  | late (opened : x.state.final = false)
      (stopped : x.state ≠ .active ∨ x.expiresAt ≤ clocks.control 0 ∨ e.stopWorkAt ≠ none) :
      Finishes clocks db x j e (.ended .completed)
        (db.putExecution { x with state := .cancelRequested })
        (.error (.http 409 "stop or expired lease prevents successful completion"))
  | uncertain (opened : x.state.final = false) :
      Finishes clocks db x j e .uncertain
        (db.putExecution { x with state := .uncertain })
        (.ok (.finalized .uncertain))
  | ended {o : Outcome} (now : Instant) (opened : x.state.final = false)
      (live : o = .completed →
        x.state = .active ∧ clocks.control 0 < x.expiresAt ∧ e.stopWorkAt = none) :
      Finishes clocks db x j e (.ended o)
        ((db.putExecution (x.finish o)).putJob (j.finish o now o.errorMessage))
        (.ok (.finalized o.state))

theorem finishExecution_eq_ok {p : Platform} {clocks : Clocks} {request : HttpRequest}
    {jobId : String} {body : ControlRequest} {f : Finish} {db db' : Db}
    {reply : Except Refusal Reply}
    (h : finishExecution p clocks request jobId body f db = .ok (db', reply)) :
    ∃ x j e, Controls clocks db jobId x j e ∧ Finishes clocks db x j e f db' reply := by
  obtain ⟨user, -, h⟩ := bind_eq_ok h
  obtain ⟨x, hx, h⟩ := bind_eq_ok h
  obtain ⟨j, hj, h⟩ := bind_eq_ok h
  obtain ⟨e, he, h⟩ := bind_eq_ok h
  obtain ⟨_, hunmanaged, h⟩ := bind_eq_ok h
  refine ⟨x, j, e, ⟨(owned_eq_ok hx).1, found_eq_ok hj, by simpa using ensure_eq_ok hunmanaged,
    writableEngagement_eq_ok he⟩, ?_⟩
  dsimp only at h
  split at h
  · rename_i hfinal
    obtain ⟨_, hsame, h⟩ := bind_eq_ok h
    obtain ⟨rfl, rfl⟩ := Prod.mk.inj (Except.ok.inj h)
    exact .again hfinal (by simpa using ensure_eq_ok hsame)
  rename_i hopen
  have hopen : x.state.final = false := by simpa using hopen
  split at h
  · rename_i hlate
    obtain ⟨rfl, rfl⟩ := Prod.mk.inj (Except.ok.inj h)
    simp only [Bool.and_eq_true, Bool.or_eq_true, beq_iff_eq, bne_iff_ne, decide_eq_true_eq,
      Option.isSome_iff_ne_none, ne_eq] at hlate
    obtain ⟨rfl, hlate⟩ := hlate
    exact .late hopen (or_assoc.mp hlate)
  · rename_i hlate
    split at h
    · obtain ⟨rfl, rfl⟩ := Prod.mk.inj (Except.ok.inj h)
      exact .uncertain hopen
    · obtain ⟨rfl, rfl⟩ := Prod.mk.inj (Except.ok.inj h)
      refine .ended _ hopen fun ho => ?_
      subst ho
      simpa [not_or, and_assoc] using hlate

/-! ## Removing a job, and its result -/

theorem executionStatus_eq_ok {p : Platform} {clocks : Clocks} {request : HttpRequest}
    {jobId : String} {db db' : Db} {reply : Reply}
    (h : executionStatus p clocks request jobId db = .ok (db', reply)) : db' = db := by
  obtain ⟨user, -, h⟩ := bind_eq_ok h
  obtain ⟨j, -, h⟩ := bind_eq_ok h
  obtain ⟨x, -, h⟩ := bind_eq_ok h
  exact (Prod.mk.inj (Except.ok.inj h)).1.symm

theorem deleteJob_eq_ok {p : Platform} {request : HttpRequest} {jobId : String} {db db' : Db}
    {reply : Reply} (h : deleteJob p request jobId db = .ok (db', reply)) :
    (∀ x, db.executions.get? jobId = some x → x.capacityReserved = false) ∧
      db' = db.dropJobs fun j => j.id != jobId := by
  obtain ⟨user, -, h⟩ := bind_eq_ok h
  obtain ⟨_, -, h⟩ := bind_eq_ok h
  obtain ⟨j, hj, h⟩ := bind_eq_ok h
  obtain ⟨_, hreserved, h⟩ := bind_eq_ok h
  obtain ⟨e, -, h⟩ := bind_eq_ok h
  have hreserved := ensure_eq_ok hreserved
  exact ⟨fun x hx => by simpa [hx] using hreserved, (Prod.mk.inj (Except.ok.inj h)).1.symm⟩

omit [Unicode] in
theorem storeGateResult_eq_ok {p : Platform} {db db' : Db} {job : ScanJob} {upload : GateUpload}
    {retained : Retained} (h : storeGateResult p db job upload = .ok (db', retained)) :
    (db' = db ∧ ∃ receipt, db.receipts.get? job.id = some receipt) ∨
      ∃ assessment receipt receipts, receipt.jobId = job.id ∧
        db.receipts.insert receipt = some receipts ∧
        db' = { db with receipts, jobs := db.jobs.put { job with assessment } } := by
  unfold storeGateResult at h
  obtain ⟨⟨payloadHash, legacyHash⟩, -, h⟩ := bind_eq_ok h
  dsimp only at h
  split at h
  · rename_i receipt hreceipt
    obtain ⟨_, -, h⟩ := bind_eq_ok h
    obtain ⟨rfl, -⟩ := Prod.mk.inj (Except.ok.inj h)
    exact .inl ⟨rfl, receipt, hreceipt⟩
  · obtain ⟨filed, -, h⟩ := bind_eq_ok h
    obtain ⟨receipts, hinsert, h⟩ := bind_eq_ok h
    obtain ⟨rfl, -⟩ := Prod.mk.inj (Except.ok.inj h)
    exact .inr ⟨filed.assessment, _, receipts, rfl, found_eq_ok hinsert, rfl⟩

theorem uploadJobResult_eq_ok {p : Platform} {request : HttpRequest} {jobId : String}
    {upload : GateUpload} {db db' : Db} {reply : Reply}
    (h : uploadJobResult p request jobId upload db = .ok (db', reply)) :
    ∃ j, db.jobs.get? jobId = some j ∧ j.managed = false ∧
      (db' = db ∨ ∃ assessment receipt receipts, receipt.jobId = j.id ∧
        db.receipts.insert receipt = some receipts ∧
        db' = { db with receipts, jobs := db.jobs.put { j with assessment } }) := by
  obtain ⟨user, -, h⟩ := bind_eq_ok h
  obtain ⟨j, hj, h⟩ := bind_eq_ok h
  obtain ⟨e, -, h⟩ := bind_eq_ok h
  obtain ⟨_, hmanaged, h⟩ := bind_eq_ok h
  obtain ⟨_, -, h⟩ := bind_eq_ok h
  obtain ⟨⟨db₁, retained⟩, hstore, h⟩ := bind_eq_ok h
  obtain ⟨rfl, -⟩ := Prod.mk.inj (Except.ok.inj h)
  exact ⟨j, (lockJob_eq_ok hj).1, by simpa using ensure_eq_ok hmanaged,
    (storeGateResult_eq_ok hstore).imp And.left id⟩

end VardrMap
