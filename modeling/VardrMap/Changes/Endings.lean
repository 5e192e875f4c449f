import VardrMap.Changes.Issuance

/-!
# How executions end

An execution that ended is never written again. The result and the stop of a contract are
retained for a consumed contract only, they show the execution as it ended, and at most one of
the two ended it.
-/
namespace VardrMap
open Lib

variable [Unicode] {rt : Runtime}

/-! ## The row of an execution -/

/-- How a stored execution changes: another state or lease while it is open, or its end. -/
inductive ExecutionStep (x : JobExecution) : JobExecution → Prop
  | same : ExecutionStep x x
  | held (state : ExecutionState) (expiresAt : Instant) (opened : x.state.final = false)
      (still : state.final = false) (active : state = .active → x.state = .active) :
      ExecutionStep x { x with state, expiresAt }
  | ended (o : Outcome) (opened : x.state.final = false) : ExecutionStep x (x.finish o)

omit [Unicode] in
/-- An execution that ended stays as it is. -/
theorem ExecutionStep.final {x x' : JobExecution} (h : ExecutionStep x x')
    (hx : x.state.final = true) : x' = x := by
  cases h with
  | same => rfl
  | held state expiresAt opened => simp [hx] at opened
  | ended o opened => simp [hx] at opened

omit [Unicode] in
theorem Held.step {db : Db} {x x' : JobExecution} (h : Held db x x') : ExecutionStep x x' := by
  obtain ⟨state, expiresAt, rfl⟩ := h.row
  rcases h.opened with hsame | ⟨hopen, hopen'⟩
  · rw [hsame]
    exact .same
  · exact .held state expiresAt hopen hopen' h.active

omit [Unicode] in
/-- One execution is replaced. -/
theorem executionStep_put {db db' : Db} {x x' old : JobExecution} {k : String}
    (hexecutions : db'.executions = db.executions.put x')
    (hold : db.executions.get? (Keyed.key x') = some old) (hstep : ExecutionStep old x')
    (hx : db.executions.get? k = some x) :
    ∃ y, db'.executions.get? k = some y ∧ ExecutionStep x y := by
  rw [hexecutions]
  rcases Table.get?_put_of_get? hold hx with ⟨rfl, hput⟩ | hput
  · exact ⟨x', hput, hstep⟩
  · exact ⟨x, hput, .same⟩

/-- An execution goes with its job, or it stays and makes a step. -/
theorem Change.execution {db db' : Db} {es : List Event} (hmatched : Matched db)
    (h : Change rt db es db') {k : String} {x : JobExecution}
    (hx : db.executions.get? k = some x) :
    (db'.jobs.get? k = none ∧ db'.executions.get? k = none) ∨
      ∃ x', db'.executions.get? k = some x' ∧ ExecutionStep x x' := by
  cases h with
  | dropped keep =>
    obtain ⟨j, hj, -⟩ := hmatched _ _ hx
    have hid : x.jobId = k := Table.key_of_get? hx
    have hjobs : (db.dropJobs keep).jobs.get? k = if keep j then some j else none := by
      change (db.jobs.filter keep).get? k = _
      rw [Table.get?_filter, hj, Option.filter_some]
    have hexecutions : (db.dropJobs keep).executions.get? k = if keep j then some x else none := by
      change (db.executions.filter fun x => (db.jobs.get? x.jobId).any keep).get? k = _
      rw [Table.get?_filter, hx, Option.filter_some, hid, hj, Option.any_some]
    rw [hjobs, hexecutions]
    split
    · exact .inr ⟨x, rfl, .same⟩
    · exact .inl ⟨rfl, rfl⟩
  | halted now stored =>
    rename_i e
    have hmap := Table.get?_map (t := db.executions) (halt_jobId db e.id) k
    rw [hx] at hmap
    refine .inr ⟨db.halt e.id x, hmap, ?_⟩
    unfold Db.halt JobExecution.requestCancel
    split
    · split
      · rename_i hactive
        have hactive : x.state = .active := by simpa using hactive
        exact .held .cancelRequested x.expiresAt (by rw [hactive]; rfl) rfl (by simp)
      · exact .same
    · exact .same
  | held stored holds =>
    refine .inr (executionStep_put rfl (stored_key stored ?_) holds.step hx)
    obtain ⟨state, expiresAt, hrow⟩ := holds.row
    rw [hrow]
    rfl
  | finished o now message execution opened job =>
    exact .inr (executionStep_put rfl (stored_key execution rfl) (.ended o opened) hx)
  | claimed claims =>
    rcases claims.executions with hsame | ⟨y, -, hinsert⟩
    · exact .inr ⟨x, hsame.symm ▸ hx, .same⟩
    · exact .inr ⟨x, Table.get?_insert_of_get? hinsert hx, .same⟩
  | issued issues => exact .inr ⟨x, Table.get?_insert_of_get? issues.executions hx, .same⟩
  | renewed renews =>
    obtain ⟨user, hl⟩ := renews.live
    exact .inr (executionStep_put rfl renews.stored_key
      (.held _ _ (by rw [hl.active]; rfl) (by rw [hl.active]; rfl) id) hx)
  | concluded reports stored concludes =>
    exact .inr (executionStep_put rfl (stored_key reports.execution rfl)
      (.ended _ concludes.opened) hx)
  | ended reports known inserted ends =>
    exact .inr (executionStep_put rfl (stored_key reports.execution rfl) (.ended _ ends.opened) hx)
  | _ => exact .inr ⟨x, hx, .same⟩

/-- A new execution is active. It belongs to a pending job, which is not managed or got its
contract just now. -/
structure NewExecution (db db' : Db) (x : JobExecution) (j : ScanJob) : Prop where
  active : x.state = .active
  job : db.jobs.get? x.jobId = some j
  pending : j.status = .pending
  claim : j.managed = false ∨
    ∃ k c, db'.contracts.get? k = some c ∧ c.jobId = x.jobId

theorem Change.execution_row {db db' : Db} {es : List Event} (hmatched : Matched db)
    (h : Change rt db es db') {k : String} {x' : JobExecution}
    (hx' : db'.executions.get? k = some x') :
    (db.executions.get? k = none ∧ ∃ j, NewExecution db db' x' j) ∨
      ∃ x, db.executions.get? k = some x ∧ ExecutionStep x x' := by
  cases hx : db.executions.get? k with
  | some x =>
    rcases h.execution hmatched hx with ⟨-, hnone⟩ | ⟨y, hy, hstep⟩
    · rw [hnone] at hx'
      cases hx'
    · obtain rfl := Option.some.inj (hy.symm.trans hx')
      exact .inr ⟨x, rfl, hstep⟩
  | none =>
    refine .inl ⟨rfl, ?_⟩
    have hput : ∀ {y old : JobExecution}, db.executions.get? (Keyed.key y) = some old →
        (db.executions.put y).get? k ≠ some x' := fun hold hy => by
      rcases Table.of_get?_put hold hy with ⟨rfl, -⟩ | ⟨-, hy⟩
      · rw [hold] at hx
        cases hx
      · rw [hy] at hx
        cases hx
    cases h with
    | claimed claims =>
      rcases claims.executions with hsame | ⟨y, hstarts, hinsert⟩
      · rw [show _ = _ from hsame, hx] at hx'
        cases hx'
      · rcases Table.of_get?_insert hinsert hx' with ⟨rfl, rfl⟩ | hold
        · exact ⟨_, hstarts.state, hstarts.jobId ▸ claims.admits.job, claims.admits.status,
            .inl claims.unmanaged⟩
        · rw [hold] at hx
          cases hx
    | issued issues =>
      rcases Table.of_get?_insert issues.executions hx' with ⟨rfl, rfl⟩ | hold
      · obtain ⟨hid, hactive, -⟩ := issue_eq_ok issues.issue
        refine ⟨_, hactive, hid ▸ issues.job, issues.status, .inr ⟨_, _,
          (Table.get?_insert issues.contracts _).trans (if_pos rfl), ?_⟩⟩
        exact (Table.key_of_get? issues.job).trans hid.symm
      · rw [hold] at hx
        cases hx
    | dropped keep =>
      have hx' : (db.executions.filter fun x => (db.jobs.get? x.jobId).any keep).get? k =
        some x' := hx'
      rw [Table.get?_filter, hx] at hx'
      cases hx'
    | halted now stored =>
      rw [Table.get?_map, hx] at hx'
      cases hx'
    | held stored holds =>
      refine absurd hx' (hput (stored_key stored ?_))
      obtain ⟨state, expiresAt, hrow⟩ := holds.row
      rw [hrow]
      rfl
    | finished o now message execution => exact absurd hx' (hput (stored_key execution rfl))
    | renewed renews => exact absurd hx' (hput renews.stored_key)
    | concluded reports => exact absurd hx' (hput (stored_key reports.execution rfl))
    | ended reports => exact absurd hx' (hput (stored_key reports.execution rfl))
    | _ => exact absurd (hx.symm.trans hx') nofun

/-! ## The rows of results and stops -/

omit [Unicode] in
theorem concluded_key {db : Db} {k : String} {r : ManagedResult} (h : db.results.get? k = some r)
    (outcome : Option Outcome) (finishedAt : Option Instant) :
    db.results.get? (Keyed.key { r with outcome, finishedAt }) = some r := stored_key h rfl

/-- Results stay, and get their outcome once. -/
theorem Change.result {db db' : Db} {es : List Event} (h : Change rt db es db') {k : String}
    {r : ManagedResult} (hr : db.results.get? k = some r) :
    ∃ r', db'.results.get? k = some r' ∧ (r' = r ∨ r.outcome = none ∧
      ∃ o t, r' = { r with outcome := some o, finishedAt := some t }) := by
  cases h with
  | retained reports inserted => exact ⟨r, Table.get?_insert_of_get? inserted hr, .inl rfl⟩
  | concluded reports stored concludes =>
    rcases Table.get?_put_of_get? (concluded_key stored _ _) hr with ⟨rfl, hput⟩ | hput
    · exact ⟨_, hput, .inr ⟨concludes.pending, _, _, rfl⟩⟩
    · exact ⟨r, hput, .inl rfl⟩
  | _ => exact ⟨r, hr, .inl rfl⟩

/-- Stops stay. -/
theorem Change.stop {db db' : Db} {es : List Event} (h : Change rt db es db') {k : String}
    {s : ManagedStop} (hs : db.stops.get? k = some s) : db'.stops.get? k = some s := by
  cases h with
  | ended reports known inserted => exact Table.get?_insert_of_get? inserted hs
  | _ => exact hs

/-- A retained result names its contract. -/
structure ManagedResult.Names (r : ManagedResult) (c : ManagedContract) : Prop where
  jobId : r.jobId = c.jobId
  attemptId : r.attemptId = c.attemptId
  fence : r.fence = c.fence
  digest : Wire.digest c.envelope = .ok r.contractSha256

/-- A retained result shows the execution of its contract. -/
structure ManagedResult.Shows (r : ManagedResult) (c : ManagedContract) (x : JobExecution) :
    Prop where
  receipt : Results.receiptHash (Results.binding x c r.contractSha256) r.artifactSha256
    r.caseSha256 = .ok r.receiptSha256
  outcome : ∀ o, r.outcome = some o → x.state = o.state

/-- A retained stop names its contract. -/
structure ManagedStop.Names (s : ManagedStop) (c : ManagedContract) : Prop where
  jobId : s.jobId = c.jobId
  attemptId : s.attemptId = c.attemptId
  fence : s.fence = c.fence
  digest : Wire.digest c.envelope = .ok s.contractSha256
  cause : Stops.causes.contains s.cause = true
  outcome : s.outcome = Stops.outcomeOf s.cause

/-- A retained stop shows the execution of its contract. -/
structure ManagedStop.Shows (s : ManagedStop) (c : ManagedContract) (x : JobExecution) :
    Prop where
  receipt : Stops.stopHash (Results.binding x c s.contractSha256) s.outcome s.cause =
    .ok s.receiptSha256
  state : x.state = s.outcome.state

omit [Unicode] in
/-- A binding does not depend on how far its execution is, or on the consumption. -/
theorem ExecutionStep.binding {x x' : JobExecution} (h : ExecutionStep x x')
    {c c' : ManagedContract} (hc : c' = c ∨ c' = { c with consumed := true }) (sha : String) :
    Results.binding x' c' sha = Results.binding x c sha := by
  cases h <;> rcases hc with rfl | rfl <;> rfl

omit [Unicode] in
theorem ManagedResult.Names.kept {r : ManagedResult} {c c' : ManagedContract} (h : r.Names c)
    (hc : c' = c ∨ c' = { c with consumed := true }) : r.Names c' := by
  rcases hc with rfl | rfl <;> exact ⟨h.jobId, h.attemptId, h.fence, h.digest⟩

omit [Unicode] in
theorem ManagedStop.Names.kept {s : ManagedStop} {c c' : ManagedContract} (h : s.Names c)
    (hc : c' = c ∨ c' = { c with consumed := true }) : s.Names c' := by
  rcases hc with rfl | rfl <;> exact ⟨h.jobId, h.attemptId, h.fence, h.digest, h.cause, h.outcome⟩

omit [Unicode] in
theorem ManagedResult.Shows.kept {r : ManagedResult} {c c' : ManagedContract}
    {x x' : JobExecution} (h : r.Shows c x) (hx : ExecutionStep x x')
    (hc : c' = c ∨ c' = { c with consumed := true }) : r.Shows c' x' where
  receipt := by
    rw [hx.binding hc]
    exact h.receipt
  outcome := fun o ho => by
    rw [hx.final (by rw [h.outcome o ho, Outcome.state_final])]
    exact h.outcome o ho

omit [Unicode] in
theorem ManagedStop.Shows.kept {s : ManagedStop} {c c' : ManagedContract} {x x' : JobExecution}
    (h : s.Shows c x) (hx : ExecutionStep x x') (hc : c' = c ∨ c' = { c with consumed := true }) :
    s.Shows c' x' where
  receipt := by
    rw [hx.binding hc]
    exact h.receipt
  state := by
    rw [hx.final (by rw [h.state, Outcome.state_final])]
    exact h.state

/-! ## The rows of a contract together -/

/-- Managed jobs, their contracts and executions, and what was retained of them. -/
structure Endings (db : Db) : Prop where
  required : ∀ k j, db.jobs.get? k = some j → j.managedApprovalId ≠ none →
    j.authorizationContractRequired = true
  running : ∀ k j, db.jobs.get? k = some j → j.authorizationContractRequired = true →
    j.status = .running → ∃ x, db.executions.get? k = some x
  started : ∀ k j x, db.jobs.get? k = some j → db.executions.get? k = some x →
    j.authorizationContractRequired = true → ∃ i c, db.contracts.get? i = some c ∧ c.jobId = k
  contract : ∀ k c, db.contracts.get? k = some c → c.jobId ∈ db.ids ∧
    ∀ j, db.jobs.get? c.jobId = some j →
      j.authorizationContractRequired = true ∧ ∃ x, db.executions.get? c.jobId = some x
  result : ∀ k r, db.results.get? k = some r → ∃ c, db.contracts.get? k = some c ∧
    c.consumed = true ∧ r.Names c ∧ ∀ x, db.executions.get? c.jobId = some x → r.Shows c x
  stop : ∀ k s, db.stops.get? k = some s → ∃ c, db.contracts.get? k = some c ∧
    c.consumed = true ∧ s.Names c ∧ ∀ x, db.executions.get? c.jobId = some x → s.Shows c x
  exclusive : ∀ k r s, db.results.get? k = some r → db.stops.get? k = some s → r.outcome = none

omit [Unicode] in
theorem Endings.empty : Endings .empty where
  required := fun _ _ h => by cases h
  running := fun _ _ h => by cases h
  started := fun _ _ _ h => by cases h
  contract := fun _ _ h => by cases h
  result := fun _ _ h => by cases h
  stop := fun _ _ h => by cases h
  exclusive := fun _ _ _ h => by cases h

/-- A stored job after a change, as it was before: a job that was known is not queued anew. -/
theorem Change.job_of_known {db db' : Db} {es : List Event} (h : Change rt db es db') {k : String}
    (hk : k ∈ db.ids) {j' : ScanJob} (hj' : db'.jobs.get? k = some j') :
    ∃ j, db.jobs.get? k = some j ∧ JobStep db db' j j' := by
  rcases h.job_row hj' with ⟨hqueued, rfl, -⟩ | hrow
  · exact absurd hk hqueued.fresh
  · exact hrow

omit [Unicode] in
/-- The mark of a job stays. -/
theorem JobStep.required {db db' : Db} {j j' : ScanJob} (h : JobStep db db' j j')
    (hj : j.authorizationContractRequired = true) : j'.authorizationContractRequired = true := by
  cases h with
  | progress => exact hj
  | started => exact hj
  | bound => rfl

omit [Unicode] in
theorem required_of_managed_false {j : ScanJob} (h : j.managed = false) :
    j.authorizationContractRequired = false := by
  unfold ScanJob.managed at h
  exact (Bool.or_eq_false_iff.mp h).1

section
variable {db db' : Db} {es : List Event}

/-- An execution whose job has a contract was there before, and made a step. -/
theorem Endings.execution_row (hdb : Endings db) (hmatched : Matched db)
    (h : Change rt db es db') {k : String} {c : ManagedContract}
    (hc : db.contracts.get? k = some c) {x' : JobExecution}
    (hx' : db'.executions.get? c.jobId = some x') :
    ∃ x, db.executions.get? c.jobId = some x ∧ ExecutionStep x x' := by
  rcases h.execution_row hmatched hx' with ⟨hnone, j, hnew⟩ | hrow
  · have hid : x'.jobId = c.jobId := Table.key_of_get? hx'
    obtain ⟨-, x, hx⟩ := (hdb.contract k c hc).2 j (hid ▸ hnew.job)
    rw [hnone] at hx
    cases hx
  · exact hrow

/-- A retained result stays one of its contract. -/
theorem Endings.result_kept (hdb : Endings db) (hmatched : Matched db) (h : Change rt db es db')
    {k : String} {r : ManagedResult} (hr : db.results.get? k = some r) :
    ∃ c, db'.contracts.get? k = some c ∧ c.consumed = true ∧ r.Names c ∧
      ∀ x, db'.executions.get? c.jobId = some x → r.Shows c x := by
  obtain ⟨c, hc, hconsumed, hnames, hshows⟩ := hdb.result k r hr
  obtain ⟨c', hc', hsame⟩ := h.contract hc
  have hjob : c'.jobId = c.jobId := by rcases hsame with rfl | rfl <;> rfl
  refine ⟨c', hc', ?_, hnames.kept hsame, fun x' hx' => ?_⟩
  · rcases hsame with rfl | rfl
    · exact hconsumed
    · rfl
  · rw [hjob] at hx'
    obtain ⟨x, hx, hstep⟩ := hdb.execution_row hmatched h hc hx'
    exact (hshows x hx).kept hstep hsame

theorem Endings.stop_kept (hdb : Endings db) (hmatched : Matched db) (h : Change rt db es db')
    {k : String} {s : ManagedStop} (hs : db.stops.get? k = some s) :
    ∃ c, db'.contracts.get? k = some c ∧ c.consumed = true ∧ s.Names c ∧
      ∀ x, db'.executions.get? c.jobId = some x → s.Shows c x := by
  obtain ⟨c, hc, hconsumed, hnames, hshows⟩ := hdb.stop k s hs
  obtain ⟨c', hc', hsame⟩ := h.contract hc
  have hjob : c'.jobId = c.jobId := by rcases hsame with rfl | rfl <;> rfl
  refine ⟨c', hc', ?_, hnames.kept hsame, fun x' hx' => ?_⟩
  · rcases hsame with rfl | rfl
    · exact hconsumed
    · rfl
  · rw [hjob] at hx'
    obtain ⟨x, hx, hstep⟩ := hdb.execution_row hmatched h hc hx'
    exact (hshows x hx).kept hstep hsame

end

/-- The contract of an owned report is stored and consumed, and its job is the one named. -/
theorem Reports.contract_stored {issuer : Issuer} {request : HttpRequest} {jobId : String}
    {body : ControlRequest} {r : Report} {db : Db} {o : OwnedReport}
    (h : Reports issuer request jobId body r db o) :
    db.contracts.get? o.contract.id = some o.contract ∧ o.contract.jobId = jobId :=
  contractOf_stored h.contract

section
variable {issuer : Issuer} {request : HttpRequest} {jobId : String} {body : ControlRequest}
  {r : Report} {db db' : Db} {o : OwnedReport}

/-- A retained result shows the execution that it was submitted for. -/
theorem Reports.shows_retained {clocks : Clocks} {a : Results.Artifact} {db₁ : Db}
    {row : ManagedResult} (h : Reports issuer request jobId body r db o)
    (hrow : Results.Retains clocks r a db db₁ o row) :
    ∃ c, db.contracts.get? (Keyed.key row) = some c ∧ c.consumed = true ∧ row.Names c ∧
      ∀ x, db.executions.get? c.jobId = some x → row.Shows c x := by
  obtain ⟨hcontract, hjob⟩ := h.contract_stored
  obtain ⟨⟨upload, caseSha256, receiptSha256, retained, rfl, hreceipt⟩, -, -⟩ := hrow
  have hid : o.job.id = jobId := Table.key_of_get? h.job
  refine ⟨o.contract, hcontract, h.consumed, {
    jobId := hid.trans hjob.symm
    attemptId := (congrArg AttemptRef.attemptId h.ref).symm
    fence := (congrArg AttemptRef.fence h.ref).symm
    digest := h.digest }, fun x hx => ?_⟩
  rw [hjob, h.execution] at hx
  obtain rfl := Option.some.inj hx
  exact ⟨hreceipt, nofun⟩

/-- A concluded result shows the execution that it ended. -/
theorem Endings.shows_concluded (hdb : Endings db) {row row' : ManagedResult} {outcome : Outcome}
    {finishedAt : Option Instant} (h : Reports issuer request jobId body r db o)
    (hrow : db.results.get? o.contract.id = some row)
    (hrow' : row' = { row with outcome := some outcome, finishedAt })
    (hcontracts : db'.contracts = db.contracts)
    (hexecutions : db'.executions = db.executions.put (o.execution.finish outcome)) :
    ∃ c, db'.contracts.get? (Keyed.key row') = some c ∧ c.consumed = true ∧ row'.Names c ∧
      ∀ x, db'.executions.get? c.jobId = some x → row'.Shows c x := by
  obtain ⟨hcontract, hjob⟩ := h.contract_stored
  obtain ⟨c, hc, hconsumed, hnames, hshows⟩ := hdb.result _ row hrow
  obtain rfl := Option.some.inj (hcontract.symm.trans hc)
  have hid : row.contractId = o.contract.id := Table.key_of_get? hrow
  subst hrow'
  change ∃ c, db'.contracts.get? row.contractId = some c ∧ _
  refine ⟨o.contract, by rwa [hcontracts, hid], hconsumed,
    ⟨hnames.jobId, hnames.attemptId, hnames.fence, hnames.digest⟩, fun x hx => ?_⟩
  have hkey : db.executions.get? (Keyed.key (o.execution.finish outcome)) = some o.execution :=
    stored_key h.execution rfl
  have hid' : o.execution.jobId = jobId := Table.key_of_get? h.execution
  have hx' : Keyed.key (o.execution.finish outcome) = o.contract.jobId := hid'.trans hjob.symm
  rw [hexecutions, ← hx', Table.get?_put_self hkey] at hx
  obtain rfl := Option.some.inj hx
  refine ⟨(hshows o.execution (hjob ▸ h.execution)).receipt, fun o' ho' => ?_⟩
  obtain rfl := Option.some.inj ho'
  rfl

/-- A retained stop shows the execution that it ended. -/
theorem Reports.shows_ended {clocks : Clocks} {cause : String} {db₁ : Db} {row : ManagedStop}
    (h : Reports issuer request jobId body r db o) (hcause : Stops.causes.contains cause = true)
    (hrow : Stops.Ends clocks r cause db db₁ o row) (hcontracts : db'.contracts = db.contracts)
    (hexecutions : db'.executions =
      db.executions.put (o.execution.finish (Stops.outcomeOf cause))) :
    ∃ c, db'.contracts.get? (Keyed.key row) = some c ∧ c.consumed = true ∧ row.Names c ∧
      ∀ x, db'.executions.get? c.jobId = some x → row.Shows c x := by
  obtain ⟨hcontract, hjob⟩ := h.contract_stored
  obtain ⟨receiptSha256, finishedAt, rfl, hreceipt⟩ := hrow.row_eq
  have hid : o.job.id = jobId := Table.key_of_get? h.job
  refine ⟨o.contract, by rwa [hcontracts], h.consumed, {
    jobId := hid.trans hjob.symm
    attemptId := (congrArg AttemptRef.attemptId h.ref).symm
    fence := (congrArg AttemptRef.fence h.ref).symm
    digest := h.digest
    cause := hcause
    outcome := rfl }, fun x hx => ?_⟩
  have hkey : db.executions.get? (Keyed.key (o.execution.finish (Stops.outcomeOf cause))) =
    some o.execution := stored_key h.execution rfl
  have hid' : o.execution.jobId = jobId := Table.key_of_get? h.execution
  have hx' : Keyed.key (o.execution.finish (Stops.outcomeOf cause)) = o.contract.jobId :=
    hid'.trans hjob.symm
  rw [hexecutions, ← hx', Table.get?_put_self hkey] at hx
  obtain rfl := Option.some.inj hx
  exact ⟨hreceipt, rfl⟩

end

theorem Endings.step {db db' : Db} {es : List Event} (hknown : Known db) (hmatched : Matched db)
    (hdb : Endings db) (h : Change rt db es db') : Endings db' where
  required := fun k j' hj' hbound => by
    rcases h.job_row hj' with ⟨hqueued, -, -⟩ | ⟨j, hj, hstep⟩
    · exact absurd hqueued.approval hbound
    · cases hstep with
      | progress => exact hdb.required k j hj hbound
      | started => exact hdb.required k j hj hbound
      | bound => rfl
  running := fun k j' hj' hrequired hrunning => by
    rcases h.job_row hj' with ⟨hqueued, -, -⟩ | ⟨j, hj, hstep⟩
    · rw [hqueued.status] at hrunning
      cases hrunning
    · cases hstep with
      | progress status completedAt errorMessage assessment running =>
        obtain ⟨x, hx⟩ := hdb.running k j hj hrequired (running hrunning)
        rcases h.execution hmatched hx with ⟨hnone, -⟩ | ⟨x', hx', -⟩
        · rw [hnone] at hj'
          cases hj'
        · exact ⟨x', hx'⟩
      | started pending startedAt caseSnapshot claim =>
        obtain rfl : j.id = k := Table.key_of_get? hj
        refine claim.resolve_left fun hunmanaged => ?_
        exact absurd hrequired (by simp [required_of_managed_false hunmanaged])
      | bound pending =>
        exact absurd (pending.symm.trans hrunning) nofun
  started := fun k j' x' hj' hx' hrequired => by
    rcases h.execution_row hmatched hx' with ⟨hnone, j₀, hnew⟩ | ⟨x, hx, -⟩
    · rcases hnew.claim with hunmanaged | hcontract
      · have hid : x'.jobId = k := Table.key_of_get? hx'
        have hj₀ := hnew.job
        rw [hid] at hj₀
        obtain ⟨j, hj, hstep⟩ := h.job_of_known (hknown.job hj₀).1 hj'
        obtain rfl := Option.some.inj (hj₀.symm.trans hj)
        have hfree := required_of_managed_false hunmanaged
        cases hstep with
        | progress => exact absurd hrequired (by simp [hfree])
        | started => exact absurd hrequired (by simp [hfree])
        | bound pending a fresh stored names executions =>
          rw [executions, hnone] at hx'
          cases hx'
      · obtain ⟨i, c, hc, hjob⟩ := hcontract
        exact ⟨i, c, hc, hjob.trans (Table.key_of_get? hx')⟩
    · obtain ⟨j₀, hj₀, hfits⟩ := hmatched k x hx
      obtain ⟨j, hj, hstep⟩ := h.job_of_known (hknown.job hj₀).1 hj'
      obtain rfl := Option.some.inj (hj₀.symm.trans hj)
      have hcontract : j₀.authorizationContractRequired = true →
          ∃ i c, db'.contracts.get? i = some c ∧ c.jobId = k := fun hrequired => by
        obtain ⟨i, c, hc, hjob⟩ := hdb.started k j₀ x hj₀ hx hrequired
        obtain ⟨c', hc', hsame⟩ := h.contract hc
        refine ⟨i, c', hc', ?_⟩
        rcases hsame with rfl | rfl <;> exact hjob
      cases hstep with
      | progress => exact hcontract hrequired
      | started => exact hcontract hrequired
      | bound pending =>
        rw [hmatched.pending hj₀ pending] at hx
        cases hx
  contract := fun k c' hc' => by
    rcases h.contract_row hc' with ⟨-, a, hnew⟩ | ⟨c, hc, hsame⟩
    · obtain ⟨j₀, hj₀, -, hbound⟩ := hnew.job
      have hid := (hknown.job hj₀).1
      refine ⟨h.ids_subset hid, fun j' hj' => ?_⟩
      obtain ⟨j, hj, hstep⟩ := h.job_of_known hid hj'
      obtain rfl := Option.some.inj (hj₀.symm.trans hj)
      exact ⟨hstep.required (hdb.required _ j₀ hj₀ (by rw [hbound]; nofun)), hnew.execution⟩
    · have hjob : c'.jobId = c.jobId := by rcases hsame with rfl | rfl <;> rfl
      obtain ⟨hid, hmarked⟩ := hdb.contract k c hc
      rw [hjob]
      refine ⟨h.ids_subset hid, fun j' hj' => ?_⟩
      obtain ⟨j, hj, hstep⟩ := h.job_of_known hid hj'
      obtain ⟨hrequired, x, hx⟩ := hmarked j hj
      refine ⟨hstep.required hrequired, ?_⟩
      rcases h.execution hmatched hx with ⟨hnone, -⟩ | ⟨x', hx', -⟩
      · rw [hnone] at hj'
        cases hj'
      · exact ⟨x', hx'⟩
  result := fun k r' hr' => by
    have hkept := fun hr => hdb.result_kept (k := k) (r := r') hmatched h hr
    cases h with
    | retained reports inserted retains =>
      rcases Table.of_get?_insert inserted hr' with ⟨rfl, rfl⟩ | hr
      · exact reports.shows_retained retains
      · exact hkept hr
    | concluded reports stored concludes =>
      rcases Table.of_get?_put (concluded_key stored _ _) hr' with ⟨rfl, rfl⟩ | ⟨-, hr⟩
      · exact hdb.shows_concluded reports stored rfl rfl rfl
      · exact hkept hr
    | _ => exact hkept hr'
  stop := fun k s' hs' => by
    have hkept := fun hs => hdb.stop_kept (k := k) (s := s') hmatched h hs
    cases h with
    | ended reports known inserted ends =>
      rcases Table.of_get?_insert inserted hs' with ⟨rfl, rfl⟩ | hs
      · exact reports.shows_ended known ends rfl rfl
      · exact hkept hs
    | _ => exact hkept hs'
  exclusive := fun k r' s' hr' hs' => by
    cases h with
    | retained reports inserted retains =>
      rcases Table.of_get?_insert inserted hr' with ⟨rfl, rfl⟩ | hr
      · obtain ⟨⟨upload, caseSha256, receiptSha256, retained, rfl, -⟩, -, -⟩ := retains
        rfl
      · exact hdb.exclusive k r' s' hr hs'
    | concluded reports stored concludes =>
      rcases Table.of_get?_put (concluded_key stored _ _) hr' with ⟨rfl, rfl⟩ | ⟨-, hr⟩
      · -- a stop shows an execution that ended, and this one was open
        obtain ⟨c, hc, -, -, hshows⟩ := hdb.stop _ s' hs'
        obtain ⟨hcontract, hjob⟩ := reports.contract_stored
        have hid : _ = _ := Table.key_of_get? stored
        obtain rfl := Option.some.inj (hc.symm.trans (hid ▸ hcontract))
        have hstate := (hshows _ (hjob ▸ reports.execution)).state
        have hopened := concludes.opened
        rw [hstate, Outcome.state_final] at hopened
        cases hopened
      · exact hdb.exclusive k r' s' hr hs'
    | ended reports known inserted ends =>
      rcases Table.of_get?_insert inserted hs' with ⟨rfl, rfl⟩ | hs
      · obtain ⟨receiptSha256, finishedAt, hrow, -⟩ := ends.row_eq
        rw [hrow] at hr'
        exact absurd (ends.resultless.symm.trans hr') nofun
      · exact hdb.exclusive k r' s' hr' hs
    | _ => exact hdb.exclusive k r' s' hr' hs'

/-! ## Sound databases -/

/-- The facts that every reachable database has. -/
structure Sound (db : Db) : Prop where
  known : Known db
  matched : Matched db
  issuance : Issuance db
  endings : Endings db

omit [Unicode] in
theorem Sound.empty : Sound .empty := ⟨.empty, .empty, .empty, .empty⟩

theorem Sound.step {db db' : Db} {es : List Event} (hdb : Sound db) (h : Change rt db es db') :
    Sound db' where
  known := hdb.known.step h
  matched := hdb.matched.step h
  issuance := hdb.issuance.step h
  endings := hdb.endings.step hdb.known hdb.matched h

theorem Reachable.soundness {db : Db} (h : Reachable rt db) : Sound db :=
  h.invariant Sound (fun hdb hchange => hdb.step hchange) .empty

theorem Sound.exec {db : Db} (hdb : Sound db) (op : Op) : Sound (exec rt op db).1 :=
  exec_invariant Sound (fun hdb hchange => hdb.step hchange) hdb op

theorem Sound.after {db : Db} (hdb : Sound db) (ops : List Op) : Sound (after rt ops db) :=
  after_invariant Sound (fun hdb hchange => hdb.step hchange) hdb ops

omit [Unicode] in
/-- The contract of a job is the one that is stored for it. -/
theorem Issuance.contractOf {db : Db} (hdb : Issuance db) {k : String} {c : ManagedContract}
    (hc : db.contracts.get? k = some c) : db.contractOf c.jobId = some c := by
  cases hfind : db.contractOf c.jobId with
  | none => exact absurd rfl (jobId_ne_of_contractOf hfind hc)
  | some c' =>
    obtain ⟨hc', hjob⟩ := contractOf_stored hfind
    have hid := hdb.one _ _ _ _ hc' hc hjob
    rw [hid, hc] at hc'
    rw [Option.some.inj hc']

end VardrMap
