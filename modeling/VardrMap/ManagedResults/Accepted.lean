import VardrMap.ManagedIssuance.Accepted
import VardrMap.Jobs.Accepted

/-!
# What the results and stops accepted

The inversions of the operations on a consumed contract: the rows that an accepted report
read, and the database that it committed.
-/
namespace VardrMap
open Lib Policy Wire

variable [Unicode]

/-- What an owned report rests on. -/
structure Reports (issuer : Issuer) (request : HttpRequest) (jobId : String)
    (body : ControlRequest) (r : Report) (db : Db) (o : OwnedReport) : Prop where
  caller : getCurrentUser issuer.identity db request = .ok o.user
  execution : db.executions.get? jobId = some o.execution
  owns : Owns request body o.user o.execution
  job : db.jobs.get? jobId = some o.job
  contract : db.contractOf jobId = some o.contract
  toolType : o.job.toolType = gateTool
  contractRequired : o.job.authorizationContractRequired = true
  consumed : o.contract.consumed = true
  ref : o.contract.ref = r.toAttemptRef
  digest : Wire.digest o.contract.envelope = .ok r.contractSha256
  approval : db.approvals.get? o.contract.approvalRecordId = some o.approval
  current : o.job.managedApprovalId = some o.approval.id
  approval_job : o.approval.jobId = o.job.id

namespace Results

theorem ownedReport_eq_ok {issuer : Issuer} {request : HttpRequest} {jobId : String}
    {body : ControlRequest} {r : Report} {db : Db} {o : OwnedReport}
    (h : ownedReport issuer request jobId body r db = .ok o) :
    Reports issuer request jobId body r db o := by
  unfold ownedReport at h
  obtain ⟨n, -, h⟩ := bind_eq_ok h
  obtain ⟨user, huser, h⟩ := bind_eq_ok h
  obtain ⟨execution, howned, h⟩ := bind_eq_ok h
  obtain ⟨job, hjob, h⟩ := bind_eq_ok h
  obtain ⟨e, -, h⟩ := bind_eq_ok h
  obtain ⟨contract, hcontract, h⟩ := bind_eq_ok h
  obtain ⟨hash, hhash, h⟩ := bind_eq_ok h
  obtain ⟨_, hsame, h⟩ := bind_eq_ok h
  obtain ⟨approval, happroval, h⟩ := bind_eq_ok h
  obtain ⟨_, hcurrent, h⟩ := bind_eq_ok h
  obtain rfl := Except.ok.inj h
  have hcontract := Option.filter_eq_some_iff.mp (found_eq_ok hcontract)
  have hcurrent := require_eq_ok hcurrent
  have hsame := require_eq_ok hsame
  simp only [Bool.and_eq_true, beq_iff_eq] at hcontract hcurrent hsame
  exact {
    caller := huser
    execution := (owned_eq_ok howned).1
    owns := owned_owns howned
    job := found_eq_ok hjob
    contract := hcontract.1
    toolType := hcontract.2.1.1.1.1
    contractRequired := hcontract.2.1.1.1.2
    consumed := hcontract.2.1.2
    ref := hcontract.2.2
    digest := hsame ▸ hhash
    approval := found_eq_ok happroval
    current := hcurrent.1
    approval_job := hcurrent.2 }

omit [Unicode] in
theorem retainedResult_eq_ok {db : Db} {o : OwnedReport} {contractSha256 : String}
    {row : Option ManagedResult} (h : retainedResult db o contractSha256 = .ok row) :
    db.results.get? o.contract.id = row := by
  unfold retainedResult at h
  split at h
  · rename_i hnone
    rw [hnone, ← Except.ok.inj h]
  · rename_i r hr
    obtain ⟨hash, -, h⟩ := bind_eq_ok h
    obtain ⟨_, -, h⟩ := bind_eq_ok h
    rw [hr, ← Except.ok.inj h]

/-! ## Submissions -/

/-- The result that a first submission retains. -/
structure Retains (clocks : Clocks) (r : Report) (a : Artifact) (db db' : Db) (o : OwnedReport)
    (row : ManagedResult) : Prop where
  row_eq : ∃ upload caseSha256 receiptSha256 retained,
    row = resultRow o r a upload caseSha256 receiptSha256 retained ∧
    receiptHash (binding o.execution o.contract r.contractSha256) a.sha256 caseSha256 =
      .ok receiptSha256
  first : db.results.get? o.contract.id = none
  filed : ∃ receipt, receipt.jobId = o.job.id ∧ db.receipts.insert receipt = some db'.receipts
  committed : ∃ assessment receipts results locked, db.results.insert row = some results ∧
    clocks.now 1 = .ok locked ∧ db.observed.any (· ≤ locked.instant) ∧ db' = { db with
      receipts, results
      jobs := db.jobs.put { o.job with assessment }
      observed := some locked.instant }

theorem submit_eq_ok {issuer : Issuer} {p : Platform} {clocks : Clocks} {request : HttpRequest}
    {jobId : String} {body : ControlRequest} {r : Report} {a : Artifact} {db db' : Db}
    {reply : Reply} (h : submit issuer p clocks request jobId body r a db = .ok (db', reply)) :
    ∃ o, Reports issuer request jobId body r db o ∧
      (db' = db ∨ ∃ row, Retains clocks r a db db' o row) := by
  unfold submit at h
  obtain ⟨o, ho, h⟩ := bind_eq_ok h
  have ho := ownedReport_eq_ok ho
  obtain ⟨⟨upload, caseSha256⟩, -, h⟩ := bind_eq_ok h
  dsimp only at h
  obtain ⟨row?, hrow, h⟩ := bind_eq_ok h
  have hrow := retainedResult_eq_ok hrow
  refine ⟨o, ho, ?_⟩
  split at h
  · obtain ⟨_, -, h⟩ := bind_eq_ok h
    obtain ⟨rfl, -⟩ := Prod.mk.inj (Except.ok.inj h)
    exact .inl rfl
  · obtain ⟨_, hnone, h⟩ := bind_eq_ok h
    obtain ⟨⟨db₁, retained⟩, hstore, h⟩ := bind_eq_ok h
    dsimp only at h
    obtain ⟨receiptSha256, hreceipt, h⟩ := bind_eq_ok h
    obtain ⟨results, hresults, h⟩ := bind_eq_ok h
    obtain ⟨db₂, hlocked, h⟩ := bind_eq_ok h
    obtain ⟨rfl, -⟩ := Prod.mk.inj (Except.ok.inj h)
    obtain ⟨t, ht, hle, rfl⟩ := lockedTime_eq_ok hlocked
    have hid : o.job.id = jobId := Table.key_of_get? ho.job
    have hnone := require_eq_ok hnone
    rcases storeGateResult_eq_ok hstore with
      ⟨-, receipt, hr⟩ | ⟨assessment, receipt, receipts, hjob, hinsert, rfl⟩
    · simp [← hid, hr] at hnone
    · exact .inr ⟨_, ⟨upload, caseSha256, receiptSha256, retained, rfl, hreceipt⟩, hrow,
        ⟨receipt, hjob, hinsert⟩, assessment, receipts, results, t, found_eq_ok hresults, ht, hle,
        rfl⟩

/-! ## Finalizations -/

/-- A completion whose permission and lease are live at two readings of the clock. -/
structure LiveBounds (issuer : Issuer) (clocks : Clocks) (i j : ℕ) (o : OwnedReport)
    (a : ManagedApproval) (permission : Json) : Prop where
  bounds : ∃ t ends allocation, clocks.now i = .ok t ∧
    Issuer.permissionEnds permission = .ok ends ∧
    Issuer.allocationEnd o.job o.execution permission = .ok allocation ∧
    Issuer.latest t (clocks.control j) < o.execution.expiresAt ∧
    Issuer.latest t (clocks.control j) < ends.foldl min allocation
  approved : ApprovedAt issuer clocks a permission (i + 1)

theorem completionLive_eq_ok {issuer : Issuer} {clocks : Clocks} {i j : ℕ} {o : OwnedReport}
    {a : ManagedApproval} {permission : Json} {stateOk : Bool} {u : Unit}
    (h : completionLive issuer clocks i j o a permission stateOk = .ok u) :
    stateOk = true ∧ LiveBounds issuer clocks i j o a permission := by
  unfold completionLive at h
  obtain ⟨t, ht, h⟩ := bind_eq_ok h
  dsimp only at h
  obtain ⟨ends, hends, h⟩ := bind_eq_ok h
  obtain ⟨allocation, hallocation, h⟩ := bind_eq_ok h
  obtain ⟨_, hlive, h⟩ := bind_eq_ok h
  obtain ⟨s, hs, h⟩ := bind_eq_ok h
  obtain ⟨payload, hpayload, -⟩ := bind_eq_ok h
  have hlive := require_eq_ok hlive
  simp only [Bool.and_eq_true, decide_eq_true_eq] at hlive
  exact ⟨hlive.1.1, ⟨t, ends, allocation, ht, hends, hallocation, hlive.1.2, hlive.2⟩,
    s, payload, hs, hpayload⟩

omit [Unicode] in
theorem conclude_eq_ok {clocks : Clocks} {i : ℕ} {db db' : Db} {o : OwnedReport}
    {row row' : ManagedResult} {outcome : Outcome}
    (h : conclude clocks i db o row outcome = .ok (db', row')) :
    ∃ finishedAt : Instant,
      row' = { row with outcome := some outcome, finishedAt := some finishedAt } ∧
      db' = { db with
        results := db.results.put row'
        executions := db.executions.put (o.execution.finish outcome)
        jobs := db.jobs.put (o.job.finish outcome finishedAt outcome.errorMessage) } := by
  unfold conclude at h
  obtain ⟨t, -, h⟩ := bind_eq_ok h
  obtain ⟨rfl, rfl⟩ := Prod.mk.inj (Except.ok.inj h)
  exact ⟨t.instant, rfl, rfl⟩

/-- The live permission that a completion rests on, checked before and after its writes. -/
structure Completes (issuer : Issuer) (clocks : Clocks) (request : HttpRequest)
    (body : ControlRequest) (db : Db) (o : OwnedReport) (a : ManagedApproval)
    (permission : Json) : Prop where
  permitted : ∃ result row p raw f, Permitted issuer db request o.job body.toClaimControl
    [.running] a result row p raw f ∧ permission = result.field "context"
  active : o.execution.state = .active
  approved : ApprovedAt issuer clocks a permission 1
  before : LiveBounds issuer clocks 2 0 o a permission
  after : LiveBounds issuer clocks 6 1 o a permission

/-- What a finalization with a retained result wrote; `locked` is its reading of the clock
under the number `i`. -/
structure Concludes (issuer : Issuer) (clocks : Clocks) (request : HttpRequest)
    (body : ControlRequest) (outcome : Outcome) (db db' : Db) (o : OwnedReport)
    (row : ManagedResult) (i : ℕ) (locked : DateTime) : Prop where
  pending : row.outcome = none
  opened : o.execution.state.final = false
  reserved : o.execution.capacityReserved = true
  read_locked : clocks.now i = .ok locked
  advanced : db.observed.any (· ≤ locked.instant)
  committed : ∃ finishedAt : Instant, db' = { db with
    results := db.results.put { row with outcome := some outcome, finishedAt := some finishedAt }
    executions := db.executions.put (o.execution.finish outcome)
    jobs := db.jobs.put (o.job.finish outcome finishedAt outcome.errorMessage)
    observed := some locked.instant }
  completes : outcome = .completed →
    i = 5 ∧ ∃ a permission, Completes issuer clocks request body db o a permission

/-- A reply is the receipt of a finished result. -/
def Completed (o : OwnedReport) (contractSha256 : String) (row : ManagedResult)
    (x : JobExecution) (reply : Reply) : Prop :=
  ∃ document, completion (binding o.execution o.contract contractSha256) row x = .ok document ∧
    reply = .document document

theorem finish_eq_ok {issuer : Issuer} {clocks : Clocks} {request : HttpRequest}
    {jobId : String} {body : ControlRequest} {r : Report} {receiptSha256 : String}
    {outcome : Outcome} {db db' : Db} {reply : Reply}
    (h : finish issuer clocks request jobId body r receiptSha256 outcome db = .ok (db', reply)) :
    ∃ o row, Reports issuer request jobId body r db o ∧
      db.results.get? o.contract.id = some row ∧ row.receiptSha256 = receiptSha256 ∧
      ((row.outcome = some outcome ∧ db' = db ∧
        Completed o r.contractSha256 row o.execution reply) ∨
        (∃ i locked, Concludes issuer clocks request body outcome db db' o row i locked) ∧
          Completed o r.contractSha256 { row with outcome := some outcome }
            (o.execution.finish outcome) reply) := by
  unfold finish at h
  obtain ⟨o, ho, h⟩ := bind_eq_ok h
  have ho := ownedReport_eq_ok ho
  obtain ⟨row?, hrow?, h⟩ := bind_eq_ok h
  obtain ⟨row, hrow, h⟩ := bind_eq_ok h
  dsimp only at h
  have hrow := Option.filter_eq_some_iff.mp (found_eq_ok hrow)
  have hget := retainedResult_eq_ok hrow?
  rw [hrow.1] at hget
  refine ⟨o, row, ho, hget, by simpa using hrow.2, ?_⟩
  split at h
  · rename_i given hgiven
    obtain ⟨_, hsame, h⟩ := bind_eq_ok h
    obtain ⟨document, hdocument, h⟩ := bind_eq_ok h
    obtain ⟨rfl, rfl⟩ := Prod.mk.inj (Except.ok.inj h)
    have hsame : given = outcome := by simpa using require_eq_ok hsame
    exact .inl ⟨hsame ▸ hgiven, rfl, document, hdocument, rfl⟩
  · rename_i hnone
    obtain ⟨_, hopen, h⟩ := bind_eq_ok h
    obtain ⟨_, hreserved, h⟩ := bind_eq_ok h
    have hopen : o.execution.state.final = false := by simpa using require_eq_ok hopen
    have hreserved := require_eq_ok hreserved
    split at h
    · rename_i hcompleted
      obtain ⟨_, -, h⟩ := bind_eq_ok h
      obtain ⟨⟨a, result⟩, hpermission, h⟩ := bind_eq_ok h
      dsimp only at h
      have hid : o.job.id = jobId := Table.key_of_get? ho.job
      obtain ⟨⟨erow, p, raw, f, hpermitted⟩, t₁, payload₁, ht₁, hpayload₁⟩ :=
        claimPermission_eq_ok (hid ▸ ho.job) hpermission
      obtain ⟨_, hbefore, h⟩ := bind_eq_ok h
      obtain ⟨hactive, hbefore⟩ := completionLive_eq_ok hbefore
      obtain ⟨⟨db₁, row₁⟩, hconclude, h⟩ := bind_eq_ok h
      obtain ⟨finishedAt, rfl, rfl⟩ := conclude_eq_ok hconclude
      dsimp only at h
      obtain ⟨db₂, hlocked, h⟩ := bind_eq_ok h
      obtain ⟨t₅, ht₅, hle₅, rfl⟩ := lockedTime_eq_ok hlocked
      obtain ⟨_, hafter, h⟩ := bind_eq_ok h
      obtain ⟨document, hdocument, h⟩ := bind_eq_ok h
      obtain ⟨rfl, rfl⟩ := Prod.mk.inj (Except.ok.inj h)
      refine .inr ⟨⟨5, t₅, ?_⟩, document, hdocument, rfl⟩
      exact {
        pending := hnone
        opened := hopen
        reserved := hreserved
        read_locked := ht₅
        advanced := hle₅
        committed := ⟨finishedAt, rfl⟩
        completes := fun _ => ⟨rfl, a, result.field "context", {
          permitted := ⟨result, erow, p, raw, f, hpermitted, rfl⟩
          active := by simpa using hactive
          approved := ⟨t₁, payload₁, ht₁, hpayload₁⟩
          before := hbefore
          after := (completionLive_eq_ok hafter).2 }⟩ }
    · rename_i hcompleted
      obtain ⟨⟨db₁, row₁⟩, hconclude, h⟩ := bind_eq_ok h
      dsimp only at h
      obtain ⟨db₂, hlocked, h⟩ := bind_eq_ok h
      obtain ⟨t₂, ht₂, hle₂, rfl⟩ := lockedTime_eq_ok hlocked
      obtain ⟨document, hdocument, h⟩ := bind_eq_ok h
      obtain ⟨rfl, rfl⟩ := Prod.mk.inj (Except.ok.inj h)
      obtain ⟨finishedAt, rfl, rfl⟩ := conclude_eq_ok hconclude
      refine .inr ⟨⟨2, t₂, ?_⟩, document, hdocument, rfl⟩
      exact {
        pending := hnone
        opened := hopen
        reserved := hreserved
        read_locked := ht₂
        advanced := hle₂
        committed := ⟨finishedAt, rfl⟩
        completes := fun hc => by simp [hc] at hcompleted }

theorem inspect_eq_ok {issuer : Issuer} {request : HttpRequest} {jobId : String}
    {body : ControlRequest} {r : Report} {db db' : Db} {reply : Reply}
    (h : inspect issuer request jobId body r db = .ok (db', reply)) : db' = db := by
  unfold inspect at h
  obtain ⟨o, -, h⟩ := bind_eq_ok h
  obtain ⟨row, -, h⟩ := bind_eq_ok h
  obtain ⟨finished, -, h⟩ := bind_eq_ok h
  exact (Prod.mk.inj (Except.ok.inj h)).1.symm

end Results

/-! ## Stops -/

namespace Stops

omit [Unicode] in
theorem retainedStop_eq_ok {db : Db} {o : OwnedReport} {contractSha256 : String}
    {row : Option ManagedStop} (h : retainedStop db o contractSha256 = .ok row) :
    db.stops.get? o.contract.id = row := by
  unfold retainedStop at h
  split at h
  · rename_i hnone
    rw [hnone, ← Except.ok.inj h]
  · rename_i r hr
    obtain ⟨hash, -, h⟩ := bind_eq_ok h
    obtain ⟨_, -, h⟩ := bind_eq_ok h
    rw [hr, ← Except.ok.inj h]

/-- What a first stop wrote. -/
structure Ends (clocks : Clocks) (r : Report) (cause : String) (db db' : Db) (o : OwnedReport)
    (row : ManagedStop) : Prop where
  first : db.stops.get? o.contract.id = none
  resultless : db.results.get? o.contract.id = none
  opened : o.execution.state.final = false
  reserved : o.execution.capacityReserved = true
  row_eq : ∃ receiptSha256 finishedAt, row = {
    contractId := o.contract.id, jobId := o.job.id, attemptId := r.attemptId, fence := r.fence
    contractSha256 := r.contractSha256, outcome := outcomeOf cause, cause, receiptSha256
    finishedAt } ∧
    stopHash (Results.binding o.execution o.contract r.contractSha256) (outcomeOf cause) cause =
      .ok receiptSha256
  committed : ∃ stops locked, db.stops.insert row = some stops ∧ clocks.now 2 = .ok locked ∧
    db.observed.any (· ≤ locked.instant) ∧ db' = { db with
      stops
      executions := db.executions.put (o.execution.finish (outcomeOf cause))
      jobs := db.jobs.put { o.job with
        status := .failed, completedAt := some row.finishedAt, errorMessage := cause }
      observed := some locked.instant }

/-- A reply is the receipt of a stop. -/
def Stopped (o : OwnedReport) (contractSha256 : String) (row : ManagedStop) (x : JobExecution)
    (reply : Reply) : Prop :=
  ∃ document, ack (Results.binding o.execution o.contract contractSha256) row x = .ok document ∧
    reply = .document document

theorem report_eq_ok {issuer : Issuer} {clocks : Clocks} {request : HttpRequest}
    {jobId : String} {body : ControlRequest} {r : Report} {cause : String} {db db' : Db}
    {reply : Reply} (h : report issuer clocks request jobId body r cause db = .ok (db', reply)) :
    ∃ o, Reports issuer request jobId body r db o ∧
      ((db' = db ∧ ∃ row, db.stops.get? o.contract.id = some row ∧ row.cause = cause ∧
        Stopped o r.contractSha256 row o.execution reply) ∨
        ∃ row, Ends clocks r cause db db' o row ∧
          Stopped o r.contractSha256 row (o.execution.finish (outcomeOf cause)) reply) := by
  unfold report at h
  obtain ⟨o, ho, h⟩ := bind_eq_ok h
  have ho := Results.ownedReport_eq_ok ho
  dsimp only at h
  obtain ⟨row?, hrow, h⟩ := bind_eq_ok h
  have hrow := retainedStop_eq_ok hrow
  refine ⟨o, ho, ?_⟩
  split at h
  · rename_i row _
    obtain ⟨_, hsame, h⟩ := bind_eq_ok h
    obtain ⟨document, hdocument, h⟩ := bind_eq_ok h
    obtain ⟨rfl, rfl⟩ := Prod.mk.inj (Except.ok.inj h)
    have hsame := require_eq_ok hsame
    simp only [Bool.and_eq_true, beq_iff_eq] at hsame
    exact .inl ⟨rfl, row, hrow, hsame.2, document, hdocument, rfl⟩
  · obtain ⟨result?, hresult, h⟩ := bind_eq_ok h
    have hresult := Results.retainedResult_eq_ok hresult
    obtain ⟨_, hnone, h⟩ := bind_eq_ok h
    obtain ⟨_, hopen, h⟩ := bind_eq_ok h
    obtain ⟨receiptSha256, hreceipt, h⟩ := bind_eq_ok h
    obtain ⟨t₁, -, h⟩ := bind_eq_ok h
    obtain ⟨stops, hstops, h⟩ := bind_eq_ok h
    obtain ⟨db₂, hlocked, h⟩ := bind_eq_ok h
    obtain ⟨t₂, ht₂, hle₂, rfl⟩ := lockedTime_eq_ok hlocked
    obtain ⟨document, hdocument, h⟩ := bind_eq_ok h
    obtain ⟨rfl, rfl⟩ := Prod.mk.inj (Except.ok.inj h)
    have hid : o.job.id = jobId := Table.key_of_get? ho.job
    have hopen := require_eq_ok hopen
    simp only [Bool.and_eq_true, Bool.not_eq_true'] at hopen
    rw [← hid] at hstops hdocument
    refine .inr ⟨_, ?_, document, hdocument, rfl⟩
    exact {
      first := hrow
      resultless := by
        have := require_eq_ok hnone
        rw [hresult]
        simpa using this
      opened := hopen.1
      reserved := hopen.2
      row_eq := ⟨receiptSha256, t₁.instant, rfl, hreceipt⟩
      committed := ⟨stops, t₂, found_eq_ok hstops, ht₂, hle₂, rfl⟩ }

theorem inspect_eq_ok {issuer : Issuer} {request : HttpRequest} {jobId : String}
    {body : ControlRequest} {r : Report} {db db' : Db} {reply : Reply}
    (h : inspect issuer request jobId body r db = .ok (db', reply)) : db' = db := by
  unfold inspect at h
  obtain ⟨o, -, h⟩ := bind_eq_ok h
  obtain ⟨row, -, h⟩ := bind_eq_ok h
  obtain ⟨stop, -, h⟩ := bind_eq_ok h
  exact (Prod.mk.inj (Except.ok.inj h)).1.symm

end Stops

theorem Observations.inspect_eq_ok {issuer : Issuer} {request : HttpRequest} {jobId : String}
    {body : ClaimControl} {f : Observations.Fingerprints} {db db' : Db} {reply : Reply}
    (h : Observations.inspect issuer request jobId body f db = .ok (db', reply)) : db' = db := by
  unfold Observations.inspect at h
  obtain ⟨o, -, h⟩ := bind_eq_ok h
  dsimp only at h
  split at h
  · obtain ⟨rest, -, h⟩ := bind_eq_ok h
    exact (Prod.mk.inj (Except.ok.inj h)).1.symm
  · obtain ⟨_, -, h⟩ := bind_eq_ok h
    exact (Prod.mk.inj (Except.ok.inj h)).1.symm

end VardrMap
