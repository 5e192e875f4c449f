import VardrMap.Changes.Endings

/-!
# Finality

Three requests end an execution: its owner ends it without a contract, or a result or a stop
ends it under its contract. What one of them ended stays ended the same way: the same request
gets the same receipt again, and every other one is refused.
-/
namespace VardrMap
open Lib

variable [Unicode] {rt : Runtime}

/-! ## Requests that end an execution -/

/-- How a request ends an execution. -/
inductive Ending where
  | owned (f : Finish)
  | result (r : Report) (receiptSha256 outcome : String) (confirmed : Bool)
  | stop (r : Report) (outcome cause : String) (confirmed : Bool)

/-- The job whose execution a request ends, and how. -/
def Op.ending? (op : Op) : Option (String × Ending) :=
  match op.call with
  | .job (.finish id _ f) => some (id, .owned f)
  | .managed (.finish id _ r receipt outcome confirmed) =>
    some (id, .result r receipt outcome confirmed)
  | .managed (.report id _ r outcome cause confirmed) => some (id, .stop r outcome cause confirmed)
  | _ => none

/-- The caller owns the execution, and the clock lets the operation in. -/
def Op.owns (op : Op) (rt : Runtime) (db : Db) : Prop :=
  match op.call with
  | .job (.finish id body _) => ∃ user x j e,
    getCurrentUser rt.identity db op.request = .ok user ∧
      owned db id user op.request body = .ok x ∧ db.jobs.get? id = some j ∧
      writableEngagement db j.programId user = .ok e
  | .managed (.finish id body r _ _ _) | .managed (.report id body r _ _ _) => ∃ text db' o,
    Wire.stamp op.clocks.anchor = .ok text ∧ observe op.clocks 0 db = .ok db' ∧
      Results.ownedReport rt.issuer op.request id body r db' = .ok o
  | _ => False

/-- The execution of a job ended this way, with this receipt. -/
def Ending.Holds (E : Ending) (db : Db) (k : String) (reply : Reply) : Prop :=
  match E with
  | owned f => ∃ x j, db.executions.get? k = some x ∧ db.jobs.get? k = some j ∧
    j.managed = false ∧ x.state.final = true ∧ x.state = f.state ∧ reply = .finalized x.state
  | result r receipt outcome confirmed => ∃ x c row o, db.executions.get? k = some x ∧
    db.contracts.get? c.id = some c ∧ c.jobId = k ∧ c.ref = r.toAttemptRef ∧
    Wire.digest c.envelope = .ok r.contractSha256 ∧
    Results.finishArguments outcome confirmed = .ok o ∧ db.results.get? c.id = some row ∧
    row.receiptSha256 = receipt ∧ row.outcome = some o ∧
    ∃ document, Results.completion (Results.binding x c r.contractSha256) row x = .ok document ∧
      reply = .document document
  | stop r outcome cause confirmed => ∃ x c row, db.executions.get? k = some x ∧
    db.contracts.get? c.id = some c ∧ c.jobId = k ∧ c.ref = r.toAttemptRef ∧
    Wire.digest c.envelope = .ok r.contractSha256 ∧
    Stops.reportArguments outcome cause confirmed = .ok () ∧ db.stops.get? c.id = some row ∧
    row.cause = cause ∧
    ∃ document, Stops.ack (Results.binding x c r.contractSha256) row x = .ok document ∧
      reply = .document document

omit [Unicode] in
/-- The clock does not matter to how an execution ended. -/
theorem Ending.Holds.observed {E : Ending} {db : Db} {observed : Option Instant} {k : String}
    {reply : Reply} (h : E.Holds { db with observed } k reply) : E.Holds db k reply := by
  cases E <;> exact h

/-! ## What ended stays ended -/

/-- The job was deleted. -/
def Db.deleted (db : Db) (k : String) : Prop := k ∈ db.ids ∧ db.jobs.get? k = none

theorem Change.deleted {db db' : Db} {es : List Event} (h : Change rt db es db') {k : String}
    (hdb : db.deleted k) : db'.deleted k := by
  refine ⟨h.ids_subset hdb.1, ?_⟩
  cases hj' : db'.jobs.get? k with
  | none => rfl
  | some j' =>
    obtain ⟨j, hj, -⟩ := h.job_of_known hdb.1 hj'
    rw [hdb.2] at hj
    cases hj

/-- An execution that ended stays as it is, until its job is deleted. -/
theorem Sound.final_step {db db' : Db} {es : List Event} (hdb : Sound db)
    (h : Change rt db es db') {k : String} {x : JobExecution}
    (hx : db.executions.get? k = some x) (hfinal : x.state.final = true) :
    db'.deleted k ∨ db'.executions.get? k = some x := by
  rcases h.execution hdb.matched hx with ⟨hnone, -⟩ | ⟨x', hx', hstep⟩
  · obtain ⟨j, hj, -⟩ := hdb.matched k x hx
    exact .inl ⟨h.ids_subset (hdb.known.job hj).1, hnone⟩
  · rw [hstep.final hfinal] at hx'
    exact .inr hx'

/-- A consumed contract stays as it is. -/
theorem Change.consumed_contract {db db' : Db} {es : List Event} (h : Change rt db es db')
    {k : String} {c : ManagedContract} (hc : db.contracts.get? k = some c)
    (hconsumed : c.consumed = true) : db'.contracts.get? k = some c := by
  obtain ⟨c', hc', rfl | rfl⟩ := h.contract hc
  · exact hc'
  · rw [hc', Option.some.injEq, ← hconsumed]

omit [Unicode] in
/-- A completion is the receipt of an execution that ended as the result says. -/
theorem completion_eq_ok {binding : List (String × Json)} {row : ManagedResult} {x : JobExecution}
    {document : Json} (h : Results.completion binding row x = .ok document) :
    ∃ o, row.outcome = some o ∧ x.state = o.state ∧ x.capacityReserved = false := by
  unfold Results.completion at h
  obtain ⟨o, ho, h⟩ := bind_eq_ok h
  obtain ⟨_, hstate, h⟩ := bind_eq_ok h
  have hstate := Wire.require_eq_ok hstate
  simp only [Bool.and_eq_true, beq_iff_eq, Bool.not_eq_true'] at hstate
  exact ⟨o, found_eq_ok ho, hstate⟩

omit [Unicode] in
theorem ack_eq_ok {binding : List (String × Json)} {row : ManagedStop} {x : JobExecution}
    {document : Json} (h : Stops.ack binding row x = .ok document) :
    x.state = row.outcome.state ∧ x.capacityReserved = false := by
  unfold Stops.ack at h
  obtain ⟨_, hstate, h⟩ := bind_eq_ok h
  have hstate := Wire.require_eq_ok hstate
  simpa only [Bool.and_eq_true, beq_iff_eq, Bool.not_eq_true'] using hstate

theorem Ending.Holds.step {E : Ending} {db db' : Db} {es : List Event} {k : String}
    {reply : Reply} (hE : E.Holds db k reply) (hdb : Sound db) (h : Change rt db es db') :
    db'.deleted k ∨ E.Holds db' k reply := by
  cases E with
  | owned f =>
    obtain ⟨x, j, hx, hj, hunmanaged, hfinal, hstate, hreply⟩ := hE
    refine (hdb.final_step h hx hfinal).imp_right fun hx' => ?_
    obtain ⟨j', hj', -⟩ := (hdb.step h).matched k x hx'
    obtain ⟨j₀, hj₀, hstep⟩ := h.job_of_known (hdb.known.job hj).1 hj'
    obtain rfl := Option.some.inj (hj.symm.trans hj₀)
    refine ⟨x, j', hx', hj', ?_, hfinal, hstate, hreply⟩
    cases hstep with
    | progress => exact hunmanaged
    | started => exact hunmanaged
    | bound pending =>
      rw [hdb.matched.pending hj pending] at hx
      cases hx
  | result r receipt outcome confirmed =>
    obtain ⟨x, c, row, o, hx, hc, hjob, href, hdigest, harguments, hrow, hreceipt, houtcome,
      document, hdocument, hreply⟩ := hE
    obtain ⟨o', ho', hstate, -⟩ := completion_eq_ok hdocument
    refine (hdb.final_step h hx (by rw [hstate, Outcome.state_final])).imp_right fun hx' => ?_
    obtain ⟨c', hc', hconsumed, -⟩ := hdb.endings.result _ row hrow
    obtain rfl := Option.some.inj (hc.symm.trans hc')
    obtain ⟨row', hrow', rfl | ⟨hnone, -⟩⟩ := h.result hrow
    · exact ⟨x, c, row', o, hx', h.consumed_contract hc hconsumed, hjob, href, hdigest,
        harguments, hrow', hreceipt, houtcome, document, hdocument, hreply⟩
    · rw [hnone] at houtcome
      cases houtcome
  | stop r outcome cause confirmed =>
    obtain ⟨x, c, row, hx, hc, hjob, href, hdigest, harguments, hrow, hcause, document,
      hdocument, hreply⟩ := hE
    have hstate := (ack_eq_ok hdocument).1
    refine (hdb.final_step h hx (by rw [hstate, Outcome.state_final])).imp_right fun hx' => ?_
    obtain ⟨c', hc', hconsumed, -⟩ := hdb.endings.stop _ row hrow
    obtain rfl := Option.some.inj (hc.symm.trans hc')
    exact ⟨x, c, row, hx', h.consumed_contract hc hconsumed, hjob, href, hdigest, harguments,
      h.stop hrow, hcause, document, hdocument, hreply⟩

/-- What ended stays ended the same way, until its job is deleted. -/
theorem Ending.Holds.after {E : Ending} {db : Db} {k : String} {reply : Reply}
    (hE : E.Holds db k reply) (hdb : Sound db) (ops : List Op) :
    (after rt ops db).deleted k ∨ E.Holds (after rt ops db) k reply :=
  (after_invariant (fun db => Sound db ∧ (db.deleted k ∨ E.Holds db k reply))
    (fun hdb hchange => ⟨hdb.1.step hchange, hdb.2.elim (fun h => .inl (hchange.deleted h))
      fun h => h.step hdb.1 hchange⟩) ⟨hdb, .inr hE⟩ ops).2

/-! ## A request that ends an execution -/

omit [Unicode] in
theorem Finish.state_injective {f : Finish} {o : Outcome} (h : f.state = o.state) :
    f = .ended o := by
  cases f with
  | uncertain => cases o <;> cases h
  | ended o' => cases o' <;> cases o <;> first | rfl | cases h

/-- An accepted request after which the execution is over has ended it. -/
theorem Ending.holds_of_accepted {op : Op} {db : Db} {k : String} {E : Ending} {reply : Reply}
    {x : JobExecution} (hop : op.ending? = some (k, E)) (hreply : (exec rt op db).2 = .ok reply)
    (hx : (exec rt op db).1.executions.get? k = some x) (hfinal : x.state.final = true) :
    E.Holds (exec rt op db).1 k reply := by
  obtain ⟨request, clocks, call⟩ := op
  cases call with
  | engagement => cases hop
  | provision => cases hop
  | job call =>
    cases call with
    | finish id body f =>
      obtain ⟨rfl, rfl⟩ := Prod.mk.inj (Option.some.inj hop)
      simp only [exec, JobOp.run] at hreply hx ⊢
      cases hfinish : finishExecution rt.toPlatform clocks request id body f db with
      | error e =>
        rw [hfinish] at hreply
        cases hreply
      | ok committed =>
        obtain ⟨db', result⟩ := committed
        rw [hfinish] at hreply hx
        obtain ⟨y, j, e, hcontrols, hfinishes⟩ := finishExecution_eq_ok hfinish
        obtain rfl : y.jobId = id := Table.key_of_get? hcontrols.execution
        have hjob : j.id = y.jobId := Table.key_of_get? hcontrols.job
        cases hfinishes with
        | again final same =>
          obtain rfl := Except.ok.inj hreply
          exact ⟨y, j, hcontrols.execution, hcontrols.job, hcontrols.unmanaged, final, same, rfl⟩
        | late => cases hreply
        | uncertain =>
          have hput : (db.executions.put { y with state := .uncertain }).get? y.jobId = _ :=
            Table.get?_put_at hcontrols.execution rfl
          obtain rfl := Option.some.inj (hput.symm.trans hx)
          cases hfinal
        | ended now opened =>
          obtain rfl := Except.ok.inj hreply
          exact ⟨_, _, Table.get?_put_at hcontrols.execution rfl,
            Table.get?_put_at hcontrols.job hjob, hcontrols.unmanaged, Outcome.state_final _,
            rfl, rfl⟩
    | _ => cases hop
  | managed call =>
    cases call with
    | finish id body r receipt outcome confirmed =>
      obtain ⟨rfl, rfl⟩ := Prod.mk.inj (Option.some.inj hop)
      obtain ⟨-, observed, db', hbody, hdb'⟩ := exec_managed_ok rfl hreply
      rw [hdb'] at hx ⊢
      obtain ⟨o, ho, h⟩ := bind_eq_ok hbody
      obtain ⟨owned, row, hreports, hrow, hreceipt, ⟨houtcome, rfl, document, hdocument, rfl⟩ |
        ⟨⟨i, locked, hconcludes⟩, document, hdocument, rfl⟩⟩ := Results.finish_eq_ok h
      · obtain ⟨hcontract, hjob⟩ := hreports.contract_stored
        exact ⟨owned.execution, owned.contract, row, o, hreports.execution, hcontract, hjob,
          hreports.ref, hreports.digest, ho, hrow, hreceipt, houtcome, document, hdocument, rfl⟩
      · obtain ⟨hcontract, hjob⟩ := hreports.contract_stored
        obtain ⟨finishedAt, rfl⟩ := hconcludes.committed
        have hid : owned.execution.jobId = id := Table.key_of_get? hreports.execution
        have hname : row.contractId = owned.contract.id := Table.key_of_get? hrow
        exact ⟨owned.execution.finish o, owned.contract, _, o,
          Table.get?_put_at hreports.execution hid, hcontract, hjob, hreports.ref,
          hreports.digest, ho, Table.get?_put_at hrow hname, hreceipt, rfl, document, hdocument,
          rfl⟩
    | report id body r outcome cause confirmed =>
      obtain ⟨rfl, rfl⟩ := Prod.mk.inj (Option.some.inj hop)
      obtain ⟨harguments, observed, db', hbody, hdb'⟩ := exec_managed_ok rfl hreply
      rw [hdb'] at hx ⊢
      obtain ⟨owned, hreports, ⟨rfl, row, hrow, hcause, document, hdocument, rfl⟩ |
        ⟨row, hends, document, hdocument, rfl⟩⟩ := Stops.report_eq_ok hbody
      · obtain ⟨hcontract, hjob⟩ := hreports.contract_stored
        exact ⟨owned.execution, owned.contract, row, hreports.execution, hcontract, hjob,
          hreports.ref, hreports.digest, harguments, hrow, hcause, document, hdocument, rfl⟩
      · obtain ⟨hcontract, hjob⟩ := hreports.contract_stored
        obtain ⟨stops, locked, hinsert, -, -, rfl⟩ := hends.committed
        obtain ⟨receiptSha256, finishedAt, hrow, -⟩ := hends.row_eq
        have hid : owned.execution.jobId = id := Table.key_of_get? hreports.execution
        have hstop := (Table.get?_insert hinsert (Keyed.key row)).trans (if_pos rfl)
        have hname : Keyed.key row = owned.contract.id := by rw [hrow]; rfl
        rw [hname] at hstop
        exact ⟨_, owned.contract, row, Table.get?_put_at hreports.execution hid, hcontract, hjob,
          hreports.ref, hreports.digest, harguments, hstop, by rw [hrow], document, hdocument, rfl⟩
    | _ => cases hop

/-! ## Requests on an execution that ended -/

omit [Unicode] in
/-- The execution that ended. -/
theorem Ending.Holds.final {E : Ending} {db : Db} {k : String} {reply : Reply} (h : E.Holds db k reply) :
    ∃ x, db.executions.get? k = some x ∧ x.state.final = true := by
  cases E with
  | owned =>
    obtain ⟨x, j, hx, -, -, hfinal, -⟩ := h
    exact ⟨x, hx, hfinal⟩
  | result =>
    obtain ⟨x, c, row, o, hx, -, -, -, -, -, -, -, -, document, hdocument, -⟩ := h
    obtain ⟨o', -, hstate, -⟩ := completion_eq_ok hdocument
    exact ⟨x, hx, by rw [hstate, Outcome.state_final]⟩
  | stop =>
    obtain ⟨x, c, row, hx, -, -, -, -, -, -, -, document, hdocument, -⟩ := h
    exact ⟨x, hx, by rw [(ack_eq_ok hdocument).1, Outcome.state_final]⟩

/-- A request on an execution that is not open leaves at most another clock reading. -/
theorem ending_unchanged (rt : Runtime) {op : Op} {db : Db} {k : String} {E : Ending}
    (hop : op.ending? = some (k, E))
    (hfinal : ∀ x, db.executions.get? k = some x → x.state.final = true) :
    ∃ observed, (exec rt op db).1 = { db with observed } := by
  have hopened : ∀ x : JobExecution, db.executions.get? k = some x → x.state.final ≠ false :=
    fun x hx hopened => by simp [hfinal x hx] at hopened
  obtain ⟨request, clocks, call⟩ := op
  cases call with
  | engagement => cases hop
  | provision => cases hop
  | job call =>
    cases call with
    | finish id body f =>
      obtain ⟨rfl, rfl⟩ := Prod.mk.inj (Option.some.inj hop)
      refine ⟨db.observed, ?_⟩
      simp only [exec, JobOp.run]
      cases hfinish : finishExecution rt.toPlatform clocks request id body f db with
      | error e => rfl
      | ok committed =>
        obtain ⟨db', result⟩ := committed
        obtain ⟨y, j, e, hcontrols, hfinishes⟩ := finishExecution_eq_ok hfinish
        cases hfinishes with
        | again => rfl
        | late opened => exact absurd opened (hopened _ hcontrols.execution)
        | uncertain opened => exact absurd opened (hopened _ hcontrols.execution)
        | ended now opened => exact absurd opened (hopened _ hcontrols.execution)
    | _ => cases hop
  | managed call =>
    rcases managedOp_cases rt request clocks call db with ⟨observed, e, hrun⟩ |
      ⟨-, observed, db', reply, hbody, hrun⟩
    · exact ⟨observed, congrArg Prod.fst hrun⟩
    refine ⟨observed, (congrArg Prod.fst hrun).trans ?_⟩
    cases call with
    | finish id body r receipt outcome confirmed =>
      obtain ⟨rfl, rfl⟩ := Prod.mk.inj (Option.some.inj hop)
      obtain ⟨o, -, h⟩ := bind_eq_ok hbody
      obtain ⟨owned, row, hreports, -, -, ⟨-, rfl, -⟩ | ⟨⟨i, locked, hconcludes⟩, -⟩⟩ :=
        Results.finish_eq_ok h
      · rfl
      · exact absurd hconcludes.opened (hopened _ hreports.execution)
    | report id body r outcome cause confirmed =>
      obtain ⟨rfl, rfl⟩ := Prod.mk.inj (Option.some.inj hop)
      obtain ⟨owned, hreports, ⟨rfl, -⟩ | ⟨row, hends, -⟩⟩ := Stops.report_eq_ok hbody
      · rfl
      · exact absurd hends.opened (hopened _ hreports.execution)
    | _ => cases hop

/-- An accepted request has found its execution. -/
theorem ending_execution {op : Op} {db : Db} {k : String} {E : Ending} {reply : Reply}
    (hop : op.ending? = some (k, E)) (hreply : (exec rt op db).2 = .ok reply) :
    ∃ x, db.executions.get? k = some x := by
  obtain ⟨request, clocks, call⟩ := op
  cases call with
  | engagement => cases hop
  | provision => cases hop
  | job call =>
    cases call with
    | finish id body f =>
      obtain ⟨rfl, rfl⟩ := Prod.mk.inj (Option.some.inj hop)
      simp only [exec, JobOp.run] at hreply
      cases hfinish : finishExecution rt.toPlatform clocks request id body f db with
      | error e =>
        rw [hfinish] at hreply
        cases hreply
      | ok committed =>
        obtain ⟨db', reply'⟩ := committed
        obtain ⟨x, j, e, hcontrols, -⟩ := finishExecution_eq_ok hfinish
        exact ⟨x, hcontrols.execution⟩
    | _ => cases hop
  | managed call =>
    cases call with
    | finish id body r receipt outcome confirmed =>
      obtain ⟨rfl, rfl⟩ := Prod.mk.inj (Option.some.inj hop)
      obtain ⟨-, observed, db', hbody, -⟩ := exec_managed_ok rfl hreply
      obtain ⟨o, -, h⟩ := bind_eq_ok hbody
      obtain ⟨owned, row, hreports, -⟩ := Results.finish_eq_ok h
      exact ⟨owned.execution, hreports.execution⟩
    | report id body r outcome cause confirmed =>
      obtain ⟨rfl, rfl⟩ := Prod.mk.inj (Option.some.inj hop)
      obtain ⟨-, observed, db', hbody, -⟩ := exec_managed_ok rfl hreply
      obtain ⟨owned, hreports, -⟩ := Stops.report_eq_ok hbody
      exact ⟨owned.execution, hreports.execution⟩
    | _ => cases hop

omit [Unicode] in
theorem finishArguments_eq_ok {outcome : String} {confirmed : Bool} {o : Outcome}
    (h : Results.finishArguments outcome confirmed = .ok o) :
    outcome = o.text ∧ confirmed = true := by
  have h := found_eq_ok h
  rw [Option.filter_eq_some_iff] at h
  have hfound := List.find?_some h.1
  exact ⟨(eq_of_beq hfound).symm, h.2⟩

omit [Unicode] in
theorem reportArguments_unique {outcome outcome' cause : String} {confirmed confirmed' : Bool}
    (h : Stops.reportArguments outcome cause confirmed = .ok ())
    (h' : Stops.reportArguments outcome' cause confirmed' = .ok ()) :
    outcome' = outcome ∧ confirmed' = confirmed := by
  have h := Wire.require_eq_ok h
  have h' := Wire.require_eq_ok h'
  simp only [Bool.and_eq_true, beq_iff_eq] at h h'
  exact ⟨h'.2.trans h.2.symm, h'.1.2.trans h.1.2.symm⟩

omit [Unicode] in
/-- Two reports that the contract of a job answers to are the same. -/
theorem report_unique {c : ManagedContract} {r r' : Report} (href : c.ref = r.toAttemptRef)
    (href' : c.ref = r'.toAttemptRef)
    (hdigest : Wire.digest c.envelope = .ok r.contractSha256)
    (hdigest' : Wire.digest c.envelope = .ok r'.contractSha256) : r' = r := by
  obtain ⟨ref, sha⟩ := r
  obtain ⟨ref', sha'⟩ := r'
  obtain rfl : ref' = ref := href'.symm.trans href
  obtain rfl : sha' = sha := Except.ok.inj (hdigest'.symm.trans hdigest)
  rfl

section
variable {db : Db} {k : String}

omit [Unicode] in
/-- The job of a contract is managed. -/
theorem Sound.managed (hdb : Sound db) {c : ManagedContract}
    (hc : db.contracts.get? c.id = some c) {j : ScanJob} (hj : db.jobs.get? c.jobId = some j) :
    j.managed = true := by
  obtain ⟨hrequired, -⟩ := (hdb.endings.contract _ c hc).2 j hj
  unfold ScanJob.managed
  rw [hrequired, Bool.true_or]

omit [Unicode] in
/-- A job without a mark has no contract. -/
theorem Sound.uncontracted (hdb : Sound db) {c : ManagedContract}
    (hc : db.contracts.get? c.id = some c) {j : ScanJob} (hj : db.jobs.get? k = some j)
    (hunmanaged : j.managed = false) : c.jobId ≠ k := fun hjob => by
  have hmanaged := hdb.managed hc (hjob ▸ hj)
  rw [hunmanaged] at hmanaged
  cases hmanaged

omit [Unicode] in
theorem Sound.contract_unique (hdb : Sound db) {c c' : ManagedContract}
    (hc : db.contracts.get? c.id = some c) (hc' : db.contracts.get? c'.id = some c')
    (hjob : c'.jobId = c.jobId) : c' = c := by
  have hid := hdb.issuance.one _ c' _ c hc' hc hjob
  rw [hid, hc] at hc'
  exact (Option.some.inj hc').symm

omit [Unicode] in
/-- An execution ended in one way, with one receipt. -/
theorem Ending.Holds.unique {E E' : Ending} {reply reply' : Reply} (hdb : Sound db)
    (h : E.Holds db k reply) (h' : E'.Holds db k reply') : E' = E ∧ reply' = reply := by
  cases E with
  | owned f =>
    obtain ⟨x, j, hx, hj, hunmanaged, hfinal, hstate, rfl⟩ := h
    cases E' with
    | owned f' =>
      obtain ⟨x', -, hx', -, -, -, hstate', rfl⟩ := h'
      obtain rfl := Option.some.inj (hx.symm.trans hx')
      cases f with
      | uncertain =>
        rw [hstate] at hfinal
        cases hfinal
      | ended o => exact ⟨by rw [Finish.state_injective (hstate'.symm.trans hstate)], rfl⟩
    | result =>
      obtain ⟨-, c, -, -, -, hc, hjob, -⟩ := h'
      exact absurd hjob (hdb.uncontracted hc hj hunmanaged)
    | stop =>
      obtain ⟨-, c, -, -, hc, hjob, -⟩ := h'
      exact absurd hjob (hdb.uncontracted hc hj hunmanaged)
  | result r receipt outcome confirmed =>
    obtain ⟨x, c, row, o, hx, hc, hjob, href, hdigest, harguments, hrow, rfl, houtcome, document,
      hdocument, rfl⟩ := h
    cases E' with
    | owned f' =>
      obtain ⟨-, j, -, hj, hunmanaged, -⟩ := h'
      exact absurd hjob (hdb.uncontracted hc hj hunmanaged)
    | result r' receipt' outcome' confirmed' =>
      obtain ⟨x', c', row', o', hx', hc', hjob', href', hdigest', harguments', hrow', rfl,
        houtcome', document', hdocument', rfl⟩ := h'
      obtain rfl := hdb.contract_unique hc hc' (hjob'.trans hjob.symm)
      obtain rfl := report_unique href href' hdigest hdigest'
      obtain rfl := Option.some.inj (hx.symm.trans hx')
      obtain rfl := Option.some.inj (hrow.symm.trans hrow')
      obtain rfl := Option.some.inj (houtcome.symm.trans houtcome')
      obtain rfl := Except.ok.inj (hdocument.symm.trans hdocument')
      obtain ⟨rfl, rfl⟩ := finishArguments_eq_ok harguments
      obtain ⟨rfl, rfl⟩ := finishArguments_eq_ok harguments'
      exact ⟨rfl, rfl⟩
    | stop =>
      obtain ⟨-, c', stop, -, hc', hjob', -, -, -, hstop, -⟩ := h'
      obtain rfl := hdb.contract_unique hc hc' (hjob'.trans hjob.symm)
      rw [hdb.endings.exclusive _ row stop hrow hstop] at houtcome
      cases houtcome
  | stop r outcome cause confirmed =>
    obtain ⟨x, c, row, hx, hc, hjob, href, hdigest, harguments, hrow, rfl, document, hdocument,
      rfl⟩ := h
    cases E' with
    | owned f' =>
      obtain ⟨-, j, -, hj, hunmanaged, -⟩ := h'
      exact absurd hjob (hdb.uncontracted hc hj hunmanaged)
    | result =>
      obtain ⟨-, c', row', o', -, hc', hjob', -, -, -, hrow', -, houtcome', -⟩ := h'
      obtain rfl := hdb.contract_unique hc hc' (hjob'.trans hjob.symm)
      rw [hdb.endings.exclusive _ row' row hrow' hrow] at houtcome'
      cases houtcome'
    | stop r' outcome' cause' confirmed' =>
      obtain ⟨x', c', row', hx', hc', hjob', href', hdigest', harguments', hrow', rfl, document',
        hdocument', rfl⟩ := h'
      obtain rfl := hdb.contract_unique hc hc' (hjob'.trans hjob.symm)
      obtain rfl := report_unique href href' hdigest hdigest'
      obtain rfl := Option.some.inj (hx.symm.trans hx')
      obtain rfl := Option.some.inj (hrow.symm.trans hrow')
      obtain rfl := Except.ok.inj (hdocument.symm.trans hdocument')
      obtain ⟨rfl, rfl⟩ := reportArguments_unique harguments harguments'
      exact ⟨rfl, rfl⟩

end

/-! ## The same request again -/

/-- The owner of an execution that ended may say so again. -/
theorem finishExecution_again {p : Platform} {clocks : Clocks} {request : HttpRequest}
    {id : String} {body : ControlRequest} {f : Finish} {db : Db} {user : User} {x : JobExecution}
    {j : ScanJob} {e : Engagement} (huser : getCurrentUser p.identity db request = .ok user)
    (howned : owned db id user request body = .ok x) (hj : db.jobs.get? id = some j)
    (he : writableEngagement db j.programId user = .ok e) (hunmanaged : j.managed = false)
    (hfinal : x.state.final = true) (hstate : x.state = f.state) :
    finishExecution p clocks request id body f db = .ok (db, .ok (.finalized x.state)) := by
  unfold finishExecution
  rw [hstate] at hfinal ⊢
  simp [huser, howned, hj, he, found, ensure, hunmanaged, hstate, hfinal, bind, Except.bind,
    pure, Except.pure]

omit [Unicode] in
/-- The retained result of an owned report. -/
theorem retainedResult_shown {db : Db} {o : OwnedReport} {sha : String} {row : ManagedResult}
    (hrow : db.results.get? o.contract.id = some row) (hnames : row.Names o.contract)
    (hshows : row.Shows o.contract o.execution) (hjob : o.execution.jobId = o.contract.jobId)
    (hsha : Wire.digest o.contract.envelope = .ok sha) :
    Results.retainedResult db o sha = .ok (some row) := by
  obtain rfl : row.contractSha256 = sha := Except.ok.inj (hnames.digest.symm.trans hsha)
  unfold Results.retainedResult
  rw [hrow]
  simp [hshows.receipt, hnames.jobId, hnames.attemptId, hnames.fence, hjob, Wire.require, ensure,
    bind, Except.bind, pure, Except.pure]

omit [Unicode] in
/-- The retained stop of an owned report. -/
theorem retainedStop_shown {db : Db} {o : OwnedReport} {sha : String} {row : ManagedStop}
    (hrow : db.stops.get? o.contract.id = some row) (hnames : row.Names o.contract)
    (hshows : row.Shows o.contract o.execution) (hjob : o.execution.jobId = o.contract.jobId)
    (hsha : Wire.digest o.contract.envelope = .ok sha) :
    Stops.retainedStop db o sha = .ok (some row) := by
  obtain rfl : row.contractSha256 = sha := Except.ok.inj (hnames.digest.symm.trans hsha)
  have hreceipt := hshows.receipt
  have hcause : row.cause ∈ Stops.causes := by simpa using hnames.cause
  rw [hnames.outcome] at hreceipt
  unfold Stops.retainedStop
  rw [hrow]
  simp [hreceipt, hnames.jobId, hnames.attemptId, hnames.fence, hjob, hcause, hnames.outcome,
    Wire.require, ensure, bind, Except.bind, pure, Except.pure]

theorem Results.finish_again {issuer : Issuer} {clocks : Clocks} {request : HttpRequest}
    {id : String} {body : ControlRequest} {r : Report} {outcome : Outcome} {db : Db}
    {o : OwnedReport} {row : ManagedResult} {document : Json}
    (howned : ownedReport issuer request id body r db = .ok o)
    (hrow : retainedResult db o r.contractSha256 = .ok (some row))
    (houtcome : row.outcome = some outcome)
    (hdocument : completion (binding o.execution o.contract r.contractSha256) row o.execution =
      .ok document) :
    finish issuer clocks request id body r row.receiptSha256 outcome db =
      .ok (db, .document document) := by
  unfold finish
  simp [howned, hrow, houtcome, hdocument, Option.filter, found, Wire.require, ensure, bind,
    Except.bind, pure, Except.pure]

theorem Stops.report_again {issuer : Issuer} {clocks : Clocks} {request : HttpRequest}
    {id : String} {body : ControlRequest} {r : Report} {db : Db} {o : OwnedReport}
    {row : ManagedStop} {document : Json}
    (howned : Results.ownedReport issuer request id body r db = .ok o)
    (hrow : retainedStop db o r.contractSha256 = .ok (some row))
    (houtcome : row.outcome = outcomeOf row.cause)
    (hdocument : ack (Results.binding o.execution o.contract r.contractSha256) row o.execution =
      .ok document) :
    report issuer clocks request id body r row.cause db = .ok (db, .document document) := by
  unfold report
  simp [howned, hrow, houtcome, hdocument, Wire.require, ensure, bind, Except.bind, pure,
    Except.pure]

/-- A managed operation whose body accepts after the clock let it in. -/
theorem exec_managed {op : Op} {m : ManagedOp} {db db₁ db₂ : Db} {text : Text} {reply : Reply}
    (hcall : op.call = .managed m) (harguments : m.arguments = .ok ())
    (hstamp : Wire.stamp op.clocks.anchor = .ok text) (hobserve : observe op.clocks 0 db = .ok db₁)
    (hbody : m.body rt op.request op.clocks db₁ = .ok (db₂, reply)) :
    exec rt op db = (db₂, .ok reply) := by
  simp only [exec, hcall, ManagedOp.run, harguments, operation]
  simp only [hstamp, hobserve, hbody, bind, Except.bind]

/-- The rows of an owned report on the contract of a job. -/
theorem Sound.owned_rows {issuer : Issuer} {request : HttpRequest} {id : String}
    {body : ControlRequest} {r : Report} {db : Db} {observed : Option Instant} {o : OwnedReport}
    {c : ManagedContract} {x : JobExecution} (hdb : Sound db)
    (h : Results.ownedReport issuer request id body r { db with observed } = .ok o)
    (hc : db.contracts.get? c.id = some c) (hjob : c.jobId = id)
    (hx : db.executions.get? id = some x) : c = o.contract ∧ x = o.execution := by
  have hreports := Results.ownedReport_eq_ok h
  obtain ⟨hcontract, hjob'⟩ := hreports.contract_stored
  exact ⟨hdb.contract_unique hcontract hc (hjob.trans hjob'.symm),
    Option.some.inj (hx.symm.trans hreports.execution)⟩

/-- Who ended an execution gets the same receipt again. -/
theorem Ending.Holds.again {E : Ending} {op : Op} {db : Db} {k : String} {reply : Reply}
    (hdb : Sound db) (h : E.Holds db k reply) (hop : op.ending? = some (k, E))
    (howns : op.owns rt db) : (exec rt op db).2 = .ok reply := by
  obtain ⟨request, clocks, call⟩ := op
  cases call with
  | engagement => cases hop
  | provision => cases hop
  | job call =>
    cases call with
    | finish id body f =>
      obtain ⟨rfl, rfl⟩ := Prod.mk.inj (Option.some.inj hop)
      obtain ⟨user, x', j', e, huser, howned, hj', he⟩ := howns
      obtain ⟨x, j, hx, hj, hunmanaged, hfinal, hstate, rfl⟩ := h
      obtain rfl := Option.some.inj (hx.symm.trans (owned_eq_ok howned).1)
      obtain rfl := Option.some.inj (hj.symm.trans hj')
      simp only [exec, JobOp.run]
      rw [finishExecution_again huser howned hj he hunmanaged hfinal hstate]
    | _ => cases hop
  | managed call =>
    cases call with
    | finish id body r receipt outcome confirmed =>
      obtain ⟨rfl, rfl⟩ := Prod.mk.inj (Option.some.inj hop)
      obtain ⟨text, db₁, owned, hstamp, hobserve, howned⟩ := howns
      obtain ⟨x, c, row, o, hx, hc, hjob, href, hdigest, harguments, hrow, rfl, houtcome,
        document, hdocument, rfl⟩ := h
      obtain ⟨t, -, -, rfl⟩ := observe_eq_ok hobserve
      obtain ⟨hcontract, hexecution⟩ := hdb.owned_rows howned hc hjob hx
      obtain ⟨c', hc', -, hnames, hshows⟩ := hdb.endings.result _ row hrow
      obtain rfl := Option.some.inj (hc.symm.trans hc')
      have hshows := hshows x (hjob ▸ hx)
      subst hcontract hexecution
      have hid : owned.execution.jobId = owned.contract.jobId := (Table.key_of_get? hx).trans hjob.symm
      have hbody : ManagedOp.body rt request clocks { db with observed := some t.instant }
          (.finish id body r row.receiptSha256 outcome confirmed) =
            .ok ({ db with observed := some t.instant }, .document document) := by
        simp only [ManagedOp.body, harguments]
        exact Results.finish_again howned (retainedResult_shown hrow hnames hshows hid hdigest)
          houtcome hdocument
      rw [exec_managed rfl ?_ hstamp hobserve hbody]
      simp only [ManagedOp.arguments, harguments]
      rfl
    | report id body r outcome cause confirmed =>
      obtain ⟨rfl, rfl⟩ := Prod.mk.inj (Option.some.inj hop)
      obtain ⟨text, db₁, owned, hstamp, hobserve, howned⟩ := howns
      obtain ⟨x, c, row, hx, hc, hjob, href, hdigest, harguments, hrow, rfl, document, hdocument,
        rfl⟩ := h
      obtain ⟨t, -, -, rfl⟩ := observe_eq_ok hobserve
      obtain ⟨hcontract, hexecution⟩ := hdb.owned_rows howned hc hjob hx
      obtain ⟨c', hc', -, hnames, hshows⟩ := hdb.endings.stop _ row hrow
      obtain rfl := Option.some.inj (hc.symm.trans hc')
      have hshows := hshows x (hjob ▸ hx)
      subst hcontract hexecution
      have hid : owned.execution.jobId = owned.contract.jobId := (Table.key_of_get? hx).trans hjob.symm
      have hbody : ManagedOp.body rt request clocks { db with observed := some t.instant }
          (.report id body r outcome row.cause confirmed) =
            .ok ({ db with observed := some t.instant }, .document document) :=
        Stops.report_again howned (retainedStop_shown hrow hnames hshows hid hdigest)
          hnames.outcome hdocument
      rw [exec_managed (m := .report id body r outcome row.cause confirmed) rfl harguments hstamp
        hobserve hbody]
    | _ => cases hop

/-! ## The law of terminal states -/

omit [Unicode] in
/-- A deleted job has no execution. -/
theorem Sound.deleted_none {db : Db} (hdb : Sound db) {k : String} (h : db.deleted k) :
    db.executions.get? k = none := by
  cases hx : db.executions.get? k with
  | none => rfl
  | some x =>
    obtain ⟨j, hj, -⟩ := hdb.matched k x hx
    rw [h.2] at hj
    cases hj

/-- A caller that owns the execution has found it. -/
theorem Op.owns_execution {op : Op} {db : Db} {k : String} {E : Ending}
    (hop : op.ending? = some (k, E)) (howns : op.owns rt db) :
    ∃ x, db.executions.get? k = some x := by
  obtain ⟨request, clocks, call⟩ := op
  cases call with
  | engagement => cases hop
  | provision => cases hop
  | job call =>
    cases call with
    | finish id body f =>
      obtain ⟨rfl, rfl⟩ := Prod.mk.inj (Option.some.inj hop)
      obtain ⟨user, x, j, e, -, howned, -⟩ := howns
      exact ⟨x, (owned_eq_ok howned).1⟩
    | _ => cases hop
  | managed call =>
    have howned : ∀ {id body r db' o}, observe clocks 0 db = .ok db' →
        Results.ownedReport rt.issuer request id body r db' = .ok o →
        ∃ x, db.executions.get? id = some x := fun hobserve h => by
      obtain ⟨t, -, -, rfl⟩ := observe_eq_ok hobserve
      exact ⟨_, (Results.ownedReport_eq_ok h).execution⟩
    cases call with
    | finish =>
      obtain ⟨rfl, rfl⟩ := Prod.mk.inj (Option.some.inj hop)
      obtain ⟨text, db₁, o, -, hobserve, h⟩ := howns
      exact howned hobserve h
    | report =>
      obtain ⟨rfl, rfl⟩ := Prod.mk.inj (Option.some.inj hop)
      obtain ⟨text, db₁, o, -, hobserve, h⟩ := howns
      exact howned hobserve h
    | _ => cases hop

/-- An execution that ended stays the same, until its job is deleted. -/
theorem final_after (rt : Runtime) {db : Db} (hdb : Sound db) {k : String} {x : JobExecution}
    (hx : db.executions.get? k = some x) (hfinal : x.state.final = true) (ops : List Op) :
    (after rt ops db).deleted k ∨ (after rt ops db).executions.get? k = some x :=
  (after_invariant (fun db => Sound db ∧ (db.deleted k ∨ db.executions.get? k = some x))
    (fun hdb hchange => ⟨hdb.1.step hchange, hdb.2.elim (fun h => .inl (hchange.deleted h))
      fun hx => hdb.1.final_step hchange hx hfinal⟩) ⟨hdb, .inr hx⟩ ops).2

/-- Terminal states, over all runs. An execution that ended never changes while its job exists,
and holds no capacity. A result or a stop exists only for a consumed contract, and a stop never
beside a result with an outcome. Once a request has ended an execution, every later request on
it changes nothing; the same one gets the same receipt if its caller owns the execution, and
any other is refused. -/
theorem terminal_states (rt : Runtime) (ops : List Op) :
    let db := after rt ops .empty
    (∀ x ∈ db.executions.rows, x.state.final = true → x.capacityReserved = false ∧
      ∀ later, (∃ j, (after rt later db).jobs.get? x.jobId = some j) →
        (after rt later db).executions.get? x.jobId = some x) ∧
    (∀ r ∈ db.results.rows, ∃ c ∈ db.contracts.rows, c.id = r.contractId ∧ c.consumed = true) ∧
    (∀ s ∈ db.stops.rows, (∃ c ∈ db.contracts.rows, c.id = s.contractId ∧ c.consumed = true) ∧
      ∀ r ∈ db.results.rows, r.contractId = s.contractId → r.outcome = none) ∧
    ∀ (op : Op) k E reply x, op.ending? = some (k, E) → (exec rt op db).2 = .ok reply →
      (exec rt op db).1.executions.get? k = some x → x.state.final = true →
      ∀ later (op' : Op) E', op'.ending? = some (k, E') →
        let db' := after rt (op :: later) db
        (∃ observed, (exec rt op' db').1 = { db' with observed }) ∧
        (E' = E → op'.owns rt db' → (exec rt op' db').2 = .ok reply) ∧
        (E' ≠ E → ∃ e, (exec rt op' db').2 = .error e) := by
  intro db
  have hdb : Sound db := Reachable.soundness ⟨ops, rfl⟩
  refine ⟨fun x hx hfinal => ⟨?_, fun later hj => ?_⟩, fun r hr => ?_, fun s hs => ⟨?_, ?_⟩,
    fun op k E reply x hop hreply hx hfinal later op' E' hop' => ?_⟩
  · obtain ⟨j, -, hfits⟩ := hdb.matched _ x (Table.get?_of_mem hx)
    exact hfits.unreserved hfinal
  · rcases final_after rt hdb (Table.get?_of_mem hx) hfinal later with hdeleted | hkept
    · obtain ⟨j, hj⟩ := hj
      exact absurd (hdeleted.2.symm.trans hj) nofun
    · exact hkept
  · obtain ⟨c, hc, hconsumed, -⟩ := hdb.endings.result _ r (Table.get?_of_mem hr)
    exact ⟨c, Table.mem_of_get? hc, Table.key_of_get? hc, hconsumed⟩
  · obtain ⟨c, hc, hconsumed, -⟩ := hdb.endings.stop _ s (Table.get?_of_mem hs)
    exact ⟨c, Table.mem_of_get? hc, Table.key_of_get? hc, hconsumed⟩
  · intro r hr hid
    have hstop : db.stops.get? r.contractId = some s := by
      rw [hid]
      exact Table.get?_of_mem hs
    exact hdb.endings.exclusive _ r s (Table.get?_of_mem hr) hstop
  · intro db'
    have hE : db'.deleted k ∨ E.Holds db' k reply :=
      (Ending.holds_of_accepted hop hreply hx hfinal).after (hdb.exec op) later
    have hsound : Sound db' := (hdb.exec op).after later
    have hended : ∀ y, db'.executions.get? k = some y → y.state.final = true := fun y hy => by
      rcases hE with hdeleted | hE
      · rw [hsound.deleted_none hdeleted] at hy
        cases hy
      · obtain ⟨z, hz, hfinal⟩ := hE.final
        rwa [Option.some.inj (hy.symm.trans hz)]
    have hunchanged := ending_unchanged rt hop' hended
    refine ⟨hunchanged, fun hsame howns => ?_, fun hne => ?_⟩
    · subst hsame
      obtain ⟨y, hy⟩ := Op.owns_execution hop' howns
      rcases hE with hdeleted | hE
      · rw [hsound.deleted_none hdeleted] at hy
        cases hy
      · exact hE.again hsound hop' howns
    · cases hreply' : (exec rt op' db').2 with
      | error e => exact ⟨e, rfl⟩
      | ok reply' =>
        obtain ⟨y, hy⟩ := ending_execution hop' hreply'
        rcases hE with hdeleted | hE
        · rw [hsound.deleted_none hdeleted] at hy
          cases hy
        · -- the request would have ended the execution in its own way, too
          obtain ⟨observed, hsame⟩ := hunchanged
          have hheld := Ending.holds_of_accepted hop' hreply' (x := y) (hsame ▸ hy) (hended y hy)
          rw [hsame] at hheld
          exact absurd (hE.unique hsound hheld.observed).1 hne

end VardrMap
