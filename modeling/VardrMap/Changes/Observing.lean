import VardrMap.Changes.Deliveries
import VardrMap.Changes.StopWork

/-!
# What observers see over time

The observer of a claim may ask at any time, and sees what is stored then. What it has once
seen of a claim stays so: the contract, its consumption, the receipts, and the end of the
execution. Later observations only add to earlier ones.
-/
namespace VardrMap
open Lib

variable [Unicode] {rt : Runtime}

/-! ## The rows of a claim -/

/-- The rows that an observation of a claim shows. -/
structure ClaimRows where
  contract : ManagedContract
  approval : ManagedApproval
  execution : JobExecution
  result : Option ManagedResult
  stop : Option ManagedStop

/-- The rows are those of the claim of a job. -/
structure ClaimRows.Stored (v : ClaimRows) (db : Db) (k : String) : Prop where
  contract : db.contracts.get? v.contract.id = some v.contract
  jobId : v.contract.jobId = k
  approval : db.approvals.get? v.contract.approvalRecordId = some v.approval
  execution : db.executions.get? k = some v.execution
  result : db.results.get? v.contract.id = v.result
  stop : db.stops.get? v.contract.id = v.stop

omit [Unicode] in
/-- The stored rows of the claim of a job are determined. -/
theorem ClaimRows.Stored.unique {v w : ClaimRows} {db : Db} {k : String} (hdb : Sound db)
    (hv : v.Stored db k) (hw : w.Stored db k) : w = v := by
  have hcontract := hdb.contract_unique hv.contract hw.contract (hw.jobId.trans hv.jobId.symm)
  obtain ⟨c, a, x, r, s⟩ := v
  obtain ⟨c', a', x', r', s'⟩ := w
  obtain rfl : c' = c := hcontract
  obtain rfl : a' = a := Option.some.inj (hw.approval.symm.trans hv.approval)
  obtain rfl : x' = x := Option.some.inj (hw.execution.symm.trans hv.execution)
  obtain rfl : r' = r := hw.result.symm.trans hv.result
  obtain rfl : s' = s := hw.stop.symm.trans hv.stop
  rfl

/-- How the execution of a claim stands later: it was not revived, and an end is final. -/
structure JobExecution.Before (x y : JobExecution) : Prop where
  binding : Issuer.binding y = Issuer.binding x
  final : x.state.final = true → y = x
  active : y.state = .active → x.state = .active
  released : x.capacityReserved = false → y.capacityReserved = false

omit [Unicode] in
theorem JobExecution.Before.refl (x : JobExecution) : x.Before x := ⟨rfl, fun _ => rfl, id, id⟩

omit [Unicode] in
theorem JobExecution.Before.trans {x y z : JobExecution} (h : x.Before y) (h' : y.Before z) :
    x.Before z where
  binding := h'.binding.trans h.binding
  final := fun hx => by
    obtain rfl := h.final hx
    exact h'.final hx
  active := fun hz => h.active (h'.active hz)
  released := fun hx => h'.released (h.released hx)

omit [Unicode] in
theorem ExecutionStep.before {x x' : JobExecution} (h : ExecutionStep x x') : x.Before x' where
  binding := by cases h <;> rfl
  final := h.final
  active := h.active
  released := fun hx => by
    cases h with
    | same => exact hx
    | held => exact hx
    | ended => rfl

/-- How the rows of a claim stand later: the contract may be consumed, the result may have got
its outcome, and a result or a stop may have come. -/
structure ClaimRows.Before (v w : ClaimRows) : Prop where
  contract : w.contract = v.contract ∨ w.contract = { v.contract with consumed := true }
  approval : ∃ issued revoked, w.approval = { v.approval with issued, revoked }
  execution : v.execution.Before w.execution
  result : ∀ r, v.result = some r → ∃ r', w.result = some r' ∧ (r' = r ∨ r.outcome = none ∧
    ∃ o t, r' = { r with outcome := some o, finishedAt := some t })
  stop : ∀ s, v.stop = some s → w.stop = some s

omit [Unicode] in
theorem ClaimRows.Before.refl (v : ClaimRows) : v.Before v where
  contract := .inl rfl
  approval := ⟨_, _, rfl⟩
  execution := .refl _
  result := fun r hr => ⟨r, hr, .inl rfl⟩
  stop := fun _ hs => hs

omit [Unicode] in
theorem ClaimRows.Before.trans {u v w : ClaimRows} (h : u.Before v) (h' : v.Before w) :
    u.Before w where
  contract := by
    rcases h.contract with hv | hv <;> rcases h'.contract with hw | hw <;> rw [hv] at hw <;>
      first | exact .inl hw | exact .inr hw
  approval := by
    obtain ⟨issued, revoked, hv⟩ := h.approval
    obtain ⟨issued', revoked', hw⟩ := h'.approval
    exact ⟨issued', revoked', by rw [hw, hv]⟩
  execution := h.execution.trans h'.execution
  result := fun r hr => by
    obtain ⟨r', hr', hstep⟩ := h.result r hr
    obtain ⟨r'', hr'', hstep'⟩ := h'.result r' hr'
    refine ⟨r'', hr'', ?_⟩
    rcases hstep with rfl | ⟨hnone, o, t, rfl⟩
    · exact hstep'
    · rcases hstep' with rfl | ⟨hsome, -⟩
      · exact .inr ⟨hnone, o, t, rfl⟩
      · cases hsome
  stop := fun s hs => h'.stop s (h.stop s hs)

/-- The rows of a claim stay, each after its step, until the job is deleted. -/
theorem ClaimRows.Stored.step {db db' : Db} {es : List Event} {v : ClaimRows} {k : String}
    (hv : v.Stored db k) (hdb : Sound db) (h : Change rt db es db') :
    db'.deleted k ∨ ∃ w : ClaimRows, w.Stored db' k ∧ v.Before w := by
  rcases h.execution hdb.matched hv.execution with ⟨hnone, -⟩ | ⟨x, hx, hstep⟩
  · obtain ⟨j, hj, -⟩ := hdb.matched k _ hv.execution
    exact .inl ⟨h.ids_subset (hdb.known.job hj).1, hnone⟩
  · obtain ⟨c, hc, hcontract⟩ := h.contract hv.contract
    obtain ⟨a, ha, happroval⟩ := h.approval hv.approval
    have hkept : c.id = v.contract.id ∧ c.jobId = v.contract.jobId ∧
        c.approvalRecordId = v.contract.approvalRecordId := by
      rcases hcontract with rfl | rfl <;> exact ⟨rfl, rfl, rfl⟩
    refine .inr ⟨⟨c, a, x, db'.results.get? c.id, db'.stops.get? c.id⟩, {
      contract := by rw [hkept.1]; exact hc
      jobId := hkept.2.1.trans hv.jobId
      approval := by rw [hkept.2.2]; exact ha
      execution := hx
      result := rfl
      stop := rfl }, {
      contract := hcontract
      approval := happroval.row
      execution := hstep.before
      result := fun r hr => ?_
      stop := fun s hs => ?_ }⟩
    · rw [hkept.1]
      exact h.result (hv.result.trans hr)
    · rw [hkept.1]
      exact h.stop (hv.stop.trans hs)

theorem ClaimRows.Stored.after {db : Db} {v : ClaimRows} {k : String} (hv : v.Stored db k)
    (hdb : Sound db) (ops : List Op) :
    (after rt ops db).deleted k ∨
      ∃ w : ClaimRows, w.Stored (VardrMap.after rt ops db) k ∧ v.Before w := by
  have hrun := after_invariant
    (fun db => Sound db ∧ (db.deleted k ∨ ∃ w : ClaimRows, w.Stored db k ∧ v.Before w))
    (fun {db₁ db₂ es} (hdb : Sound db₁ ∧ _) (hchange : Change rt db₁ es db₂) => by
      refine ⟨hdb.1.step hchange, ?_⟩
      rcases hdb.2 with hdeleted | ⟨w, hw, hvw⟩
      · exact .inl (hchange.deleted hdeleted)
      · rcases hw.step hdb.1 hchange with hdeleted | ⟨u, hu, hwu⟩
        · exact .inl hdeleted
        · exact .inr ⟨u, hu, hvw.trans hwu⟩)
    ⟨hdb, .inr ⟨v, hv, .refl v⟩⟩ ops
  exact hrun.2

/-! ## What an observation shows -/

/-- The document shows a claim with these rows. -/
structure ClaimRows.Shown (v : ClaimRows) (d : Json) (sha : String) : Prop where
  digest : Wire.digest v.contract.envelope = .ok sha
  claim : d.field "claim" = .obj [
    ("contract_id", .str v.contract.id), ("attempt_id", .str v.contract.attemptId),
    ("fence", .int v.contract.fence), ("contract_sha256", .str sha),
    ("consumed", .bool v.contract.consumed), ("authority_revision", .int v.approval.revision),
    ("authority_sha256", v.approval.context.field "authority_sha256")]
  state : d.field "execution_state" = .str (Results.stateText v.execution.state)
  capacity : d.field "capacity_reserved" = .bool v.execution.capacityReserved
  result : d.field "result" =
    (v.result.map (Results.ack (Results.binding v.execution v.contract sha))).getD .null
  completion : Results.observedCompletion (Results.binding v.execution v.contract sha) v.execution
    v.result = .ok (d.field "completion")
  stop : Stops.observedStop (Results.binding v.execution v.contract sha) v.execution v.stop =
    .ok (d.field "stop")

/-- An accepted observation of a job, and the document that its caller gets. -/
def Observes (rt : Runtime) (db : Db) (k : String) (d : Json) : Prop :=
  ∃ (op : Op) (body : ClaimControl) (f : Observations.Fingerprints),
    op.call = .managed (.observe k body f) ∧ (exec rt op db).2 = .ok (.document d)

omit [Unicode] in
theorem retainedStop_eq_ok {db : Db} {o : OwnedReport} {sha : String} {row : Option ManagedStop}
    (h : Stops.retainedStop db o sha = .ok row) : db.stops.get? o.contract.id = row := by
  unfold Stops.retainedStop at h
  split at h
  · rename_i hnone
    rw [hnone, ← Except.ok.inj h]
  · rename_i s hs
    obtain ⟨hash, -, h⟩ := bind_eq_ok h
    obtain ⟨_, -, h⟩ := bind_eq_ok h
    rw [hs, ← Except.ok.inj h]

theorem observer_eq_ok {issuer : Issuer} {request : HttpRequest} {jobId : String}
    {body : ClaimControl} {f : Observations.Fingerprints} {db : Db} {o : Observations.Observed}
    (h : Observations.observer issuer request jobId body f db = .ok o) :
    db.jobs.get? jobId = some o.job ∧ db.approvalOf o.job = some o.approval := by
  obtain ⟨user, -, h⟩ := bind_eq_ok h
  obtain ⟨job, hjob, h⟩ := bind_eq_ok h
  obtain ⟨e, -, h⟩ := bind_eq_ok h
  obtain ⟨approval, happroval, h⟩ := bind_eq_ok h
  obtain ⟨⟨enrollment, key⟩, -, h⟩ := bind_eq_ok h
  obtain ⟨principalHash, -, h⟩ := bind_eq_ok h
  obtain ⟨_, -, h⟩ := bind_eq_ok h
  obtain ⟨planHash, -, h⟩ := bind_eq_ok h
  obtain ⟨caseHash, -, h⟩ := bind_eq_ok h
  obtain ⟨association, -, h⟩ := bind_eq_ok h
  obtain ⟨_, -, h⟩ := bind_eq_ok h
  obtain rfl := Except.ok.inj h
  exact ⟨(lockJob_eq_ok hjob).1, (Option.filter_eq_some_iff.mp (found_eq_ok happroval)).1⟩

/-- A document that shows a claim shows the stored rows. -/
theorem inspect_shown {issuer : Issuer} {request : HttpRequest} {jobId : String}
    {body : ClaimControl} {f : Observations.Fingerprints} {db db' : Db} {d : Json}
    (h : Observations.inspect issuer request jobId body f db = .ok (db', .document d)) :
    d.field "claim" = .null ∧ db.executions.get? jobId = none ∨
      ∃ (v : ClaimRows) (sha : String), v.Stored db jobId ∧ v.Shown d sha := by
  unfold Observations.inspect at h
  obtain ⟨o, ho, h⟩ := bind_eq_ok h
  obtain ⟨hjob, happroval⟩ := observer_eq_ok ho
  dsimp only at h
  split at h
  · rename_i contract execution hcontract hexecution
    obtain ⟨rest, hrest, h⟩ := bind_eq_ok h
    obtain ⟨hcontract, hname⟩ := contractOf_stored hcontract
    obtain ⟨_, hrows, hrest⟩ := bind_eq_ok hrest
    obtain ⟨caseHash, -, hrest⟩ := bind_eq_ok hrest
    obtain ⟨_, -, hrest⟩ := bind_eq_ok hrest
    obtain ⟨envelope, -, hrest⟩ := bind_eq_ok hrest
    obtain ⟨payload, -, hrest⟩ := bind_eq_ok hrest
    obtain ⟨_, -, hrest⟩ := bind_eq_ok hrest
    obtain ⟨_, -, hrest⟩ := bind_eq_ok hrest
    obtain ⟨sha, hsha, hrest⟩ := bind_eq_ok hrest
    dsimp only at hrest
    obtain ⟨result, hresult, hrest⟩ := bind_eq_ok hrest
    obtain ⟨stop, hstop, hrest⟩ := bind_eq_ok hrest
    obtain ⟨_, -, hrest⟩ := bind_eq_ok hrest
    obtain ⟨completion, hcompletion, hrest⟩ := bind_eq_ok hrest
    obtain ⟨stopped, hstopped, hrest⟩ := bind_eq_ok hrest
    obtain rfl := Except.ok.inj hrest
    obtain rfl : _ = d := Reply.document.inj (Prod.mk.inj (Except.ok.inj h)).2
    have hrows := Wire.require_eq_ok hrows
    simp only [Bool.and_eq_true, beq_iff_eq] at hrows
    have hrecord := hrows.1.1.1.1.1
    refine .inr ⟨⟨contract, o.approval, execution, result, stop⟩, sha, {
      contract := hcontract
      jobId := hname
      approval := ?_
      execution := hexecution
      result := Results.retainedResult_eq_ok hresult
      stop := retainedStop_eq_ok hstop }, {
      digest := hsha
      claim := rfl
      state := rfl
      capacity := rfl
      result := rfl
      completion := hcompletion
      stop := hstopped }⟩
    obtain ⟨id, hid, ha⟩ := Option.bind_eq_some_iff.mp happroval
    have hkey : o.approval.id = id := Table.key_of_get? ha
    rw [hrecord, hkey]
    exact ha
  · obtain ⟨_, hunclaimed, h⟩ := bind_eq_ok h
    obtain rfl : _ = d := Reply.document.inj (Prod.mk.inj (Except.ok.inj h)).2
    have hunclaimed := Wire.require_eq_ok hunclaimed
    simp only [Bool.and_eq_true, Option.isNone_iff_eq_none] at hunclaimed
    exact .inl ⟨rfl, hunclaimed.1.1.1.1.2⟩

/-! ## Later observations -/

/-- A later document shows at least what an earlier one did. -/
structure Extends (d d' : Json) : Prop where
  claim : ∀ k ∈ ["contract_id", "attempt_id", "fence", "contract_sha256", "authority_revision",
    "authority_sha256"], (d'.field "claim").field k = (d.field "claim").field k
  consumed : (d.field "claim").field "consumed" = .bool true →
    (d'.field "claim").field "consumed" = .bool true
  receipts : ∀ k ∈ ["result", "completion", "stop"], d.field k ≠ .null → d'.field k = d.field k
  released : d.field "capacity_reserved" = .bool false → d'.field "capacity_reserved" = .bool false
  active : d'.field "execution_state" = .str (Results.stateText .active) →
    d.field "execution_state" = .str (Results.stateText .active)
  final : ∀ o : Outcome, d.field "execution_state" = .str (Results.stateText o.state) →
    d'.field "execution_state" = d.field "execution_state"

omit [Unicode] in
theorem stateText_injective : Function.Injective Results.stateText := by
  intro s s' h
  cases s <;> cases s' <;> first | rfl | simp [Results.stateText] at h

omit [Unicode] in
/-- A receipt names no more of its rows than stays. -/
theorem ClaimRows.Before.binding {v w : ClaimRows} (h : v.Before w) (sha : String) :
    Results.binding w.execution w.contract sha = Results.binding v.execution v.contract sha := by
  unfold Results.binding
  rw [h.execution.binding]
  rcases h.contract with hc | hc <;> rw [hc]

omit [Unicode] in
/-- A completion that is shown is that of an execution which ended. -/
theorem observedCompletion_ne_null {binding : List (String × Json)} {x : JobExecution}
    {row : Option ManagedResult} {d : Json} (h : Results.observedCompletion binding x row = .ok d)
    (hd : d ≠ .null) : ∃ r o, row = some r ∧ r.outcome = some o ∧ x.state = o.state ∧
      Results.completion binding r x = .ok d := by
  cases row with
  | none => exact absurd (Except.ok.inj h).symm hd
  | some r =>
    simp only [Results.observedCompletion] at h
    split at h
    · exact absurd (Except.ok.inj h).symm hd
    · obtain ⟨o, ho, hstate, -⟩ := completion_eq_ok h
      exact ⟨r, o, rfl, ho, hstate, h⟩

omit [Unicode] in
theorem ClaimRows.Shown.extends {v w : ClaimRows} {d d' : Json} {sha sha' : String}
    (h : v.Shown d sha) (h' : w.Shown d' sha') (hvw : v.Before w) : Extends d d' := by
  obtain rfl : sha = sha' := by
    have hdigest := h'.digest
    rcases hvw.contract with hc | hc <;> rw [hc, h.digest] at hdigest <;>
      exact Except.ok.inj hdigest
  have hbinding := hvw.binding sha
  refine {
    claim := ?_
    consumed := ?_
    receipts := ?_
    released := fun hd => ?_
    active := fun hd => ?_
    final := fun o hd => ?_ }
  · -- the names of a claim are columns that stay
    obtain ⟨issued, revoked, happroval⟩ := hvw.approval
    intro k hk
    rw [h.claim, h'.claim, happroval]
    rcases hvw.contract with hc | hc <;> rw [hc]
    all_goals
      simp only [List.mem_cons, List.not_mem_nil, or_false] at hk
      rcases hk with rfl | rfl | rfl | rfl | rfl | rfl <;> rfl
  · intro hd
    rw [h.claim] at hd
    rw [h'.claim]
    rcases hvw.contract with hc | hc <;> rw [hc]
    · exact hd
    · rfl
  · intro k hk hd
    simp only [List.mem_cons, List.not_mem_nil, or_false] at hk
    rcases hk with rfl | rfl | rfl
    · rw [h.result] at hd ⊢
      rw [h'.result, hbinding]
      cases hr : v.result with
      | none =>
        rw [hr] at hd
        exact absurd rfl hd
      | some r =>
        obtain ⟨r', hr', rfl | ⟨-, o, t, rfl⟩⟩ := hvw.result r hr <;> rw [hr']
        rfl
    · obtain ⟨r, o, hr, ho, hstate, hcompletion⟩ := observedCompletion_ne_null h.completion hd
      have hsame := hvw.execution.final (by rw [hstate, Outcome.state_final])
      obtain ⟨r', hr', rfl | ⟨hnone, -⟩⟩ := hvw.result r hr
      · have hlater := h'.completion
        rw [hbinding, hsame, hr', ← hr, h.completion] at hlater
        exact (Except.ok.inj hlater).symm
      · rw [ho] at hnone
        cases hnone
    · have hstop := h.stop
      cases hs : v.stop with
      | none =>
        rw [hs] at hstop
        exact absurd (Except.ok.inj hstop).symm hd
      | some s =>
        rw [hs] at hstop
        have hsame := hvw.execution.final (by rw [(ack_eq_ok hstop).1, Outcome.state_final])
        have hlater := h'.stop
        rw [hbinding, hsame, hvw.stop s hs] at hlater
        exact (Except.ok.inj (hstop.symm.trans hlater)).symm
  · rw [h.capacity, Json.bool.injEq] at hd
    rw [h'.capacity, hvw.execution.released hd]
  · rw [h'.state, Json.str.injEq] at hd
    rw [h.state, hvw.execution.active (stateText_injective hd)]
  · rw [h.state, Json.str.injEq] at hd
    have hstate := stateText_injective hd
    rw [h.state, h'.state, hvw.execution.final (by rw [hstate, Outcome.state_final])]

/-- An accepted observation has found its job, and shows nothing or the stored rows. -/
theorem Observes.shown {db : Db} {k : String} {d : Json} (h : Observes rt db k d) :
    (∃ j, db.jobs.get? k = some j) ∧
      (d.field "claim" = .null ∧ db.executions.get? k = none ∨
        ∃ (v : ClaimRows) (sha : String), v.Stored db k ∧ v.Shown d sha) := by
  obtain ⟨op, body, f, hcall, hreply⟩ := h
  obtain ⟨-, observed, db', hbody, -⟩ := exec_managed_ok hcall hreply
  have hshown := inspect_shown hbody
  refine ⟨?_, hshown.imp_right fun ⟨v, sha, hv, hd⟩ => ⟨v, sha, ⟨hv.contract, hv.jobId,
    hv.approval, hv.execution, hv.result, hv.stop⟩, hd⟩⟩
  obtain ⟨o, ho, -⟩ := bind_eq_ok hbody
  exact ⟨o.job, (observer_eq_ok ho).1⟩

/-- The contract of the example. -/
def observedPayload : Json :=
  .obj [
    ("schema", .str "vardr.authorization/1"),
    ("issuer", .obj [("id", .str "map-1"), ("key_id", .str "key-1")]),
    ("origin", .str "map"),
    ("contract_id", .str "contract-1"),
    ("approval_sha256",
      .str "30720b7876b192d9d7d3afcb2e60af90633250b674d189e7d46e0bed1574fed7"),
    ("approval_id", .str "ap-1"),
    ("execution_index", .int 1),
    ("plan_sha256", .str "32885a8fc365330ab67bf3c32086ff6848dbfecc313b9998272e0d078519e62a"),
    ("runner_id", .str "r1"),
    ("engagement_id", .str "e1"),
    ("job_id", .str "j1"),
    ("attempt_id", .str "attempt-1"),
    ("fence", .int 1),
    ("issued_at", .str "2025-11-29T08:00:00Z"),
    ("expires_at", .str "2025-11-29T08:00:05Z"),
    ("authority_revision", .int 5)]

/-- A runtime that writes this contract as a short text, and reads it back. -/
def observedRuntime : Runtime := { deliveryRuntime with wire := { deliveryRuntime.wire with
  decode := fun j => if j = .str "text" then .ok observedPayload else .ok j } }

def observedOps : List Op := exampleSetup ++ [exampleRegister, exampleClaim]

def observedStop : Op := bySession (.engagement (.engageStopWork "e1"))

def observation : Op := byRunner (.managed (.observe "j1" exampleBody ⟨
  "32885a8fc365330ab67bf3c32086ff6848dbfecc313b9998272e0d078519e62a", exampleCaseHash,
  "67145af9b29b9658f864adcf223cf9edac1746dc253b1a57ea5facb9bae0ec4c"⟩))

/-- The state in which a reply shows the execution of a claim. -/
def shownState : Except Refusal Reply → Option Json
  | .ok (.document d) => if d.field "claim" = .null then none else some (d.field "execution_state")
  | _ => none

omit [Unicode] in
theorem exists_document {reply : Except Refusal Reply} {state : Json}
    (h : shownState reply = some state) : ∃ d, reply = .ok (.document d) ∧
      d.field "claim" ≠ .null ∧ d.field "execution_state" = state := by
  unfold shownState at h
  split at h
  · rename_i d
    split at h
    · cases h
    · rename_i hclaim
      exact ⟨d, rfl, hclaim, Option.some.inj h⟩
  · cases h

omit [Unicode] in
set_option maxRecDepth 10000 in
theorem observed_approved : @after Unicode.ascii observedRuntime
    (exampleSetup ++ [exampleRegister]) .empty = exampleApproved := by
  decide +kernel

omit [Unicode] in
set_option maxRecDepth 10000 in
theorem observed_claimed : @after Unicode.ascii observedRuntime [exampleClaim] exampleApproved =
    { deliveryClaimed.1 with receipts := .empty } := by
  decide +kernel

omit [Unicode] in
theorem observedOps_claimed : @after Unicode.ascii observedRuntime observedOps .empty =
    { deliveryClaimed.1 with receipts := .empty } := by
  let _ := Unicode.ascii
  have happend : observedOps = (exampleSetup ++ [exampleRegister]) ++ [exampleClaim] := rfl
  rw [happend, after_append, observed_approved, observed_claimed]

end VardrMap
