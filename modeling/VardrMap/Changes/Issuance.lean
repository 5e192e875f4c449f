import VardrMap.Changes.Sound

/-!
# The issuance ledger

Every job has at most one contract, the contracts under an approval are numbered from one to
its count without gaps, and the count stays within the approval. What ended stays ended: a
revoked or superseded approval issues nothing more, and a consumed contract stays consumed.
-/
namespace VardrMap
open Lib

variable [Unicode] {rt : Runtime}

/-- The numbers of the contracts under an approval, in the order of their issuance. -/
def Db.ordinals (db : Db) (approvalId : String) : List ℕ :=
  (db.contracts.rows.filter fun c => c.approvalRecordId == approvalId).map ManagedContract.ordinal

/-- The contracts and the approvals that they were issued under. -/
structure Issuance (db : Db) : Prop where
  approval : ∀ k c, db.contracts.get? k = some c →
    ∃ a, db.approvals.get? c.approvalRecordId = some a ∧ a.jobId = c.jobId
  one : ∀ k c k' c', db.contracts.get? k = some c → db.contracts.get? k' = some c' →
    c.jobId = c'.jobId → k = k'
  ordinals : ∀ k a, db.approvals.get? k = some a → db.ordinals k = List.range' 1 a.issued
  within : ∀ k a, db.approvals.get? k = some a →
    ∃ n : ℤ, a.context.field "max_executions" = .int n ∧ (a.issued : ℤ) ≤ n
  bound : ∀ k j id, db.jobs.get? k = some j → j.managedApprovalId = some id →
    ∃ a, db.approvals.get? id = some a ∧ a.jobId = k

omit [Unicode] in
theorem Issuance.empty : Issuance .empty where
  approval := fun _ _ h => by cases h
  one := fun _ _ _ _ h => by cases h
  ordinals := fun _ _ h => by cases h
  within := fun _ _ h => by cases h
  bound := fun _ _ _ h => by cases h

/-! ## The approvals that stay -/

/-- How a stored approval changes: only its count and its revocation. It counts up only while
it is the current approval of its job and not revoked. -/
structure ApprovalStep (db : Db) (a b : ManagedApproval) : Prop where
  row : ∃ issued revoked, b = { a with issued, revoked }
  issued_le : a.issued ≤ b.issued
  revoked : a.revoked = true → b.revoked = true
  issues : b.issued = a.issued ∨ a.revoked = false ∧
    ∃ j, db.jobs.get? a.jobId = some j ∧ j.managedApprovalId = some a.id

omit [Unicode] in
theorem ApprovalStep.refl (db : Db) (a : ManagedApproval) : ApprovalStep db a a :=
  ⟨⟨a.issued, a.revoked, rfl⟩, le_rfl, id, .inl rfl⟩

/-- Approvals stay. -/
theorem Change.approval {db db' : Db} {es : List Event} (h : Change rt db es db') {k : String}
    {a : ManagedApproval} (ha : db.approvals.get? k = some a) :
    ∃ b, db'.approvals.get? k = some b ∧ ApprovalStep db a b := by
  cases h with
  | registered registers =>
    exact ⟨a, Table.get?_insert_of_get? registers.approvals ha, .refl db a⟩
  | revoked stored =>
    rename_i r
    have hput := Table.get?_put (revoked_key stored) k
    by_cases hk : r.id = k
    · subst hk
      obtain rfl : r = a := Option.some.inj (stored.symm.trans ha)
      exact ⟨_, hput.trans (if_pos rfl), ⟨r.issued, true, rfl⟩, le_rfl, fun _ => rfl, .inl rfl⟩
    · exact ⟨a, (hput.trans (if_neg hk)).trans ha, .refl db a⟩
  | issued issues =>
    rename_i i
    have hput := Table.get?_put issues.counted_key k
    by_cases hk : i.approval.id = k
    · subst hk
      obtain rfl : i.approval = a := Option.some.inj (issues.approval_key.symm.trans ha)
      obtain ⟨row, p, raw, f, hp⟩ := issues.permitted
      exact ⟨_, hput.trans (if_pos rfl), ⟨i.approval.issued + 1, i.approval.revoked, rfl⟩,
        Nat.le_succ _, id, .inr ⟨hp.revoked, i.job, hp.jobId ▸ stored_key issues.job rfl,
          hp.current⟩⟩
    · exact ⟨a, (hput.trans (if_neg hk)).trans ha, .refl db a⟩
  | _ => exact ⟨a, ha, .refl db a⟩

/-- Contracts stay, and a consumed one stays consumed. -/
theorem Change.contract {db db' : Db} {es : List Event} (h : Change rt db es db') {k : String}
    {c : ManagedContract} (hc : db.contracts.get? k = some c) :
    ∃ c', db'.contracts.get? k = some c' ∧ (c' = c ∨ c' = { c with consumed := true }) := by
  cases h with
  | issued issues => exact ⟨c, Table.get?_insert_of_get? issues.contracts hc, .inl rfl⟩
  | consumed consumes =>
    rename_i l _ _
    have hput := Table.get?_put consumes.stored_key k
    by_cases hk : l.contract.id = k
    · subst hk
      obtain rfl : l.contract = c := Option.some.inj (consumes.stored_key.symm.trans hc)
      exact ⟨_, hput.trans (if_pos rfl), .inr rfl⟩
    · exact ⟨c, (hput.trans (if_neg hk)).trans hc, .inl rfl⟩
  | _ => exact ⟨c, hc, .inl rfl⟩

/-! ## The ledger is kept -/

omit [Unicode] in
/-- A job without a contract: no stored contract names it. -/
theorem jobId_ne_of_contractOf {db : Db} {jobId k : String} {c : ManagedContract}
    (h : db.contractOf jobId = none) (hc : db.contracts.get? k = some c) : c.jobId ≠ jobId := by
  have hall := List.find?_eq_none.mp h c (Table.mem_of_get? hc)
  simpa using hall

omit [Unicode] in
/-- A new contract is the last one of its approval. -/
theorem ordinals_insert {db db' : Db} {c : ManagedContract} {k : String}
    (h : db.contracts.insert c = some db'.contracts) (hk : c.approvalRecordId = k) :
    db'.ordinals k = db.ordinals k ++ [c.ordinal] := by
  unfold Db.ordinals
  rw [Table.rows_of_insert h, List.filter_append, List.map_append]
  simp [hk]

omit [Unicode] in
theorem ordinals_insert_ne {db db' : Db} {c : ManagedContract} {k : String}
    (h : db.contracts.insert c = some db'.contracts) (hk : c.approvalRecordId ≠ k) :
    db'.ordinals k = db.ordinals k := by
  unfold Db.ordinals
  rw [Table.rows_of_insert h, List.filter_append, List.map_append]
  simp [hk]

/-- A registered approval states how many executions it allows. -/
theorem Registers.max_executions {issuer : Issuer} {clocks : Clocks} {r : Issuer.Registration}
    {db : Db} {i : Registered} (h : Registers issuer clocks r db i) :
    ∃ n : ℤ, (i.row issuer r).context.field "max_executions" = .int n ∧ 0 ≤ n := by
  obtain ⟨permission, p, raw, f, hp, -⟩ := h.projects
  obtain ⟨n, -, hn, hpos⟩ := hp.max_executions
  obtain ⟨dispatches, narrowed, hraw⟩ := hp.projected
  refine ⟨n, ?_, by omega⟩
  change (i.result.field "context").field "max_executions" = _
  rw [hp.context _ (by decide), hraw.max_executions, hn]

theorem Issuance.step {db db' : Db} {es : List Event} (hdb : Issuance db)
    (h : Change rt db es db') : Issuance db' where
  approval := fun k c' hc' => by
    rcases h.contract_row hc' with ⟨-, a, hnew⟩ | ⟨c, hc, hsame⟩
    · obtain ⟨b, hb, hstep⟩ := h.approval hnew.approval
      obtain ⟨issued, revoked, rfl⟩ := hstep.row
      rw [hnew.approvalRecordId]
      exact ⟨_, hb, hnew.jobId⟩
    · obtain ⟨a, ha, hjob⟩ := hdb.approval k c hc
      obtain ⟨b, hb, hstep⟩ := h.approval ha
      obtain ⟨issued, revoked, rfl⟩ := hstep.row
      rcases hsame with rfl | rfl <;> exact ⟨_, hb, hjob⟩
  one := fun k c k' c' hc hc' hjob => by
    cases h with
    | issued issues =>
      have hnew := issues.newContract
      rcases Table.of_get?_insert issues.contracts hc with ⟨rfl, rfl⟩ | hc
      · rcases Table.of_get?_insert issues.contracts hc' with ⟨rfl, rfl⟩ | hc'
        · rfl
        · exact absurd hjob.symm (jobId_ne_of_contractOf hnew.first hc')
      · rcases Table.of_get?_insert issues.contracts hc' with ⟨rfl, rfl⟩ | hc'
        · exact absurd hjob (jobId_ne_of_contractOf hnew.first hc)
        · exact hdb.one k c k' c' hc hc' hjob
    | consumed consumes =>
      have hold := consumes.stored_key
      rcases Table.of_get?_put hold hc with ⟨rfl, rfl⟩ | ⟨-, hc⟩
      · rcases Table.of_get?_put hold hc' with ⟨rfl, rfl⟩ | ⟨-, hc'⟩
        · rfl
        · exact hdb.one _ _ k' c' hold hc' hjob
      · rcases Table.of_get?_put hold hc' with ⟨rfl, rfl⟩ | ⟨-, hc'⟩
        · exact hdb.one k c _ _ hc hold hjob
        · exact hdb.one k c k' c' hc hc' hjob
    | _ => exact hdb.one k c k' c' hc hc' hjob
  ordinals := fun k a ha => by
    cases h with
    | registered registers =>
      rcases Table.of_get?_insert registers.approvals ha with ⟨rfl, rfl⟩ | ha
      · -- no contract names an approval that was not stored
        have hnone := Table.get?_of_insert registers.approvals
        change db.ordinals _ = []
        unfold Db.ordinals
        rw [List.map_eq_nil_iff, List.filter_eq_nil_iff]
        intro c hc hname
        obtain ⟨b, hb, -⟩ := hdb.approval _ c (Table.get?_of_mem hc)
        rw [eq_of_beq hname, hnone] at hb
        cases hb
      · exact hdb.ordinals k a ha
    | revoked stored =>
      rcases Table.of_get?_put (revoked_key stored) ha with ⟨rfl, rfl⟩ | ⟨-, ha⟩
      · have hkept := hdb.ordinals _ _ stored
        exact hkept
      · exact hdb.ordinals k a ha
    | issued issues =>
      rcases Table.of_get?_put issues.counted_key ha with ⟨rfl, rfl⟩ | ⟨hk, ha⟩
      · refine Eq.trans (ordinals_insert issues.contracts rfl) ?_
        have hkept := hdb.ordinals _ _ issues.approval_key
        change db.ordinals _ ++ [_ + 1] = List.range' 1 (_ + 1)
        rw [List.range'_1_concat, Nat.add_comm 1]
        exact congrArg (· ++ _) hkept
      · exact Eq.trans (ordinals_insert_ne issues.contracts hk) (hdb.ordinals k a ha)
    | consumed consumes =>
      refine (Table.project_put consumes.stored_key rfl rfl).trans ?_
      exact hdb.ordinals k a ha
    | _ => exact hdb.ordinals k a ha
  within := fun k a ha => by
    cases h with
    | registered registers =>
      rcases Table.of_get?_insert registers.approvals ha with ⟨rfl, rfl⟩ | ha
      · exact registers.max_executions
      · exact hdb.within k a ha
    | revoked stored =>
      rcases Table.of_get?_put (revoked_key stored) ha with ⟨rfl, rfl⟩ | ⟨-, ha⟩
      · have hkept := hdb.within _ _ stored
        exact hkept
      · exact hdb.within k a ha
    | issued issues =>
      rcases Table.of_get?_put issues.counted_key ha with ⟨rfl, rfl⟩ | ⟨-, ha⟩
      · obtain ⟨n, hn, -⟩ := hdb.within _ _ issues.approval_key
        obtain ⟨j, hj, hle⟩ := issues.ordinal
        rw [← Json.item_eq_ok hj, hn] at hle
        exact ⟨n, hn, hle⟩
      · exact hdb.within k a ha
    | _ => exact hdb.within k a ha
  bound := fun k j' id hj' hid => by
    rcases h.job_row hj' with ⟨hqueued, -, -⟩ | ⟨j, hj, hstep⟩
    · rw [hqueued.approval] at hid
      cases hid
    · have hkept : j.managedApprovalId = some id → ∃ a, db'.approvals.get? id = some a ∧ a.jobId = k :=
        fun hid => by
          obtain ⟨a, ha, hjob⟩ := hdb.bound k j id hj hid
          obtain ⟨b, hb, hstep⟩ := h.approval ha
          obtain ⟨issued, revoked, rfl⟩ := hstep.row
          exact ⟨_, hb, hjob⟩
      cases hstep with
      | progress => exact hkept hid
      | started => exact hkept hid
      | bound pending a fresh stored names =>
        obtain rfl := Option.some.inj hid
        exact ⟨a, stored, names.trans (Table.key_of_get? hj)⟩

theorem Reachable.issuance {db : Db} (h : Reachable rt db) : Issuance db :=
  h.invariant Issuance (fun hdb hchange => hdb.step hchange) .empty

/-! ## What ended stays ended -/

/-- No job is bound to the approval any more. -/
def Superseded (db : Db) (a : ManagedApproval) : Prop :=
  ∀ j, db.jobs.get? a.jobId = some j → j.managedApprovalId ≠ some a.id

/-- A revoked approval stays revoked, with the same count. -/
theorem revoked_after (rt : Runtime) {db : Db} {k : String} {a : ManagedApproval}
    (ha : db.approvals.get? k = some a) (hrevoked : a.revoked = true) (ops : List Op) :
    (after rt ops db).approvals.get? k = some a := by
  refine after_invariant (fun db => db.approvals.get? k = some a) (fun ha hchange => ?_) ha
    ops
  obtain ⟨b, hb, hstep⟩ := hchange.approval ha
  obtain ⟨issued, revoked, rfl⟩ := hstep.row
  obtain rfl : revoked = a.revoked := (hstep.revoked hrevoked).trans hrevoked.symm
  rcases hstep.issues with hsame | ⟨hfalse, -⟩
  · obtain rfl : issued = a.issued := hsame
    exact hb
  · rw [hrevoked] at hfalse
    cases hfalse

omit [Unicode] in
/-- A job that is bound to no approval of this name was not before, unless it just was. -/
theorem JobStep.superseded {db db' : Db} {j j' : ScanJob} {id : String}
    (h : JobStep db db' j j') (hj : j.managedApprovalId ≠ some id)
    (hstored : db.approvals.get? id ≠ none) : j'.managedApprovalId ≠ some id := by
  cases h with
  | progress => exact hj
  | started => exact hj
  | bound pending b fresh =>
    intro hid
    obtain rfl := Option.some.inj hid
    exact hstored fresh

/-- A superseded approval stays superseded, with the same count. -/
theorem superseded_after (rt : Runtime) {db : Db} {k : String} {a : ManagedApproval}
    (ha : db.approvals.get? k = some a) (hsuperseded : Superseded db a) (ops : List Op) :
    ∃ revoked, (after rt ops db).approvals.get? k = some { a with revoked } ∧
      Superseded (after rt ops db) a := by
  refine after_invariant (fun db => ∃ revoked,
    db.approvals.get? k = some { a with revoked } ∧ Superseded db a) (fun hdb hchange => ?_)
    ⟨a.revoked, ha, hsuperseded⟩ ops
  obtain ⟨revoked, ha, hsuperseded⟩ := hdb
  obtain rfl : a.id = k := Table.key_of_get? ha
  obtain ⟨b, hb, hstep⟩ := hchange.approval ha
  obtain ⟨issued, revoked', rfl⟩ := hstep.row
  refine ⟨revoked', ?_, fun j' hj' => ?_⟩
  · rcases hstep.issues with hsame | ⟨-, j, hj, hbound⟩
    · obtain rfl : issued = a.issued := hsame
      exact hb
    · exact absurd hbound (hsuperseded j hj)
  · rcases hchange.job_row hj' with ⟨hqueued, -, -⟩ | ⟨j, hj, hjob⟩
    · rw [hqueued.approval]
      exact nofun
    · exact hjob.superseded (hsuperseded j hj) (by rw [ha]; nofun)

/-- A consumed contract stays consumed. -/
theorem consumed_after {db : Db} {k : String}
    (hc : ∃ c, db.contracts.get? k = some c ∧ c.consumed = true) (ops : List Op) :
    ∃ c, (after rt ops db).contracts.get? k = some c ∧ c.consumed = true := by
  refine after_invariant (fun db => ∃ c, db.contracts.get? k = some c ∧ c.consumed = true)
    (fun hdb hchange => ?_) hc ops
  obtain ⟨c, hc, hconsumed⟩ := hdb
  obtain ⟨c', hc', rfl | rfl⟩ := hchange.contract hc
  · exact ⟨c', hc', hconsumed⟩
  · exact ⟨_, hc', rfl⟩

/-! ## Acknowledgements and registrations -/

/-- A request to consume the contract is acknowledged. -/
def Op.acknowledges (op : Op) (rt : Runtime) (db : Db) (contractId : String) : Prop :=
  ∃ jobId body ref sha reply, op.call = .managed (.consume jobId body ref sha) ∧
    ref.contractId = contractId ∧ (exec rt op db).2 = .ok reply

/-- An acknowledged contract was not consumed before, and it is now. -/
theorem acknowledges_consumes {op : Op} {db : Db} {id : String}
    (h : op.acknowledges rt db id) :
    (∃ c, db.contracts.get? id = some c ∧ c.consumed = false) ∧
      ∃ c, (exec rt op db).1.contracts.get? id = some c ∧ c.consumed = true := by
  obtain ⟨jobId, body, ref, sha, reply, hcall, rfl, hreply⟩ := h
  obtain ⟨-, observed, db', hbody, hdb'⟩ := exec_managed_ok hcall hreply
  obtain ⟨l, locked, last, hl, rfl⟩ := consume_eq_ok hbody
  obtain ⟨user, hlive⟩ := hl.live
  have hid : l.contract.id = ref.contractId := congrArg AttemptRef.contractId hlive.ref
  have hstored : db.contracts.get? l.contract.id = some l.contract :=
    (contractOf_stored hlive.contract).1
  rw [← hid]
  refine ⟨⟨_, hstored, hl.unconsumed⟩, ?_⟩
  rw [hdb']
  exact ⟨_, Table.get?_put_self (r := { l.contract with consumed := true }) hstored, rfl⟩

/-- A request that registers the approval of this record. -/
def Issuer.Registration.names (r : Issuer.Registration) (rt : Runtime) (id : String) : Prop :=
  ∃ receipt, rt.wire.decode (r.approval.field "payload") = .ok receipt ∧
    rt.issuer.recordId receipt = id

/-- The receipt of an approval is the payload of its envelope. -/
theorem approval_payload {wire : ContractWire} {envelope context receipt : Json} {owner : String}
    {now : DateTime} (h : wire.approval envelope context owner now = .ok receipt) :
    wire.decode (envelope.field "payload") = .ok receipt := by
  unfold ContractWire.approval at h
  obtain ⟨payload, hopen, h⟩ := bind_eq_ok h
  obtain ⟨signed, -, h⟩ := bind_eq_ok h
  obtain ⟨current, -, h⟩ := bind_eq_ok h
  obtain ⟨_, -, h⟩ := bind_eq_ok h
  obtain ⟨control, -, h⟩ := bind_eq_ok h
  obtain ⟨_, -, h⟩ := bind_eq_ok h
  obtain ⟨text, -, h⟩ := bind_eq_ok h
  obtain ⟨inTime, -, h⟩ := bind_eq_ok h
  obtain ⟨_, -, h⟩ := bind_eq_ok h
  obtain ⟨maxExecutions, -, h⟩ := bind_eq_ok h
  obtain ⟨_, -, h⟩ := bind_eq_ok h
  obtain rfl := Except.ok.inj h
  unfold ContractWire.openApproval at hopen
  obtain ⟨_, -, hopen⟩ := bind_eq_ok hopen
  obtain ⟨_, -, hopen⟩ := bind_eq_ok hopen
  obtain ⟨payload', hpayload, hopen⟩ := bind_eq_ok hopen
  obtain ⟨_, -, hopen⟩ := bind_eq_ok hopen
  dsimp only at hopen
  obtain ⟨_, -, hopen⟩ := bind_eq_ok hopen
  split at hopen
  swap
  · cases hopen
  obtain ⟨_, -, hopen⟩ := bind_eq_ok hopen
  obtain ⟨_, -, hopen⟩ := bind_eq_ok hopen
  obtain ⟨_, -, hopen⟩ := bind_eq_ok hopen
  obtain ⟨_, -, hopen⟩ := bind_eq_ok hopen
  rw [← Except.ok.inj hopen]
  exact hpayload

/-- A registration under the name of a stored approval is accepted only while it is the current
approval of its job. -/
theorem register_again {op : Op} {r : Issuer.Registration} {db : Db} {id : String}
    {a : ManagedApproval} {reply : Reply} (hcall : op.call = .managed (.register r))
    (hnames : r.names rt id) (ha : db.approvals.get? id = some a)
    (hreply : (exec rt op db).2 = .ok reply) : ¬ Superseded db a := by
  obtain ⟨receipt, hreceipt, rfl⟩ := hnames
  obtain ⟨-, observed, db', hbody, -⟩ := exec_managed_ok hcall hreply
  have h : rt.issuer.register op.clocks op.request r { db with observed } = .ok (db', reply) := hbody
  unfold Issuer.register at h
  obtain ⟨actor, -, h⟩ := bind_eq_ok h
  obtain ⟨job, hjob, h⟩ := bind_eq_ok h
  obtain ⟨payloadText, -, h⟩ := bind_eq_ok h
  obtain ⟨payload, -, h⟩ := bind_eq_ok h
  obtain ⟨context, -, h⟩ := bind_eq_ok h
  obtain ⟨t₁, -, h⟩ := bind_eq_ok h
  obtain ⟨receipt', happroval, h⟩ := bind_eq_ok h
  obtain rfl : receipt' = receipt := Except.ok.inj ((approval_payload happroval).symm.trans hreceipt)
  have hstored : ({ db with observed } : Db).approvals.get? (rt.issuer.recordId receipt') = some a :=
    ha
  simp only [hstored] at h
  unfold Issuer.registerAgain at h
  obtain ⟨stored, -, h⟩ := bind_eq_ok h
  obtain ⟨given, -, h⟩ := bind_eq_ok h
  obtain ⟨_, hcurrent, h⟩ := bind_eq_ok h
  have hcurrent := Wire.require_eq_ok hcurrent
  simp only [Bool.and_eq_true, beq_iff_eq] at hcurrent
  intro hsuperseded
  refine hsuperseded job ?_ hcurrent.1.2
  rw [hcurrent.1.1]
  exact (lockJob_eq_ok hjob).1

/-! ## The law of the ledger -/

/-- The issuance ledger, over all runs. A job has at most one contract. The contracts under an
approval are numbered from one to its count, which stays within the approval and never falls.
At most one request to consume a contract is acknowledged. A revoked approval stays revoked and
issues nothing more. An approval that no job is bound to any more issues nothing more, and
cannot be registered again. -/
theorem issuance_ledger (rt : Runtime) (ops : List Op) :
    let db := after rt ops .empty
    (∀ c ∈ db.contracts.rows, ∀ c' ∈ db.contracts.rows, c.jobId = c'.jobId → c = c') ∧
    (∀ a ∈ db.approvals.rows, db.ordinals a.id = List.range' 1 a.issued ∧
      ∃ n : ℤ, a.context.field "max_executions" = .int n ∧ (a.issued : ℤ) ≤ n) ∧
    (∀ a ∈ db.approvals.rows, ∀ later, ∃ b ∈ (after rt later db).approvals.rows,
      b.id = a.id ∧ a.issued ≤ b.issued) ∧
    (∀ (op : Op) later (op' : Op) contractId, op.acknowledges rt db contractId →
      ¬ op'.acknowledges rt (after rt (op :: later) db) contractId) ∧
    (∀ a ∈ db.approvals.rows, a.revoked = true → ∀ later,
      a ∈ (after rt later db).approvals.rows ∧
        (after rt later db).ordinals a.id = db.ordinals a.id) ∧
    ∀ a ∈ db.approvals.rows, Superseded db a → ∀ later,
      (∃ b ∈ (after rt later db).approvals.rows, b.id = a.id ∧ b.issued = a.issued) ∧
      Superseded (after rt later db) a ∧
      (after rt later db).ordinals a.id = db.ordinals a.id ∧
      ∀ (op : Op) r, op.call = .managed (.register r) → r.names rt a.id →
        ∃ e, (exec rt op (after rt later db)).2 = .error e := by
  intro db
  have hreach : Reachable rt db := ⟨ops, rfl⟩
  have hdb := hreach.issuance
  refine ⟨fun c hc c' hc' hjob => ?_, fun a ha => ?_, fun a ha later => ?_,
    fun op later op' id hop hop' => ?_, fun a ha hrevoked later => ?_,
    fun a ha hsuperseded later => ?_⟩
  · have hone := hdb.one _ c _ c' (Table.get?_of_mem hc) (Table.get?_of_mem hc') hjob
    exact Table.eq_of_key hc hc' hone
  · exact ⟨hdb.ordinals _ a (Table.get?_of_mem ha), hdb.within _ a (Table.get?_of_mem ha)⟩
  · obtain ⟨b, hb, hle⟩ := after_invariant
      (fun db => ∃ b, db.approvals.get? a.id = some b ∧ a.issued ≤ b.issued)
      (fun hdb hchange => by
        obtain ⟨b, hb, hle⟩ := hdb
        obtain ⟨b', hb', hstep⟩ := hchange.approval hb
        exact ⟨b', hb', hle.trans hstep.issued_le⟩)
      ⟨a, Table.get?_of_mem ha, le_rfl⟩ later
    exact ⟨b, Table.mem_of_get? hb, Table.key_of_get? hb, hle⟩
  · obtain ⟨-, hconsumed⟩ := acknowledges_consumes hop
    obtain ⟨⟨c, hc, hfalse⟩, -⟩ := acknowledges_consumes hop'
    obtain ⟨c', hc', htrue⟩ := consumed_after hconsumed later
    rw [after_cons, hc', Option.some.injEq] at hc
    rw [← hc, htrue] at hfalse
    cases hfalse
  · have hget : db.approvals.get? a.id = some a := Table.get?_of_mem ha
    have hlater := revoked_after rt hget hrevoked later
    refine ⟨Table.mem_of_get? hlater, ?_⟩
    rw [(hreach.after later).issuance.ordinals _ a hlater, hdb.ordinals _ a hget]
  · have hget : db.approvals.get? a.id = some a := Table.get?_of_mem ha
    obtain ⟨revoked, hlater, hstill⟩ := superseded_after rt hget hsuperseded later
    refine ⟨⟨_, Table.mem_of_get? hlater, rfl, rfl⟩, hstill, ?_, fun op r hcall hnames => ?_⟩
    · rw [(hreach.after later).issuance.ordinals _ _ hlater, hdb.ordinals _ a hget]
    · cases hreply : (exec rt op (after rt later db)).2 with
      | error e => exact ⟨e, rfl⟩
      | ok reply => exact (register_again hcall hnames hlater hreply hstill).elim

end VardrMap
