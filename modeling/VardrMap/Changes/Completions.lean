import VardrMap.Changes.Endings

/-!
# Completed jobs

A job that requires a contract should be done only through the completed result of its
consumed contract. Every path to done keeps to that but one: a status change of a pending job,
which has no execution yet.
-/
namespace VardrMap
open Lib

variable [Unicode] {rt : Runtime}

/-- The job has a consumed contract with a completed result. -/
def Db.completedResult (db : Db) (jobId : String) : Prop :=
  ∃ c ∈ db.contracts.rows, c.jobId = jobId ∧ c.consumed = true ∧
    ∃ r ∈ db.results.rows, r.contractId = c.id ∧ r.outcome = some .completed

/-- Managed jobs are done through their results only. -/
def Vouched (db : Db) : Prop :=
  ∀ j ∈ db.jobs.rows, j.authorizationContractRequired = true ∨ j.managedApprovalId ≠ none →
    j.status = .done → db.completedResult j.id

instance (db : Db) (jobId : String) : Decidable (db.completedResult jobId) :=
  inferInstanceAs (Decidable (∃ c ∈ db.contracts.rows, _))

instance (db : Db) : Decidable (Vouched db) :=
  inferInstanceAs (Decidable (∀ j ∈ db.jobs.rows, _))

/-- A completed result stays one. -/
theorem Change.completedResult {db db' : Db} {es : List Event} (h : Change rt db es db')
    {jobId : String} (hresult : db.completedResult jobId) : db'.completedResult jobId := by
  obtain ⟨c, hc, hjob, hconsumed, r, hr, hid, hcompleted⟩ := hresult
  obtain ⟨c', hc', hsame⟩ := h.contract (Table.get?_of_mem hc)
  obtain ⟨r', hr', hrow⟩ := h.result (Table.get?_of_mem hr)
  have hr'' : r' = r := hrow.resolve_right fun hnone => by
    rw [hcompleted] at hnone
    exact absurd hnone.1 nofun
  subst hr''
  refine ⟨c', Table.mem_of_get? hc', ?_, ?_, r', Table.mem_of_get? hr', ?_, hcompleted⟩ <;>
    rcases hsame with rfl | rfl <;> first | assumption | rfl

/-- How a stored job gets done: by a status change, by the owner of an unmanaged execution, or
by the completed result of its contract. -/
theorem Change.done_row {db db' : Db} {es : List Event} (h : Change rt db es db') {k : String}
    {j j' : ScanJob} (hj : db.jobs.get? k = some j) (hj' : db'.jobs.get? k = some j')
    (hne : j.status ≠ .done) (hdone : j'.status = .done) :
    (.moved j .done ∈ es ∧ (j.status = .pending ∨
      j.status = .running ∧ db.executions.get? k = none)) ∨
    j.managed = false ∨ db'.completedResult k := by
  have hput : ∀ {r old : ScanJob}, (db.jobs.put r).get? k = some j' →
      db.jobs.get? (Keyed.key r) = some old → j = old ∧ j' = r := fun hrow hold => by
    rcases Table.of_get?_put hold hrow with ⟨rfl, rfl⟩ | ⟨-, hsame⟩
    · exact ⟨Option.some.inj (hj.symm.trans hold), rfl⟩
    · obtain rfl := Option.some.inj (hj.symm.trans hsame)
      exact absurd hdone hne
  cases h with
  | patched rows emits =>
    left
    have hmoved : j'.status ≠ j.status := fun hsame => hne (hsame ▸ hdone)
    refine ⟨hdone ▸ emits k j j' hj hj' hmoved, ?_⟩
    obtain ⟨j₂, hj₂, hpatched⟩ := rows.forward hj
    obtain rfl := Option.some.inj (hj₂.symm.trans hj')
    obtain ⟨hpatchable, hfree⟩ := hpatched.moved hmoved
    have hid : j.id = k := Table.key_of_get? hj
    rw [hid] at hfree
    cases hstatus : j.status with
    | pending => exact .inl rfl
    | running => exact .inr ⟨rfl, hfree.resolve_left (by simp [hstatus])⟩
    | done => exact absurd hstatus hne
    | failed => simp [hstatus, JobStatus.patchable] at hpatchable
  | finished o now message execution opened job unmanaged =>
    obtain ⟨rfl, -⟩ := hput hj' (stored_key job rfl)
    exact .inr (.inl unmanaged)
  | claimed claims =>
    obtain ⟨-, rfl⟩ := hput hj' claims.stored_key
    obtain ⟨startedAt, caseSnapshot, rfl⟩ := claims.running
    cases hdone
  | registered registers =>
    obtain ⟨-, rfl⟩ := hput hj' registers.stored_key
    cases registers.status.symm.trans hdone
  | issued issues =>
    obtain ⟨-, rfl⟩ := hput hj' issues.running_key
    cases hdone
  | retained reports =>
    obtain ⟨rfl, rfl⟩ := hput hj' (stored_key reports.job (by rfl))
    exact absurd hdone hne
  | concluded reports stored =>
    rename_i outcome o row i locked finishedAt _
    obtain ⟨rfl, rfl⟩ := hput hj' (stored_key reports.job rfl)
    have hcompleted : outcome = .completed := by
      cases outcome with
      | completed => rfl
      | failed => cases hdone
      | cancelled => cases hdone
    obtain ⟨hcontract, hjob⟩ := reports.contract_stored
    have hid : o.job.id = k := Table.key_of_get? hj
    have hid' : o.job.id = _ := Table.key_of_get? reports.job
    refine .inr (.inr ⟨o.contract, Table.mem_of_get? hcontract, ?_, reports.consumed, _,
      Table.mem_of_get? (Table.get?_put_self (concluded_key stored _ _)), ?_, ?_⟩)
    · exact hjob.trans (hid'.symm.trans hid)
    · exact Table.key_of_get? stored
    · exact congrArg some hcompleted
  | ended reports =>
    obtain ⟨-, rfl⟩ := hput hj' (stored_key reports.job rfl)
    cases hdone
  | dropped keep =>
    have hj' : (db.jobs.filter keep).get? k = some j' := hj'
    rw [Table.get?_filter, Option.filter_eq_some_iff] at hj'
    obtain rfl := Option.some.inj (hj.symm.trans hj'.1)
    exact absurd hdone hne
  | queued queued stored =>
    have hkept := Table.get?_insert_of_get? stored hj
    obtain rfl := Option.some.inj (hkept.symm.trans hj')
    exact absurd hdone hne
  | _ =>
    obtain rfl := Option.some.inj (hj.symm.trans hj')
    exact absurd hdone hne

/-- A change keeps managed jobs vouched for, unless it sets a pending one to done. -/
theorem Vouched.step {db db' : Db} {es : List Event} (hendings : Endings db) (hdb : Vouched db) (h : Change rt db es db')
    (hes : ∀ j, .moved j .done ∈ es → j.authorizationContractRequired = true →
      j.status ≠ .pending) : Vouched db' := by
  intro j' hmem hmarked hdone
  have hj' := Table.get?_of_mem hmem
  rcases h.job_row hj' with ⟨hqueued, -, -⟩ | ⟨j, hj, hstep⟩
  · exact absurd (hqueued.status.symm.trans hdone) nofun
  have hrequired : j.status ≠ .pending → j.authorizationContractRequired = true := fun hne => by
    have hbound := hendings.required _ j hj
    cases hstep with
    | progress => exact hmarked.elim (fun h => h) hbound
    | started pending => exact absurd pending hne
    | bound pending => exact absurd pending hne
  have hid : j.id = j'.id := Table.key_of_get? hj
  by_cases hbefore : j.status = .done
  · have hmarked := hrequired (by rw [hbefore]; nofun)
    exact h.completedResult (hid ▸ hdb j (Table.mem_of_get? hj) (.inl hmarked) hbefore)
  · rcases h.done_row hj hj' hbefore hdone with ⟨hmoved, hopen⟩ | hunmanaged | hresult
    · rcases hopen with hpending | ⟨hrunning, hnone⟩
      · cases hstep with
        | progress =>
          exact absurd hpending (hes _ hmoved (hmarked.elim (fun h => h) (hendings.required _ j hj)))
        | started => cases hdone
        | bound => exact absurd (hpending.symm.trans hdone) nofun
      · -- a managed job that runs has an execution
        obtain ⟨x, hx⟩ := hendings.running _ j hj (hrequired (by rw [hrunning]; nofun)) hrunning
        rw [hnone] at hx
        cases hx
    · by_cases hpending : j.status = .pending
      · cases hstep with
        | progress =>
          have hrequired := hmarked.elim (fun h => h) (hendings.required _ j hj)
          exact absurd hrequired (by simp [required_of_managed_false hunmanaged])
        | started => cases hdone
        | bound => exact absurd (hpending.symm.trans hdone) nofun
      · exact absurd (hrequired hpending) (by simp [required_of_managed_false hunmanaged])
    · exact hresult

/-! ## Runs -/

/-- A status change that sets a pending job to done although the job requires a contract. -/
def Op.bypasses (op : Op) (rt : Runtime) (db : Db) : Prop :=
  ∃ jobId errorMessage j reply, op.call = .job (.update jobId ⟨some .done, errorMessage⟩) ∧
    (exec rt op db).2 = .ok reply ∧ db.jobs.get? jobId = some j ∧
    j.authorizationContractRequired = true ∧ j.status = .pending

/-- What the vouching of managed jobs rests on. -/
structure Vouching (db : Db) : Prop where
  sound : Sound db
  vouched : Vouched db

theorem Vouching.exec {op : Op} {db : Db} (hdb : Vouching db) (hop : ¬ op.bypasses rt db) :
    Vouching (exec rt op db).1 := by
  obtain ⟨es, hchanges, hemits⟩ := exec_changes rt op db
  let inv (fs : List Event) (db : Db) : Prop := fs ⊆ es → Vouching db
  have hstart : inv [] db := fun _ => hdb
  refine hchanges.traceInvariant inv (fun {db₁ db₂ fs gs} hdb hchange hsub => ?_) hstart
    (List.Subset.refl _)
  have hdb := hdb fun ev hev => hsub (List.mem_append_left _ hev)
  refine ⟨hdb.sound.step hchange,
    hdb.vouched.step hdb.sound.endings hchange fun j hj hrequired hpending => hop ?_⟩
  obtain ⟨errorMessage, reply, hcall, hreply, hstored, -⟩ :=
    hemits.done j (hsub (List.mem_append_right _ hj))
  exact ⟨j.id, errorMessage, j, reply, hcall, hreply, hstored, hrequired, hpending⟩

omit [Unicode] in
/-- A status change to another status writes it to the job. -/
theorem patchJob_row {clocks : Clocks} {db db' : Db} {j : ScanJob} {status : JobStatus}
    {errorMessage : Option String} {reply : Reply} (hne : status ≠ j.status)
    (h : patchJob clocks db j status errorMessage = .ok (db', reply)) :
    ∃ completedAt message,
      db' = db.putJob { j with status, completedAt, errorMessage := message } := by
  unfold patchJob at h
  rw [if_neg (by simp [hne])] at h
  obtain ⟨_, -, h⟩ := bind_eq_ok h
  obtain ⟨rfl, -⟩ := Prod.mk.inj (Except.ok.inj h)
  exact ⟨_, _, rfl⟩

/-- A pending managed job that a status change sets to done has no contract. -/
theorem bypasses_not_vouched {op : Op} {db : Db} (hendings : Endings db) (hmatched : Matched db)
    (h : op.bypasses rt db) : ¬ Vouched (VardrMap.exec rt op db).1 := by
  obtain ⟨jobId, errorMessage, j, reply, hcall, hreply, hj, hrequired, hpending⟩ := h
  have hnone := hmatched.pending hj hpending
  have hid : j.id = jobId := Table.key_of_get? hj
  simp only [VardrMap.exec, hcall, JobOp.run] at hreply ⊢
  cases hcommit : updateJob rt.toPlatform op.clocks op.request jobId ⟨some .done, errorMessage⟩
      db with
  | error e =>
    rw [hcommit] at hreply
    cases hreply
  | ok committed =>
    obtain ⟨db', reply'⟩ := committed
    obtain ⟨j', hj', hcontracts⟩ : ∃ j', db'.jobs.get? jobId = some j' ∧
        db'.contracts = db.contracts ∧ j'.authorizationContractRequired = true ∧
          j'.status = .done := by
      unfold updateJob at hcommit
      obtain ⟨user, -, h⟩ := bind_eq_ok hcommit
      obtain ⟨job, hjob, h⟩ := bind_eq_ok h
      obtain ⟨status, hstatus, h⟩ := bind_eq_ok h
      obtain ⟨e, -, h⟩ := bind_eq_ok h
      obtain rfl := Option.some.inj (hj.symm.trans (lockJob_eq_ok hjob).1)
      obtain rfl : JobStatus.done = status := Except.ok.inj hstatus
      rw [hnone] at h
      obtain ⟨completedAt, message, rfl⟩ := patchJob_row (by simp [hpending]) h
      have hkey : db.jobs.get? (Keyed.key { j with
          status := .done, completedAt, errorMessage := message }) = some j := stored_key hj rfl
      rw [← hid]
      exact ⟨_, Table.get?_put_self hkey, rfl, hrequired, rfl⟩
    obtain ⟨hcontracts, hrequired', hdone⟩ := hcontracts
    intro hvouched
    obtain ⟨c, hc, hjob, -⟩ := hvouched j' (Table.mem_of_get? hj') (.inl hrequired') hdone
    have hc : c ∈ db.contracts.rows := hcontracts ▸ hc
    have hid' : j'.id = jobId := Table.key_of_get? hj'
    rw [hid'] at hjob
    obtain ⟨-, x, hx⟩ := (hendings.contract _ c (Table.get?_of_mem hc)).2 j (hjob ▸ hj)
    rw [hjob, hnone] at hx
    cases hx

/-- In a run that no status change bypasses, every managed job that is done has a consumed
contract with a completed result, in every database on the way; and a run that one bypasses
leaves a database where that fails. -/
theorem done_through_result (rt : Runtime) (ops : List Op) :
    (∀ earlier, earlier <+: ops → Vouched (after rt earlier .empty)) ↔
      ∀ earlier op, earlier ++ [op] <+: ops → ¬ op.bypasses rt (after rt earlier .empty) := by
  constructor
  · intro hvouched earlier op hprefix hop
    have hreach : Reachable rt (after rt earlier .empty) := ⟨earlier, rfl⟩
    refine bypasses_not_vouched hreach.soundness.endings hreach.soundness.matched hop ?_
    have hafter := hvouched _ hprefix
    rwa [after_append] at hafter
  · intro hok earlier hprefix
    refine (after_induction Vouching (fun op db => ¬ op.bypasses rt db)
      (fun op db hdb hop => hdb.exec hop) (fun before op h => ?_)
      ⟨.empty, fun j hj => absurd hj List.not_mem_nil⟩).vouched
    exact hok before op (h.trans hprefix)

omit [Unicode] in
/-- A queued job that requires a contract is set to done by its owner, without a contract. -/
theorem done_without_result : ¬ ∀ (rt : Runtime) (ops : List Op),
    Vouched (@after Unicode.ascii rt ops .empty) := fun h =>
  absurd (h exampleRuntime (exampleSetup ++ [bySession (.job (.update "j1" ⟨some .done, none⟩))]))
    (by decide +kernel)

end VardrMap
