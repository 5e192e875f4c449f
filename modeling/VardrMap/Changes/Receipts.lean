import VardrMap.Changes.Observing

/-!
# Results are kept once

A runner that is not sure whether its result arrived sends it again. The first accepted result
of a job is the one that is kept, with its receipt: a repetition is answered with the same
receipt and stores nothing, and a different result is refused, until the job is deleted.
-/
namespace VardrMap
open Lib

variable [Unicode] {rt : Runtime}

/-! ## Uploads -/

/-- The receipt is one of this upload. -/
def JobResultReceipt.Accepts (r : JobResultReceipt) (p : Platform) (upload : GateUpload) : Prop :=
  ∃ payload legacy, p.payloadHashes upload = .ok (payload, legacy) ∧
    (r.payloadHash = payload ∨ r.payloadHash = legacy)

/-- An accepted upload of a result for a job. -/
def Uploads (rt : Runtime) (op : Op) (db : Db) (k : String) (upload : GateUpload) : Prop :=
  op.call = .job (.upload k upload) ∧ ∃ reply, (exec rt op db).2 = .ok reply

/-- Receipts stay, and those of handed out jobs only go with their jobs. -/
theorem Change.receipt {db db' : Db} {es : List Event} (h : Change rt db es db') {k : String}
    {r : JobResultReceipt} (hr : db.receipts.get? k = some r) (hk : k ∈ db.ids) :
    db'.deleted k ∨ db'.receipts.get? k = some r := by
  cases h with
  | filed job unmanaged inserted => exact .inr (Table.get?_insert_of_get? inserted hr)
  | retained reports inserted retains =>
    obtain ⟨receipt, -, hfiled⟩ := retains.filed
    exact .inr (Table.get?_insert_of_get? hfiled hr)
  | dropped keep =>
    have hid : r.jobId = k := Table.key_of_get? hr
    have hreceipt : (db.dropJobs keep).receipts.get? k =
        (some r).filter fun r => (db.jobs.get? r.jobId).any keep := by
      rw [← hr]
      exact Table.get?_filter ..
    have hjob : (db.dropJobs keep).jobs.get? k = (db.jobs.get? k).filter keep :=
      Table.get?_filter ..
    rw [Option.filter_some, hid] at hreceipt
    split at hreceipt
    · exact .inr hreceipt
    · rename_i hdropped
      refine .inl ⟨hk, ?_⟩
      rw [hjob, Option.filter_eq_none_iff]
      rintro j hj hkeep
      exact hdropped (by rw [hj, Option.any_some, hkeep])
  | _ => exact .inr hr

/-- The jobs of receipts were handed out. -/
def ReceiptsKnown (db : Db) : Prop := ∀ k r, db.receipts.get? k = some r → k ∈ db.ids

theorem ReceiptsKnown.step {db db' : Db} {es : List Event} (hdb : ReceiptsKnown db)
    (hknown : Known db) (h : Change rt db es db') : ReceiptsKnown db' := by
  intro k r hr
  rcases h.receipt_row hr with hold | ⟨j, hj, -⟩
  · exact h.ids_subset (hdb k r hold)
  · exact h.ids_subset (hknown.job hj).1

theorem Reachable.receiptsKnown {db : Db} (h : Reachable rt db) : ReceiptsKnown db :=
  (h.invariant (fun db => Known db ∧ ReceiptsKnown db)
    (fun hdb hchange => ⟨hdb.1.step hchange, hdb.2.step hdb.1 hchange⟩)
    ⟨.empty, fun _ _ hr => by cases hr⟩).2

/-- A receipt stays until its job is deleted. -/
theorem receipt_after {db : Db} {k : String} {r : JobResultReceipt}
    (hr : db.receipts.get? k = some r) (hk : k ∈ db.ids) (ops : List Op) :
    (after rt ops db).deleted k ∨ (after rt ops db).receipts.get? k = some r := by
  have hrun := after_invariant
    (fun db => k ∈ db.ids ∧ (db.deleted k ∨ db.receipts.get? k = some r))
    (fun {db₁ db₂ es} (hdb : k ∈ db₁.ids ∧ _) (hchange : Change rt db₁ es db₂) =>
      ⟨hchange.ids_subset hdb.1, hdb.2.elim (fun h => .inl (hchange.deleted h))
        fun h => hchange.receipt h hdb.1⟩)
    ⟨hk, .inr hr⟩ ops
  exact hrun.2

omit [Unicode] in
/-- A stored result is one of the upload: its receipt was there already and nothing changed, or
it is new. -/
theorem storeGateResult_receipt {p : Platform} {db db' : Db} {job : ScanJob} {upload : GateUpload}
    {retained : Retained} (h : storeGateResult p db job upload = .ok (db', retained)) :
    ∃ r, db'.receipts.get? job.id = some r ∧ r.Accepts p upload ∧
      (db.receipts.get? job.id = some r ∧ db' = db ∨ db.receipts.get? job.id = none) := by
  unfold storeGateResult at h
  obtain ⟨⟨payload, legacy⟩, hhashes, h⟩ := bind_eq_ok h
  dsimp only at h
  split at h
  · rename_i r hr
    obtain ⟨_, hsame, h⟩ := bind_eq_ok h
    obtain ⟨rfl, -⟩ := Prod.mk.inj (Except.ok.inj h)
    have hsame := ensure_eq_ok hsame
    simp only [Bool.or_eq_true, beq_iff_eq] at hsame
    exact ⟨r, hr, ⟨payload, legacy, hhashes, hsame⟩, .inl ⟨hr, rfl⟩⟩
  · rename_i hnone
    obtain ⟨filed, -, h⟩ := bind_eq_ok h
    obtain ⟨receipts, hinsert, h⟩ := bind_eq_ok h
    obtain ⟨rfl, -⟩ := Prod.mk.inj (Except.ok.inj h)
    have hinsert := found_eq_ok hinsert
    exact ⟨_, (Table.get?_insert hinsert _).trans (if_pos rfl),
      ⟨payload, legacy, hhashes, .inl rfl⟩, .inr hnone⟩

theorem Uploads.receipt {op : Op} {db : Db} {k : String} {upload : GateUpload}
    (h : Uploads rt op db k upload) :
    ∃ j r, db.jobs.get? k = some j ∧ (exec rt op db).1.receipts.get? k = some r ∧
      r.Accepts rt.toPlatform upload ∧
      (db.receipts.get? k = some r ∧ (exec rt op db).1 = db ∨ db.receipts.get? k = none) := by
  obtain ⟨hcall, reply, hreply⟩ := h
  simp only [exec, hcall, JobOp.run] at hreply ⊢
  cases hupload : uploadJobResult rt.toPlatform op.request k upload db with
  | error e => simp [hupload, settle] at hreply
  | ok committed =>
    obtain ⟨db', reply'⟩ := committed
    obtain ⟨user, -, hbody⟩ := bind_eq_ok hupload
    obtain ⟨j, hj, hbody⟩ := bind_eq_ok hbody
    obtain ⟨e, -, hbody⟩ := bind_eq_ok hbody
    obtain ⟨_, -, hbody⟩ := bind_eq_ok hbody
    obtain ⟨_, -, hbody⟩ := bind_eq_ok hbody
    obtain ⟨⟨db₁, retained⟩, hstore, hbody⟩ := bind_eq_ok hbody
    obtain ⟨rfl, -⟩ := Prod.mk.inj (Except.ok.inj hbody)
    obtain ⟨hj, -⟩ := lockJob_eq_ok hj
    have hid : j.id = k := Table.key_of_get? hj
    obtain ⟨r, hr, haccepts, hcases⟩ := storeGateResult_receipt hstore
    rw [hid] at hr hcases
    exact ⟨j, r, hj, hr, haccepts, hcases⟩

/-- An engagement with a case and an unmarked gate job for it. -/
def uploadOps : List Op := exampleSetup.dropLast ++ [
  bySession (.job (.create "e1" ⟨"j1", gateTool, "scope", .obj [("test_case_id", .str "c1")], none,
    false⟩))]

def exampleUpload : GateUpload := ⟨"", "c1", [], .null⟩

def resultUpload : Op := bySession (.job (.upload "j1" exampleUpload))

/-- An accepted submission of the result of a managed job, and the receipt that its caller
gets. -/
def Submits (rt : Runtime) (op : Op) (db : Db) (k : String) (a : Results.Artifact) (d : Json) :
    Prop :=
  ∃ (body : ControlRequest) (r : Report),
    op.call = .managed (.submit k body r a) ∧ (exec rt op db).2 = .ok (.document d)

/-- The receipt of a claim with a result of this artifact. -/
structure ClaimRows.Receipt (v : ClaimRows) (a : Results.Artifact) (d : Json) : Prop where
  result : ∃ row sha, v.result = some row ∧ Wire.digest v.contract.envelope = .ok sha ∧
    row.artifactSha256 = a.sha256 ∧
    d = Results.ack (Results.binding v.execution v.contract sha) row

omit [Unicode] in
/-- It stays the receipt of the claim. -/
theorem ClaimRows.Receipt.kept {v w : ClaimRows} {a : Results.Artifact} {d : Json}
    (h : v.Receipt a d) (hvw : v.Before w) : w.Receipt a d := by
  obtain ⟨row, sha, hrow, hsha, hartifact, rfl⟩ := h.result
  obtain ⟨row', hrow', hstep⟩ := hvw.result row hrow
  have hdigest : Wire.digest w.contract.envelope = .ok sha := by
    rcases hvw.contract with hc | hc <;> rw [hc, hsha]
  refine ⟨row', sha, hrow', hdigest, ?_, ?_⟩
  · rcases hstep with rfl | ⟨-, o, t, rfl⟩ <;> exact hartifact
  · rw [hvw.binding]
    rcases hstep with rfl | ⟨-, o, t, rfl⟩ <;> rfl

omit [Unicode] in
/-- A claim has one receipt, for one artifact. -/
theorem ClaimRows.Receipt.unique {v : ClaimRows} {a a' : Results.Artifact} {d d' : Json}
    (h : v.Receipt a d) (h' : v.Receipt a' d') : a'.sha256 = a.sha256 ∧ d' = d := by
  obtain ⟨row, sha, hrow, hsha, hartifact, rfl⟩ := h.result
  obtain ⟨row', sha', hrow', hsha', hartifact', rfl⟩ := h'.result
  obtain rfl := Option.some.inj (hrow.symm.trans hrow')
  obtain rfl := Except.ok.inj (hsha.symm.trans hsha')
  exact ⟨hartifact'.symm.trans hartifact, rfl⟩

/-- The rows that a report found are those of the claim. -/
theorem Reports.claimRows {issuer : Issuer} {request : HttpRequest} {jobId : String}
    {body : ControlRequest} {r : Report} {db : Db} {o : OwnedReport}
    (h : Reports issuer request jobId body r db o) :
    ClaimRows.Stored ⟨o.contract, o.approval, o.execution, db.results.get? o.contract.id,
      db.stops.get? o.contract.id⟩ db jobId where
  contract := h.contract_stored.1
  jobId := h.contract_stored.2
  approval := h.approval
  execution := h.execution
  result := rfl
  stop := rfl

/-- An accepted submission leaves the receipt of its claim; if there was one it changes only the
clock. -/
theorem submit_receipt {issuer : Issuer} {p : Platform} {clocks : Clocks} {request : HttpRequest}
    {jobId : String} {body : ControlRequest} {r : Report} {a : Results.Artifact} {db db' : Db}
    {d : Json}
    (h : Results.submit issuer p clocks request jobId body r a db = .ok (db', .document d)) :
    ∃ v w : ClaimRows, v.Stored db jobId ∧ w.Stored db' jobId ∧ w.Receipt a d ∧
      (v.result = none ∨ db' = db) := by
  unfold Results.submit at h
  obtain ⟨o, ho, h⟩ := bind_eq_ok h
  have ho := Results.ownedReport_eq_ok ho
  obtain ⟨⟨upload, caseSha256⟩, -, h⟩ := bind_eq_ok h
  dsimp only at h
  obtain ⟨row?, hrow, h⟩ := bind_eq_ok h
  have hrow := Results.retainedResult_eq_ok hrow
  split at h
  · rename_i row _
    obtain ⟨_, hsame, h⟩ := bind_eq_ok h
    obtain ⟨rfl, hd⟩ := Prod.mk.inj (Except.ok.inj h)
    have hsame := Wire.require_eq_ok hsame
    simp only [Bool.and_eq_true, beq_iff_eq] at hsame
    exact ⟨_, _, ho.claimRows, ho.claimRows, ⟨row, r.contractSha256, hrow, ho.digest, hsame.1,
      (Reply.document.inj hd).symm⟩, .inr rfl⟩
  · obtain ⟨_, -, h⟩ := bind_eq_ok h
    obtain ⟨⟨db₁, retained⟩, hstore, h⟩ := bind_eq_ok h
    dsimp only at h
    obtain ⟨receiptSha256, hreceipt, h⟩ := bind_eq_ok h
    obtain ⟨results, hresults, h⟩ := bind_eq_ok h
    obtain ⟨db₂, hlocked, h⟩ := bind_eq_ok h
    obtain ⟨rfl, hd⟩ := Prod.mk.inj (Except.ok.inj h)
    obtain ⟨t, ht, hle, rfl⟩ := lockedTime_eq_ok hlocked
    have hresult := (Table.get?_insert (found_eq_ok hresults) o.contract.id).trans (if_pos rfl)
    have hkept : db₁.contracts = db.contracts ∧ db₁.approvals = db.approvals ∧
        db₁.executions = db.executions := by
      rcases storeGateResult_eq_ok hstore with ⟨rfl, -⟩ | ⟨_, _, _, -, -, rfl⟩ <;>
        exact ⟨rfl, rfl, rfl⟩
    have hrows := ho.claimRows
    refine ⟨_, ⟨o.contract, o.approval, o.execution, results.get? o.contract.id,
      db₁.stops.get? o.contract.id⟩, hrows, {
      contract := hkept.1 ▸ hrows.contract
      jobId := hrows.jobId
      approval := hkept.2.1 ▸ hrows.approval
      execution := hkept.2.2 ▸ hrows.execution
      result := rfl
      stop := rfl }, ⟨_, r.contractSha256, hresult, ho.digest, rfl, (Reply.document.inj hd).symm⟩,
      .inl hrow⟩

theorem Submits.receipt {op : Op} {db : Db} {k : String} {a : Results.Artifact} {d : Json}
    (h : Submits rt op db k a d) :
    ∃ v w : ClaimRows, v.Stored db k ∧ w.Stored (exec rt op db).1 k ∧ w.Receipt a d ∧
      (v.result = none ∨ ∃ observed, (exec rt op db).1 = { db with observed }) := by
  obtain ⟨body, r, hcall, hreply⟩ := h
  obtain ⟨-, observed, db', hbody, hexec⟩ := exec_managed_ok hcall hreply
  obtain ⟨v, w, hv, hw, hreceipt, hcases⟩ := submit_receipt hbody
  rw [hexec]
  exact ⟨v, w, ⟨hv.contract, hv.jobId, hv.approval, hv.execution, hv.result, hv.stop⟩, hw,
    hreceipt, hcases.imp_right fun h => ⟨observed, h⟩⟩

/-- Submissions, over all runs. Once a submission for a managed job was accepted, every later
accepted submission for it has the same artifact, gets the same receipt, and changes nothing
but the clock. -/
theorem submissions_once (rt : Runtime) (earlier later : List Op) {op op' : Op} {k : String}
    {a a' : Results.Artifact} {d d' : Json} (h : Submits rt op (after rt earlier .empty) k a d)
    (h' : Submits rt op' (after rt (earlier ++ op :: later) .empty) k a' d') :
    let db := after rt (earlier ++ op :: later) .empty
    a'.sha256 = a.sha256 ∧ d' = d ∧ ∃ observed, (exec rt op' db).1 = { db with observed } := by
  intro db
  have hsound : Sound (exec rt op (after rt earlier .empty)).1 :=
    Sound.exec (Reachable.soundness ⟨earlier, rfl⟩) op
  have hdb : db = after rt later (exec rt op (after rt earlier .empty)).1 := by
    rw [← after_cons, ← after_append]
  obtain ⟨-, w, -, hw, hreceipt, -⟩ := h.receipt
  obtain ⟨v', w', hv', hw', hreceipt', hcases⟩ := h'.receipt
  rcases hw.after hsound later with hdeleted | ⟨u, hu, hwu⟩
  · -- the later submission has found its job
    obtain ⟨j, hj, -⟩ := (hdb ▸ hsound.after later).matched k _ hv'.execution
    rw [← hdb] at hdeleted
    exact absurd (hdeleted.2.symm.trans hj) nofun
  · rw [← hdb] at hu
    have hkept := hreceipt.kept hwu
    obtain rfl := hu.unique (hdb ▸ hsound.after later) hv'
    obtain ⟨row, -, hrow, -⟩ := hkept.result
    rcases hcases with hnone | ⟨observed, hsame⟩
    · exact absurd (hrow.symm.trans hnone) nofun
    · rw [hsame] at hw'
      have hw' : w'.Stored db k := ⟨hw'.contract, hw'.jobId, hw'.approval, hw'.execution,
        hw'.result, hw'.stop⟩
      obtain rfl := hu.unique (hdb ▸ hsound.after later) hw'
      obtain ⟨hartifact, hd⟩ := hkept.unique hreceipt'
      exact ⟨hartifact, hd, observed, hsame⟩

def resultConsumption : Op := byRunner (.managed (.consume "j1" deliveryBody
  deliveryReport.toAttemptRef deliveryReport.contractSha256))

def resultSubmission : Op :=
  byRunner (.managed (.submit "j1" deliveryBody deliveryReport deliveryArtifact))

/-- A reply is a document. -/
def isDocument : Except Refusal Reply → Bool
  | .ok (.document _) => true
  | _ => false

omit [Unicode] in
theorem exists_of_isDocument {reply : Except Refusal Reply} (h : isDocument reply = true) :
    ∃ d, reply = .ok (.document d) := by
  unfold isDocument at h
  split at h
  · exact ⟨_, rfl⟩
  · cases h

omit [Unicode] in
set_option maxRecDepth 10000 in
/-- The same submission, again after stop-work. -/
theorem submissions_once_stopped : ∃ db d observed, db = @after Unicode.ascii observedRuntime
      ((observedOps ++ [resultConsumption]) ++ resultSubmission :: [observedStop]) .empty ∧
    @exec Unicode.ascii observedRuntime resultSubmission db =
      ({ db with observed }, .ok (.document d)) := by
  let _ := Unicode.ascii
  have h : (fun db => isDocument (exec observedRuntime resultSubmission db).2 &&
      isDocument (exec observedRuntime resultSubmission
        (after observedRuntime (resultSubmission :: [observedStop]) db)).2)
      (after observedRuntime [resultConsumption]
        { deliveryClaimed.1 with receipts := .empty }) = true := by
    decide +kernel
  rw [← observedOps_claimed, ← after_append] at h
  simp only [← after_append, Bool.and_eq_true] at h
  obtain ⟨d, hd⟩ := exists_of_isDocument h.1
  obtain ⟨d', hd'⟩ := exists_of_isDocument h.2
  obtain ⟨-, rfl, observed, hsame⟩ := submissions_once observedRuntime
    (observedOps ++ [resultConsumption]) [observedStop] ⟨_, _, rfl, hd⟩ ⟨_, _, rfl, hd'⟩
  exact ⟨_, d', observed, rfl, Prod.ext hsame hd'⟩

end VardrMap
