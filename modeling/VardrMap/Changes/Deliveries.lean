import VardrMap.Changes.Endings

/-!
# Results that can be delivered

A consumed contract whose execution is active should find its job free of any result receipt.
Uploads stay away from jobs that are marked, but a job may hold the receipt of an upload
before it is marked; nothing else stands in the way of a submission.
-/
namespace VardrMap
open Lib

variable [Unicode] {rt : Runtime}

/-! ## The receipts of jobs -/

/-- A receipt was filed just now, for an unmanaged job or with a result of the job, or it is
a stored one. -/
theorem Change.receipt_row {db db' : Db} {es : List Event} (h : Change rt db es db') {k : String}
    {r' : JobResultReceipt} (hr' : db'.receipts.get? k = some r') :
    db.receipts.get? k = some r' ∨
      ∃ j, db.jobs.get? k = some j ∧
        (j.managed = false ∧ db'.jobs = db.jobs ∨
          ∃ i row, db'.results.get? i = some row ∧ row.jobId = k) := by
  cases h with
  | filed job unmanaged inserted =>
    rcases Table.of_get?_insert inserted hr' with ⟨rfl, rfl⟩ | hold
    · exact .inr ⟨_, job, .inl ⟨unmanaged, rfl⟩⟩
    · exact .inl hold
  | retained reports inserted retains =>
    obtain ⟨receipt, hjob, hfiled⟩ := retains.filed
    rcases Table.of_get?_insert hfiled hr' with ⟨rfl, rfl⟩ | hold
    · rename_i o _ _ _ _ _
      obtain ⟨upload, caseSha256, receiptSha256, retained, rfl, -⟩ := retains.row_eq
      have hstored : db.jobs.get? o.job.id = some o.job := stored_key reports.job rfl
      refine .inr ⟨o.job, ?_, .inr
        ⟨_, _, (Table.get?_insert inserted _).trans (if_pos rfl), hjob.symm⟩⟩
      rwa [← hjob] at hstored
    · exact .inl hold
  | dropped keep =>
    have hr' : (db.receipts.filter fun r => (db.jobs.get? r.jobId).any keep).get? k = some r' := hr'
    rw [Table.get?_filter, Option.filter_eq_some_iff] at hr'
    exact .inl hr'.1
  | _ => exact .inl hr'

/-- Receipts belong to jobs that were handed out, and the receipt of a marked job came with a
result of that job. -/
structure Receipted (db : Db) : Prop where
  known : ∀ k r, db.receipts.get? k = some r → k ∈ db.ids
  result : ∀ k j r, db.jobs.get? k = some j → db.receipts.get? k = some r →
    j.authorizationContractRequired = true → ∃ i row, db.results.get? i = some row ∧ row.jobId = k

omit [Unicode] in
theorem Receipted.empty : Receipted .empty where
  known := fun _ _ h => by cases h
  result := fun _ _ _ h => by cases h

/-- A change keeps the receipts of marked jobs with their results, unless it marks a job that
holds one. -/
theorem Receipted.step {db db' : Db} {es : List Event} (hknown : Known db) (hdb : Receipted db)
    (h : Change rt db es db') (hes : ∀ j, .bound j ∈ es → db.receipts.get? j.id = none) :
    Receipted db' where
  known := fun k r' hr' => by
    rcases h.receipt_row hr' with hr | ⟨j, hj, -⟩
    · exact h.ids_subset (hdb.known k r' hr)
    · exact h.ids_subset (hknown.job hj).1
  result := fun k j' r' hj' hr' hmarked => by
    have hstored : ∀ {i row}, db.results.get? i = some row → row.jobId = k →
        ∃ i row, db'.results.get? i = some row ∧ row.jobId = k := fun hrow hk => by
      obtain ⟨row', hrow', rfl | ⟨-, o, t, rfl⟩⟩ := h.result hrow
      · exact ⟨_, _, hrow', hk⟩
      · exact ⟨_, _, hrow', hk⟩
    have hk : k ∈ db.ids := by
      rcases h.receipt_row hr' with hr | ⟨j, hj, -⟩
      · exact hdb.known k r' hr
      · exact (hknown.job hj).1
    obtain ⟨j, hj, -⟩ := h.job_of_known hk hj'
    have hid : j.id = k := Table.key_of_get? hj
    rcases (h.job_events hj hj').marked hmarked with hbefore | ⟨hbound, hsame⟩
    · rcases h.receipt_row hr' with hr | ⟨j₁, hj₁, ⟨hunmanaged, -⟩ | hnew⟩
      · obtain ⟨i, row, hrow, hjob⟩ := hdb.result k j r' hj hr hbefore
        exact hstored hrow hjob
      · obtain rfl := Option.some.inj (hj.symm.trans hj₁)
        exact absurd hbefore (by simp [required_of_managed_false hunmanaged])
      · exact hnew
    · have hnone := hes j hbound
      rw [hid, ← hsame, hr'] at hnone
      cases hnone

/-- The contract of a report finds its job without a receipt while it has no result. -/
theorem Receipted.free {db : Db} (hsound : Sound db) (hdb : Receipted db) {issuer : Issuer}
    {request : HttpRequest} {jobId : String} {body : ControlRequest} {r : Report} {o : OwnedReport}
    (h : Reports issuer request jobId body r db o) (hfirst : db.results.get? o.contract.id = none) :
    db.receipts.get? jobId = none := by
  cases hreceipt : db.receipts.get? jobId with
  | none => rfl
  | some receipt =>
    obtain ⟨i, row, hrow, hjob⟩ := hdb.result jobId o.job receipt h.job hreceipt h.contractRequired
    obtain ⟨c, hc, -, hnames, -⟩ := hsound.endings.result i row hrow
    obtain ⟨hcontract, hnamed⟩ := h.contract_stored
    -- a job has one contract, so the result is that contract's
    have hid : i = o.contract.id :=
      hsound.issuance.one _ _ _ _ hc hcontract (hnames.jobId.symm.trans (hjob.trans hnamed.symm))
    rw [hid, hfirst] at hrow
    cases hrow

/-! ## Submissions -/

/-- The refusal of a submission whose job holds the receipt of another result. -/
def foreignReceipt : Refusal := .wire "foreign_result_receipt"

/-- A step that never ends in that refusal. -/
def Other {α : Type} (x : Except Refusal α) : Prop := x ≠ .error foreignReceipt

omit [Unicode] in
theorem other_ok {α : Type} (a : α) : Other (.ok a : Except Refusal α) := nofun

omit [Unicode] in
theorem Other.bind {α β : Type} {x : Except Refusal α} {f : α → Except Refusal β} (hx : Other x)
    (hf : ∀ a, x = .ok a → Other (f a)) : Other (x >>= f) := by
  cases x with
  | error e => exact fun h => hx (congrArg Except.error (Except.error.inj h))
  | ok a => exact hf a rfl

omit [Unicode] in
theorem other_ensure {condition : Bool} {refusal : Refusal} (h : refusal ≠ foreignReceipt) :
    Other (ensure condition refusal) := by
  unfold ensure
  split
  · exact other_ok ()
  · exact fun he => h (Except.error.inj he)

omit [Unicode] in
theorem other_found {α : Type} {row : Option α} {refusal : Refusal} (h : refusal ≠ foreignReceipt) :
    Other (found row refusal) := by
  cases row with
  | none => exact fun he => h (Except.error.inj he)
  | some a => exact other_ok a

omit [Unicode] in
theorem other_raise {α : Type} (x : Except Exn α) : Other (raise x) := by
  cases x <;> exact nofun

/-- The projection of a result into evidence raises no refusal of the managed protocol. -/
structure Platform.ProjectsPlainly (p : Platform) : Prop where
  hashes : ∀ upload reason, p.payloadHashes upload ≠ .error (.wire reason)
  files : ∀ db job upload reason, p.fileResult db job upload ≠ .error (.wire reason)

omit [Unicode] in
theorem other_storeGateResult {p : Platform} (hp : p.ProjectsPlainly) (db : Db) (job : ScanJob)
    (upload : GateUpload) : Other (storeGateResult p db job upload) := by
  unfold storeGateResult
  refine Other.bind (hp.hashes upload _) fun hashes _ => ?_
  dsimp only
  split
  · refine Other.bind (other_ensure ?_) fun _ _ => other_ok _
    exact nofun
  · refine Other.bind (hp.files db job upload _) fun filed _ => ?_
    refine Other.bind (other_found ?_) fun receipts _ => other_ok _
    exact nofun

omit [Unicode] in
theorem other_receiptHash (binding : List (String × Json)) (artifactSha256 caseSha256 : String) :
    Other (Results.receiptHash binding artifactSha256 caseSha256) := by
  unfold Results.receiptHash Wire.digest Wire.canonical
  split
  · exact other_ok _
  · exact fun h => absurd h (by simp [Except.map, foreignReceipt])

omit [Unicode] in
theorem other_now (clocks : Clocks) (i : ℕ) : Other (clocks.now i) := by
  unfold Clocks.now Wire.stamp Wire.require
  refine ((other_ensure (by simp [foreignReceipt])).bind fun _ _ => other_raise _).bind fun _ _ => ?_
  exact (other_ensure (by simp [foreignReceipt])).bind fun _ _ =>
    (other_raise _).bind fun _ _ => other_raise _

omit [Unicode] in
theorem other_lockedTime (clocks : Clocks) (i : ℕ) (db : Db) : Other (lockedTime clocks i db) :=
  (other_now clocks i).bind fun _ _ =>
    (other_ensure (by simp [foreignReceipt])).bind fun _ _ => other_ok _

/-- A first submission with the artifact of its contract. -/
structure FirstSubmission (rt : Runtime) (request : HttpRequest) (jobId : String)
    (body : ControlRequest) (r : Report) (a : Results.Artifact) (db : Db) (o : OwnedReport) :
    Prop where
  owned : Results.ownedReport rt.issuer request jobId body r db = .ok o
  active : o.execution.state = .active
  first : db.results.get? o.contract.id = none
  artifact : ∃ upload, Results.boundUpload rt.toPlatform o a = .ok upload

/-- Every first submission gets past the receipt of its job. -/
def Delivers (rt : Runtime) (db : Db) : Prop :=
  ∀ clocks request jobId body r a o, FirstSubmission rt request jobId body r a db o →
    Results.submit rt.issuer rt.toPlatform clocks request jobId body r a db ≠ .error foreignReceipt

/-- While its job holds no receipt a submission is not refused for one. -/
theorem FirstSubmission.other {request : HttpRequest} {jobId : String} {body : ControlRequest}
    {r : Report} {a : Results.Artifact} {db : Db} {o : OwnedReport} (hrt : rt.ProjectsPlainly)
    (h : FirstSubmission rt request jobId body r a db o) (hfree : db.receipts.get? jobId = none)
    (clocks : Clocks) :
    Other (Results.submit rt.issuer rt.toPlatform clocks request jobId body r a db) := by
  obtain ⟨upload, hupload⟩ := h.artifact
  have hfirst : Results.retainedResult db o r.contractSha256 = .ok none := by
    rw [Results.retainedResult, h.first]
  have hguard : Wire.require (db.receipts.get? jobId).isNone "foreign_result_receipt" = .ok () := by
    rw [hfree]
    rfl
  unfold Results.submit
  refine Other.bind (h.owned ▸ other_ok o) fun o' ho' => ?_
  obtain rfl := Except.ok.inj (h.owned.symm.trans ho')
  refine Other.bind (hupload ▸ other_ok upload) fun upload' _ => ?_
  dsimp only
  refine Other.bind (hfirst ▸ other_ok none) fun row hrow => ?_
  obtain rfl := Except.ok.inj (hfirst.symm.trans hrow)
  refine Other.bind (hguard ▸ other_ok ()) fun _ _ => ?_
  refine Other.bind (other_storeGateResult hrt db o.job upload'.1) fun stored _ => ?_
  refine Other.bind (other_receiptHash _ _ _) fun receiptSha256 _ => ?_
  refine Other.bind (other_found nofun) fun results _ => ?_
  exact Other.bind (other_lockedTime _ _ _) fun _ _ => other_ok _

/-! ## Runs -/

/-- An operation registers an approval for a pending job that holds a receipt already. -/
def Op.adoptsReceipt (op : Op) (rt : Runtime) (db : Db) : Prop :=
  ∃ j, op.Binds rt db j ∧ (db.receipts.get? j.id).isSome

/-- What the delivery of results rests on. -/
structure Deliveries (db : Db) : Prop where
  sound : Sound db
  receipted : Receipted db

theorem Deliveries.step {db db' : Db} {es : List Event} (hdb : Deliveries db)
    (h : Change rt db es db') (hes : ∀ j, .bound j ∈ es → db.receipts.get? j.id = none) :
    Deliveries db' :=
  ⟨hdb.sound.step h, hdb.receipted.step hdb.sound.known h hes⟩

/-- Changes that mark no job keep it. -/
theorem Deliveries.run {db db' : Db} {es : List Event} (hdb : Deliveries db)
    (h : Changes rt db es db') (hes : ∀ j, .bound j ∉ es) : Deliveries db' := by
  let inv (fs : List Event) (db : Db) : Prop := fs ⊆ es → Deliveries db
  have hstart : inv [] db := fun _ => hdb
  refine h.traceInvariant inv (fun hdb hchange hsub => ?_) hstart (List.Subset.refl _)
  exact (hdb fun ev hev => hsub (List.mem_append_left _ hev)).step hchange
    fun j hj => absurd (hsub (List.mem_append_right _ hj)) (hes j)

theorem Deliveries.exec {op : Op} {db : Db} (hdb : Deliveries db)
    (hop : ¬ op.adoptsReceipt rt db) : Deliveries (exec rt op db).1 := by
  obtain ⟨es, hchanges, hemits⟩ := exec_changes rt op db
  by_cases hbound : ∃ j, .bound j ∈ es
  · -- a registration: the receipts are those that the operation found
    obtain ⟨j, hj⟩ := hbound
    have hbinds := hemits.bound j hj
    obtain ⟨r, hcall, hr⟩ := hbinds.call
    obtain ⟨reply, hreply⟩ := hbinds.accepted
    obtain ⟨-, observed, db', hbody, hexec⟩ := exec_managed_ok hcall hreply
    rw [hexec]
    have hseen : Deliveries { db with observed } :=
      hdb.run (@changes_observed _ rt db observed) fun _ => List.not_mem_nil
    obtain ⟨t, -, rfl⟩ | ⟨i, hi, rfl⟩ := register_eq_ok hbody
    · exact hseen.run (@changes_observed _ rt _ _) fun _ => List.not_mem_nil
    · refine hseen.step (.registered hi) fun j' hj' => ?_
      obtain rfl : j' = i.job := by simpa using hj'
      by_contra hsome
      refine hop ⟨i.job, ⟨⟨r, hcall, (Table.key_of_get? hi.job).symm⟩, ⟨reply, hreply⟩,
        stored_key hi.job rfl, hi.status⟩, ?_⟩
      rwa [← Option.ne_none_iff_isSome]
  · exact hdb.run hchanges fun j hj => hbound ⟨j, hj⟩

/-- In a run that never marks a job with a receipt, every database on the way lets the
results of its consumed contracts in. -/
theorem delivers_unless_adopted (rt : Runtime) (hrt : rt.ProjectsPlainly) (ops : List Op)
    (hok : ∀ earlier op, earlier ++ [op] <+: ops → ¬ op.adoptsReceipt rt (after rt earlier .empty)) :
    ∀ earlier, earlier <+: ops → Delivers rt (after rt earlier .empty) := by
  intro earlier hprefix clocks request jobId body r a o h
  have hdb : Deliveries (after rt earlier .empty) :=
    after_induction Deliveries (fun op db => ¬ op.adoptsReceipt rt db)
      (fun op db hdb hop => hdb.exec hop) (fun before op h => hok before op (h.trans hprefix))
      ⟨.empty, .empty⟩
  exact h.other hrt (hdb.receipted.free hdb.sound (Results.ownedReport_eq_ok h.owned) h.first) clocks

/-! ## An upload before the registration -/

/-- A runtime that reads uploads of the example's case, with contracts of a short text. -/
def deliveryRuntime : Runtime := { exampleRuntime with
  wire := { exampleWire with encode := fun _ => "text" }
  parseUpload := fun _ => .ok ⟨exampleCaseHash, "c1", [], .null⟩ }

def deliveryBody : ControlRequest := { exampleBody with token := "token-1" }

def deliveryReport : Report :=
  ⟨⟨"contract-1", "attempt-1", 1⟩, "72c68e27276121ff45f7c25409dfe6ac9553f9e97282a16172f46b2109af6414"⟩

def deliveryArtifact : Results.Artifact :=
  ⟨"x", "2d711642b726b04401627ca9fbac32f5c8530fb1903cc4db02258717921a4881"⟩

/-- An unmarked gate job, a result for it, and then its approval, claim and consumption. -/
def deliveryOps : List Op := exampleSetup.dropLast ++ [
  bySession (.job (.create "e1" ⟨"j1", gateTool, "scope", .obj [("test_case_id", .str "c1")], none,
    false⟩)),
  bySession (.job (.upload "j1" ⟨"", "c1", [], .null⟩)),
  exampleRegister, exampleClaim,
  byRunner (.managed (.consume "j1" deliveryBody deliveryReport.toAttemptRef
    deliveryReport.contractSha256))]

omit [Unicode] in
theorem deliveryRuntime_projectsPlainly : deliveryRuntime.ProjectsPlainly where
  hashes := fun upload reason h => by
    have hok : deliveryRuntime.payloadHashes upload = .ok ("payload", "payload") := rfl
    rw [hok] at h
    cases h
  files := fun db job upload reason h => by
    have hok : deliveryRuntime.fileResult db job upload = .ok ⟨.null, 0, 1⟩ := rfl
    rw [hok] at h
    cases h

omit [Unicode] in
/-- Up to a registration nothing of the example has filed a receipt. -/
theorem delivers_unless_adopted_example : @Delivers Unicode.ascii deliveryRuntime
    (@after Unicode.ascii deliveryRuntime (exampleSetup ++ [exampleRegister]) .empty) := by
  let _ := Unicode.ascii
  refine delivers_unless_adopted deliveryRuntime deliveryRuntime_projectsPlainly _
    (fun earlier op hprefix hop => ?_) _ List.prefix_rfl
  obtain ⟨j, hbinds, hreceipt⟩ := hop
  obtain ⟨r, hcall, -⟩ := hbinds.call
  rcases List.prefix_concat_iff.mp hprefix with heq | hsetup
  · obtain ⟨rfl, -⟩ := List.append_inj' heq rfl
    have hnone : (after deliveryRuntime exampleSetup .empty).receipts.rows = [] := by decide +kernel
    simp [Table.get?, hnone] at hreceipt
  · have hmem : op ∈ exampleSetup := hsetup.subset (by simp)
    obtain ⟨call, hcalls, rfl⟩ := List.mem_map.mp hmem
    simp only [List.mem_cons, List.not_mem_nil, or_false] at hcalls
    rcases hcalls with rfl | rfl | rfl | rfl | rfl | rfl | rfl | rfl | rfl <;> cases hcall

/-- A submission is owned and has the artifact of its active contract without a result. -/
def firstSubmission? (rt : Runtime) (request : HttpRequest) (jobId : String)
    (body : ControlRequest) (r : Report) (a : Results.Artifact) (db : Db) : Bool :=
  match Results.ownedReport rt.issuer request jobId body r db with
  | .ok o => o.execution.state == .active && (db.results.get? o.contract.id).isNone &&
      (Results.boundUpload rt.toPlatform o a).toOption.isSome
  | .error _ => false

theorem exists_firstSubmission {request : HttpRequest} {jobId : String} {body : ControlRequest}
    {r : Report} {a : Results.Artifact} {db : Db}
    (h : firstSubmission? rt request jobId body r a db = true) :
    ∃ o, FirstSubmission rt request jobId body r a db o := by
  unfold firstSubmission? at h
  split at h
  · rename_i o ho
    simp only [Bool.and_eq_true, beq_iff_eq, Option.isNone_iff_eq_none] at h
    refine ⟨o, ho, h.1.1, h.1.2, ?_⟩
    cases hupload : Results.boundUpload rt.toPlatform o a with
    | ok upload => exact ⟨upload, rfl⟩
    | error e => simp [hupload, Except.toOption] at h
  · cases h

omit [Unicode] in
/-- What a part of the run leaves behind. -/
abbrev Leaves (ops : List Op) (before : Db) : Type :=
  { db : Db // @after Unicode.ascii deliveryRuntime ops before = db }

omit [Unicode] in
set_option maxRecDepth 10000 in
/-- The upload is accepted while the job is not marked, and does not keep the approval out. -/
def deliveryApproved : Leaves (deliveryOps.take 11) .empty :=
  ⟨{ exampleApproved with receipts := .single ⟨"j1", "payload", 0, 1⟩ }, by decide +kernel⟩

omit [Unicode] in
set_option maxRecDepth 10000 in
/-- The claim issues the contract. -/
def deliveryClaimed : Leaves ((deliveryOps.drop 11).take 1) deliveryApproved.1 :=
  ⟨{ deliveryApproved.1 with
    ids := "contract-1" :: exampleApproved.ids
    engagements := .single {
      id := "e1", ownerGithubId := "u1", orgId := some "o1", engagementType := some "pentest"
      engagementStatus := some "active", startsAt := none, endsAt := none, stopWorkAt := none
      maxRequestRate := none, concurrencyLimit := some 1, targetLimit := some 10
      targetsSpent := 1, durationLimit := some 600, durationAllocated := 30
      managedAuthorityRevision := 5 }
    jobs := .single {
      id := "j1", programId := "e1", toolType := gateTool, targetSource := "scope"
      config := .obj [("test_case_id", .str "c1")], caseSnapshot := exampleSpec
      managedApprovalId := some "map-1:ap-1", authorizationContractRequired := true
      assessment := .null, status := .running, dependsOn := none
      createdAt := 63900000000000000, startedAt := some 63900000000000000, completedAt := none
      errorMessage := "" }
    executions := .single {
      jobId := "j1", runnerId := "r1", origin := "https://map.example.org", owner := "u1"
      principalHash := "2d55c769570fa7952db6adf55a438b2c6d705e5dac3f5c771029e3df40f3578a"
      tokenHash := "3f08aace122ee2368432c1ca23a049bc640bafbf00fdf33a52429f38ba12dbf9"
      expiresAt := 63900000010000000, state := .active, capacityReserved := true
      targetCharge := 1
      targetBinding := .obj [
        ("profile", .str "gate-fixed-http/1"), ("case_sha256", .str exampleCaseHash),
        ("origins", .arr [.str "https://app.example.com:443"])]
      durationSeconds := 30 }
    approvals := .single { exampleRow with issued := 1 }
    contracts := .single {
      id := "contract-1", jobId := "j1", approvalRecordId := "map-1:ap-1", ordinal := 1
      attemptId := "attempt-1", fence := 1
      envelope := .obj [
        ("format", .str "vardr.authorization-envelope/1"), ("purpose", .str "contract"),
        ("payload", .str "text"), ("signature", .str "signature")]
      consumed := false } }, by decide +kernel⟩

omit [Unicode] in
set_option maxRecDepth 10000 in
/-- The upload is accepted while the job is not marked, and shuts out the result of the
contract. -/
theorem not_delivers : ¬ ∀ (rt : Runtime) (ops : List Op), rt.ProjectsPlainly →
    @Delivers Unicode.ascii rt (@after Unicode.ascii rt ops .empty) := by
  let _ := Unicode.ascii
  intro hall
  have h : (fun db => firstSubmission? deliveryRuntime ⟨some "Bearer vmap_k1", none⟩ "j1"
        deliveryBody deliveryReport deliveryArtifact db &&
      refusal? (Results.submit deliveryRuntime.issuer deliveryRuntime.toPlatform exampleClocks
        ⟨some "Bearer vmap_k1", none⟩ "j1" deliveryBody deliveryReport deliveryArtifact db) ==
          some foreignReceipt)
      (after deliveryRuntime ((deliveryOps.drop 11).drop 1) deliveryClaimed.1) = true := by
    decide +kernel
  rw [← deliveryClaimed.2, ← after_append, List.take_append_drop, ← deliveryApproved.2,
    ← after_append, List.take_append_drop] at h
  simp only [Bool.and_eq_true, beq_iff_eq] at h
  obtain ⟨o, ho⟩ := exists_firstSubmission h.1
  exact hall deliveryRuntime deliveryOps deliveryRuntime_projectsPlainly exampleClocks _ _ _ _ _ o
    ho (refusal?_eq_some.mp h.2)

end VardrMap
