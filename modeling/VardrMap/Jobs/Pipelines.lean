import VardrMap.Jobs.Accepted
import VardrMap.Operations

/-!
# Pipelines and their jobs

A pipeline queues a list of jobs at once, each waiting on the one before it. Its route repeats
the checks of the route that queues one job, all but the policy check: under stop-work a job is
refused, and the same job as a stage is not.
-/
namespace VardrMap
open Lib Policy

variable [Unicode]

/-! ## The policy check -/

omit [Unicode] in
/-- Without stop-work no gate names it. -/
theorem evaluateEngagement_reason {candidate : PolicyInput} (h : candidate.stopWork = false) :
    (evaluateEngagement candidate).reason ≠ .stopWorkActive := by
  unfold evaluateEngagement evaluateAuthorization deny
  rw [h, if_neg Bool.false_ne_true]
  repeat' split
  all_goals exact nofun

theorem evaluateScope_reason {candidate : PolicyInput} {kind : TargetKind} {value : Text}
    {d : PolicyDecision} (h : evaluateScope candidate kind value = .ok d) :
    d.reason ≠ .stopWorkActive := by
  obtain ⟨excluded, -, h⟩ := bind_eq_ok h
  cases excluded with
  | some rule => exact Except.ok.inj h ▸ nofun
  | none =>
    obtain ⟨included, -, h⟩ := bind_eq_ok h
    cases included with
    | some rule => exact Except.ok.inj h ▸ nofun
    | none => exact Except.ok.inj h ▸ nofun

theorem evaluate_reason {candidate : PolicyInput} {d : PolicyDecision}
    (hstop : candidate.stopWork = false) (h : evaluate candidate = .ok d) :
    d.reason ≠ .stopWorkActive := by
  unfold evaluate at h
  dsimp only at h
  split at h
  · exact Except.ok.inj h ▸ evaluateEngagement_reason hstop
  · split at h
    · exact Except.ok.inj h ▸ nofun
    · exact evaluateScope_reason h

theorem evaluateTargets_reason {candidate : PolicyInput} {targets : List Text}
    {d : PolicyDecision} (hstop : candidate.stopWork = false)
    (h : evaluateTargets candidate targets = .ok d) : d.reason ≠ .stopWorkActive := by
  induction targets with
  | nil => exact Except.ok.inj h ▸ nofun
  | cons target targets ih =>
    obtain ⟨d', hd', h⟩ := bind_eq_ok h
    split at h
    · exact ih h
    · have hstop' : ({ candidate with target } : PolicyInput).stopWork = false := hstop
      exact Except.ok.inj h ▸ evaluate_reason hstop' hd'

theorem evaluateAll_reason {candidate : PolicyInput} {targets : List Text} {d : PolicyDecision}
    (hstop : candidate.stopWork = false) (h : evaluateAll candidate targets = .ok d) :
    d.reason ≠ .stopWorkActive := by
  unfold evaluateAll at h
  dsimp only at h
  split at h
  · exact Except.ok.inj h ▸ evaluateEngagement_reason hstop
  · exact evaluateTargets_reason hstop h

/-- The policy check refuses stop-work, and targets that the policy cannot read. -/
theorem enforcementCheck_ok_iff {db : Db} {e : Engagement} {capability : String}
    {targets : List Text} {now : DateTime} :
    (∃ finding, enforcementCheck db e capability targets now = .ok finding) ↔
      e.stopWorkAt = none ∧
        ∃ d, evaluateAll (policyInput db e capability now) targets = .ok d := by
  constructor
  · rintro ⟨finding, h⟩
    refine ⟨enforcementCheck_eq_ok h, ?_⟩
    obtain ⟨d, hd, -⟩ := bind_eq_ok h
    exact ⟨d, raise_eq_ok hd⟩
  · rintro ⟨hstop, d, hd⟩
    have hreason : (d.reason != .stopWorkActive) = true :=
      bne_iff_ne.mpr (evaluateAll_reason (by simp [policyInput, hstop]) hd)
    have hraise : raise (evaluateAll (policyInput db e capability now) targets) = .ok d := by
      rw [hd]
      rfl
    cases hallowed : d.allowed with
    | true => exact ⟨none, bind_eq_ok_iff.mpr ⟨d, hraise, by rw [hallowed]; rfl⟩⟩
    | false =>
      refine ⟨some d, bind_eq_ok_iff.mpr ⟨d, hraise, ?_⟩⟩
      rw [hallowed]
      exact bind_eq_ok_iff.mpr ⟨(), ensure_eq_ok_iff.mpr hreason, rfl⟩

/-! ## Rows -/

/-- An identifier under which a job can be queued. -/
structure Available (db : Db) (id : String) : Prop where
  minted : mint db id = .ok ()
  absent : db.jobs.get? id = none

theorem exists_enqueue {db : Db} {job : ScanJob} (h : Available db job.id) :
    ∃ db', enqueue db job = .ok db' := by
  obtain ⟨jobs, hjobs⟩ := Table.exists_insert h.absent
  refine ⟨{ db.minted job.id with jobs }, bind_eq_ok_iff.mpr ⟨(), h.minted, ?_⟩⟩
  rw [hjobs]
  rfl

/-- What queueing one row leaves: the row at the end, and everything else as it was. -/
theorem enqueue_rows {db db' : Db} {job : ScanJob} (h : enqueue db job = .ok db') :
    Available db job.id ∧ db'.jobs.rows = db.jobs.rows ++ [job] ∧
      db' = { db with jobs := db'.jobs, ids := job.id :: db.ids } := by
  obtain ⟨_, hmint, h⟩ := bind_eq_ok h
  obtain ⟨jobs, hjobs, h⟩ := bind_eq_ok h
  obtain rfl := Except.ok.inj h
  have hjobs := found_eq_ok hjobs
  exact ⟨⟨hmint, Table.get?_of_insert hjobs⟩, Table.rows_of_insert hjobs, rfl⟩

/-- The rows of the stages, in order. -/
def stageRows (e : Engagement) (createdAt : Instant) :
    Option String → List (JobCreate × Json) → List ScanJob
  | _, [] => []
  | previous, (c, config) :: stages =>
    c.row e.id config previous createdAt :: stageRows e createdAt (some c.id) stages

/-- An identifier stays available when a job is queued under another one. -/
theorem available_enqueue {db db' : Db} {job : ScanJob} (h : enqueue db job = .ok db')
    {id : String} (hne : id ≠ job.id) : Available db' id ↔ Available db id := by
  obtain ⟨_, -, h⟩ := bind_eq_ok h
  obtain ⟨jobs, hjobs, h⟩ := bind_eq_ok h
  obtain rfl := Except.ok.inj h
  have hget : jobs.get? id = db.jobs.get? id :=
    (Table.get?_insert (found_eq_ok hjobs) id).trans (if_neg fun hid => hne hid.symm)
  have hmint : mint { db.minted job.id with jobs } id = mint db id := by
    simp [mint, Db.minted, hne]
  constructor
  · exact fun h => ⟨hmint ▸ h.minted, hget ▸ h.absent⟩
  · exact fun h => ⟨hmint ▸ h.minted, hget ▸ h.absent⟩

theorem enqueueStages_rows {e : Engagement} {createdAt : Instant} {previous : Option String}
    {stages : List (JobCreate × Json)} {db db' : Db}
    (h : enqueueStages e createdAt previous stages db = .ok db') :
    db'.jobs.rows = db.jobs.rows ++ stageRows e createdAt previous stages ∧
      db' = { db with jobs := db'.jobs, ids := db'.ids } := by
  induction stages generalizing previous db with
  | nil =>
    obtain rfl := Except.ok.inj h
    exact ⟨(List.append_nil _).symm, rfl⟩
  | cons stage stages ih =>
    obtain ⟨c, config⟩ := stage
    obtain ⟨db₁, hqueue, h⟩ := bind_eq_ok h
    obtain ⟨-, hrows, hdb₁⟩ := enqueue_rows hqueue
    obtain ⟨hrows', hdb'⟩ := ih h
    refine ⟨by rw [hrows', hrows, stageRows, List.append_assoc, List.singleton_append], ?_⟩
    rw [hdb', hdb₁]

/-- Stages under distinct identifiers are queued if and only if each of them could be. -/
theorem enqueueStages_ok_iff {e : Engagement} {createdAt : Instant} {previous : Option String}
    {stages : List (JobCreate × Json)} {db : Db}
    (hids : (stages.map fun s => s.1.id).Nodup) :
    (∃ db', enqueueStages e createdAt previous stages db = .ok db') ↔
      ∀ s ∈ stages, Available db s.1.id := by
  induction stages generalizing previous db with
  | nil => exact ⟨fun _ _ hs => absurd hs List.not_mem_nil, fun _ => ⟨db, rfl⟩⟩
  | cons stage stages ih =>
    obtain ⟨c, config⟩ := stage
    obtain ⟨hhead, htail⟩ := List.nodup_cons.mp hids
    have hother : ∀ s ∈ stages, s.1.id ≠ (c.row e.id config previous createdAt).id :=
      fun s hs hid => hhead (List.mem_map.mpr ⟨s, hs, hid⟩)
    rw [List.forall_mem_cons]
    constructor
    · rintro ⟨db', h⟩
      obtain ⟨db₁, hqueue, h⟩ := bind_eq_ok h
      refine ⟨(enqueue_rows hqueue).1, fun s hs => ?_⟩
      exact (available_enqueue hqueue (hother s hs)).mp ((ih htail).mp ⟨db', h⟩ s hs)
    · rintro ⟨hc, hstages⟩
      have hc : Available db (c.row e.id config previous createdAt).id := hc
      obtain ⟨db₁, hqueue⟩ := exists_enqueue hc
      obtain ⟨db', h⟩ := (@ih (some c.id) db₁ htail).mpr fun s hs =>
        (available_enqueue hqueue (hother s hs)).mpr (hstages s hs)
      exact ⟨db', bind_eq_ok_iff.mpr ⟨db₁, hqueue, h⟩⟩

/-! ## Both routes -/

/-- The stage as a job of its own. -/
def JobCreate.alone (c : JobCreate) : JobCreate := { c with dependsOn := none }

/-- The caller may write to the engagement. -/
def Writes (p : Platform) (request : HttpRequest) (programId : String) (db : Db)
    (e : Engagement) : Prop :=
  ∃ user, getCurrentUser p.identity db request = .ok user ∧
    writableEngagement db programId user = .ok e

theorem Writes.unique {p : Platform} {request : HttpRequest} {programId : String} {db : Db}
    {e e' : Engagement} (h : Writes p request programId db e) (h' : Writes p request programId db e') :
    e = e' := by
  obtain ⟨user, huser, he⟩ := h
  obtain ⟨user', huser', he'⟩ := h'
  obtain rfl := Except.ok.inj (huser.symm.trans huser')
  exact Except.ok.inj (he.symm.trans he')

/-- The checks that both routes make of a stage, and the configuration that they store. -/
structure CheckedStage (db : Db) (e : Engagement) (c : JobCreate) (config : Json) : Prop where
  tool : validTools.contains c.toolType = true
  source : (c.targetSource == "scope" || c.targetSource == "recon") = true
  config : validatedConfig db e c = .ok config

/-- A stage that both routes could queue. -/
structure Queueable (db : Db) (e : Engagement) (c : JobCreate) (config : Json) : Prop extends
    CheckedStage db e c config where
  id : Available db c.id

/-- The policy check passes. -/
def PolicyReturns (p : Platform) (clocks : Clocks) (db : Db) (e : Engagement) (c : JobCreate)
    (config : Json) : Prop :=
  ∃ finding, enforcementCheck db e c.toolType
    (p.resolveTargets db (c.row e.id config none (clocks.wall 0).instant)) (clocks.wall 0) =
      .ok finding

section
variable {p : Platform} {clocks : Clocks} {request : HttpRequest} {programId : String} {db : Db}

/-- What the single route accepts, without a contract flag. -/
theorem createJob_ok_iff {c : JobCreate} (hflag : c.contractRequired = false) {db' : Db}
    {reply : Reply} : createJob p clocks request programId c.alone db = .ok (db', reply) ↔
      ∃ e config, Writes p request programId db e ∧ Queueable db e c config ∧
        PolicyReturns p clocks db e c config ∧
        enqueue db (c.row e.id config none (clocks.wall 0).instant) = .ok db' ∧
        .stored = reply := by
  constructor
  · intro h
    obtain ⟨user, huser, h⟩ := bind_eq_ok h
    obtain ⟨e, he, h⟩ := bind_eq_ok h
    obtain ⟨_, htool, h⟩ := bind_eq_ok h
    obtain ⟨_, -, h⟩ := bind_eq_ok h
    obtain ⟨_, hsource, h⟩ := bind_eq_ok h
    obtain ⟨config, hconfig, h⟩ := bind_eq_ok h
    dsimp only at h
    obtain ⟨_, -, h⟩ := bind_eq_ok h
    obtain ⟨finding, hfinding, h⟩ := bind_eq_ok h
    obtain ⟨db₁, hqueue, h⟩ := bind_eq_ok h
    obtain ⟨rfl, rfl⟩ := Prod.mk.inj (Except.ok.inj h)
    exact ⟨e, config, ⟨user, huser, he⟩,
      ⟨⟨ensure_eq_ok htool, ensure_eq_ok hsource, hconfig⟩, (enqueue_rows hqueue).1⟩,
      ⟨finding, hfinding⟩, hqueue, rfl⟩
  · rintro ⟨e, config, ⟨user, huser, he⟩, hc, ⟨finding, hfinding⟩, hqueue, rfl⟩
    refine bind_eq_ok_iff.mpr ⟨user, huser, bind_eq_ok_iff.mpr ⟨e, he, ?_⟩⟩
    refine bind_eq_ok_iff.mpr ⟨(), ensure_eq_ok_iff.mpr hc.tool, ?_⟩
    refine bind_eq_ok_iff.mpr ⟨(), ensure_eq_ok_iff.mpr (by simp [JobCreate.alone, hflag]), ?_⟩
    refine bind_eq_ok_iff.mpr ⟨(), ensure_eq_ok_iff.mpr hc.source, ?_⟩
    refine bind_eq_ok_iff.mpr ⟨config, hc.config, ?_⟩
    refine bind_eq_ok_iff.mpr ⟨(), ensure_eq_ok_iff.mpr rfl, ?_⟩
    exact bind_eq_ok_iff.mpr ⟨finding, hfinding, bind_eq_ok_iff.mpr ⟨db', hqueue, rfl⟩⟩

/-- The checks on a stage, which do not depend on its place. -/
theorem validatedStage_ok_iff {e : Engagement} {c : JobCreate} {i : ℕ} {config : Json} :
    validatedStage db e c i = .ok config ↔ CheckedStage db e c config := by
  constructor
  · intro h
    obtain ⟨_, htool, h⟩ := bind_eq_ok h
    obtain ⟨_, hsource, h⟩ := bind_eq_ok h
    exact ⟨ensure_eq_ok htool, ensure_eq_ok hsource, h⟩
  · intro h
    refine bind_eq_ok_iff.mpr ⟨(), ensure_eq_ok_iff.mpr h.tool, ?_⟩
    exact bind_eq_ok_iff.mpr ⟨(), ensure_eq_ok_iff.mpr h.source, h.config⟩

theorem validatedStages_ok_iff {e : Engagement} {stages : List JobCreate} {configs : List Json} :
    (stages.zipIdx.mapM fun (c, i) => validatedStage db e c i) = .ok configs ↔
      List.Forall₂ (CheckedStage db e) stages configs := by
  rw [mapM_eq_ok_iff]
  simp only [validatedStage_ok_iff]
  conv_rhs => rw [← List.zipIdx_map_fst 0 stages]
  exact List.forall₂_map_left_iff.symm

/-- What the pipeline route accepts. -/
theorem createPipeline_ok_iff {stages : List JobCreate} {db' : Db} {reply : Reply}
    (hflags : ∀ c ∈ stages, c.contractRequired = false) :
    createPipeline p clocks request programId stages db = .ok (db', reply) ↔
      ∃ e configs, Writes p request programId db e ∧
        List.Forall₂ (CheckedStage db e) stages configs ∧
        enqueueStages e (clocks.wall 0).instant none (stages.zip configs) db = .ok db' ∧
        .stored = reply := by
  have hflags : (!stages.any (·.contractRequired)) = true := by simpa using hflags
  constructor
  · intro h
    obtain ⟨user, huser, h⟩ := bind_eq_ok h
    obtain ⟨e, he, h⟩ := bind_eq_ok h
    obtain ⟨_, -, h⟩ := bind_eq_ok h
    obtain ⟨configs, hconfigs, h⟩ := bind_eq_ok h
    obtain ⟨db₁, hqueue, h⟩ := bind_eq_ok h
    obtain ⟨rfl, rfl⟩ := Prod.mk.inj (Except.ok.inj h)
    exact ⟨e, configs, ⟨user, huser, he⟩, validatedStages_ok_iff.mp hconfigs, hqueue, rfl⟩
  · rintro ⟨e, configs, ⟨user, huser, he⟩, hconfigs, hqueue, rfl⟩
    refine bind_eq_ok_iff.mpr ⟨user, huser, bind_eq_ok_iff.mpr ⟨e, he, ?_⟩⟩
    refine bind_eq_ok_iff.mpr ⟨(), ensure_eq_ok_iff.mpr hflags, ?_⟩
    refine bind_eq_ok_iff.mpr ⟨configs, validatedStages_ok_iff.mpr hconfigs, ?_⟩
    exact bind_eq_ok_iff.mpr ⟨db', hqueue, rfl⟩

end

/-! ## A pipeline is its jobs -/

/-- The row that the single route stores for a stage. -/
def StoredAlone (p : Platform) (clocks : Clocks) (request : HttpRequest) (programId : String)
    (db : Db) (c : JobCreate) (job : ScanJob) : Prop :=
  ∃ db' reply, createJob p clocks request programId c.alone db = .ok (db', reply) ∧
    db'.jobs.rows = db.jobs.rows ++ [job]

/-- Jobs that each wait on the one before. -/
def linked : Option String → List ScanJob → List ScanJob
  | _, [] => []
  | previous, job :: jobs => { job with dependsOn := previous } :: linked (some job.id) jobs

/-- The pipeline route does what the single route does stage by stage: it accepts the same, it
stores the same rows, linked, and nothing else, and a refusal writes nothing. -/
structure PipelineIsItsJobs (p : Platform) (clocks : Clocks) (request : HttpRequest)
    (programId : String) (stages : List JobCreate) (db : Db) : Prop where
  accepted : (∃ r, createPipeline p clocks request programId stages db = .ok r) ↔
    ∀ c ∈ stages, ∃ r, createJob p clocks request programId c.alone db = .ok r
  stored : ∀ db' reply, createPipeline p clocks request programId stages db = .ok (db', reply) →
    ∃ jobs, List.Forall₂ (StoredAlone p clocks request programId db) stages jobs ∧
      db'.jobs.rows = db.jobs.rows ++ linked none jobs ∧
      db' = { db with jobs := db'.jobs, ids := db'.ids }
  refused : ∀ e, createPipeline p clocks request programId stages db = .error e →
    (settle db (createPipeline p clocks request programId stages db)).1 = db

/-- Where the caller and all stages pass the shared checks, no stop-work is in force, and the
policy reads the targets of every stage. -/
def PolicyPasses (p : Platform) (clocks : Clocks) (request : HttpRequest) (programId : String)
    (stages : List JobCreate) (db : Db) : Prop :=
  ∀ e, Writes p request programId db e → (∀ c ∈ stages, ∃ config, Queueable db e c config) →
    e.stopWorkAt = none ∧ ∀ c ∈ stages, ∀ config, validatedConfig db e c = .ok config →
      ∃ decision, evaluateAll (policyInput db e c.toolType (clocks.wall 0))
        (p.resolveTargets db (c.row e.id config none (clocks.wall 0).instant)) = .ok decision

section
variable {p : Platform} {clocks : Clocks} {request : HttpRequest} {programId : String}
  {stages : List JobCreate} {db : Db}

omit [Unicode] in
/-- Pairing a list with images of its pairs. -/
theorem forall₂_map_zip {α β γ : Type} {rel : α → γ → Prop} {f : α × β → γ} {l : List α}
    {m : List β} (hlength : l.length = m.length) (h : ∀ s ∈ l.zip m, rel s.1 (f s)) :
    List.Forall₂ rel l ((l.zip m).map f) := by
  induction l generalizing m with
  | nil => exact .nil
  | cons a l ih =>
    cases m with
    | nil => cases hlength
    | cons b m =>
      obtain ⟨hhead, htail⟩ := List.forall_mem_cons.mp h
      exact .cons hhead (ih (Nat.succ.inj hlength) htail)

omit [Unicode] in
/-- Choosing a partner for every element of a list. -/
theorem exists_forall₂ {α β : Type} {rel : α → β → Prop} {l : List α}
    (h : ∀ a ∈ l, ∃ b, rel a b) : ∃ bs, List.Forall₂ rel l bs := by
  induction l with
  | nil => exact ⟨[], .nil⟩
  | cons a l ih =>
    obtain ⟨ha, hl⟩ := List.forall_mem_cons.mp h
    obtain ⟨b, hb⟩ := ha
    obtain ⟨bs, hbs⟩ := ih hl
    exact ⟨b :: bs, .cons hb hbs⟩

theorem map_fst_zip_of_checked {e : Engagement} {configs : List Json}
    (h : List.Forall₂ (CheckedStage db e) stages configs) :
    (stages.zip configs).map Prod.fst = stages := by
  rw [List.map_fst_zip (le_of_eq h.length_eq)]

/-- Stages under distinct identifiers make a pipeline if and only if each could be queued. -/
theorem pipeline_accepted_iff (hflags : ∀ c ∈ stages, c.contractRequired = false)
    (hids : (stages.map JobCreate.id).Nodup) :
    (∃ r, createPipeline p clocks request programId stages db = .ok r) ↔
      ∃ e, Writes p request programId db e ∧ ∀ c ∈ stages, ∃ config, Queueable db e c config := by
  -- the identifiers of the checked stages are those of the stages
  have hzip : ∀ {e : Engagement} {configs : List Json},
      List.Forall₂ (CheckedStage db e) stages configs →
        ((stages.zip configs).map fun s => s.1.id).Nodup := fun hchecked => by
    have hids := hids
    rw [← map_fst_zip_of_checked hchecked, List.map_map] at hids
    exact hids
  constructor
  · rintro ⟨⟨db', reply⟩, h⟩
    obtain ⟨e, configs, hwrites, hchecked, hqueue, -⟩ := (createPipeline_ok_iff hflags).mp h
    have havailable := (enqueueStages_ok_iff (hzip hchecked)).mp ⟨db', hqueue⟩
    refine ⟨e, hwrites, fun c hc => ?_⟩
    rw [← map_fst_zip_of_checked hchecked] at hc
    obtain ⟨⟨c, config⟩, hmem, rfl⟩ := List.mem_map.mp hc
    exact ⟨config, (List.forall₂_iff_zip.mp hchecked).2 hmem, havailable _ hmem⟩
  · rintro ⟨e, hwrites, hstages⟩
    obtain ⟨configs, hconfigs⟩ := exists_forall₂ hstages
    have hchecked := hconfigs.imp fun _ _ h => h.toCheckedStage
    obtain ⟨db', hqueue⟩ : ∃ db', enqueueStages e (clocks.wall 0).instant none
        (stages.zip configs) db = .ok db' := (enqueueStages_ok_iff (hzip hchecked)).mpr
      fun s hs => ((List.forall₂_iff_zip.mp hconfigs).2 hs).id
    exact ⟨_, (createPipeline_ok_iff hflags).mpr ⟨e, configs, hwrites, hchecked, hqueue, rfl⟩⟩

/-- A stage that could be queued and passes the policy check is stored on its own. -/
theorem storedAlone {e : Engagement} {c : JobCreate} {config : Json}
    (hflag : c.contractRequired = false) (hwrites : Writes p request programId db e)
    (hqueueable : Queueable db e c config) (hpolicy : PolicyReturns p clocks db e c config) :
    StoredAlone p clocks request programId db c
      (c.row e.id config none (clocks.wall 0).instant) := by
  have havailable : Available db (c.row e.id config none (clocks.wall 0).instant).id :=
    hqueueable.id
  obtain ⟨db', hqueue⟩ := exists_enqueue havailable
  exact ⟨db', .stored, (createJob_ok_iff hflag).mpr
    ⟨e, config, hwrites, hqueueable, hpolicy, hqueue, rfl⟩, (enqueue_rows hqueue).2.1⟩

/-- Each stage is accepted on its own if and only if each could be queued and passes the policy
check. -/
theorem jobs_accepted_iff (hne : stages ≠ []) (hflags : ∀ c ∈ stages, c.contractRequired = false) :
    (∀ c ∈ stages, ∃ r, createJob p clocks request programId c.alone db = .ok r) ↔
      ∃ e, Writes p request programId db e ∧ ∀ c ∈ stages, ∃ config, Queueable db e c config ∧
        PolicyReturns p clocks db e c config := by
  constructor
  · intro h
    have hstage : ∀ c ∈ stages, ∃ e config, Writes p request programId db e ∧
        Queueable db e c config ∧ PolicyReturns p clocks db e c config := fun c hc => by
      obtain ⟨⟨db', reply⟩, h⟩ := h c hc
      obtain ⟨e, config, hwrites, hqueueable, hpolicy, -⟩ := (createJob_ok_iff (hflags c hc)).mp h
      exact ⟨e, config, hwrites, hqueueable, hpolicy⟩
    obtain ⟨c₀, hc₀⟩ := List.exists_mem_of_ne_nil stages hne
    obtain ⟨e, -, hwrites, -⟩ := hstage c₀ hc₀
    refine ⟨e, hwrites, fun c hc => ?_⟩
    obtain ⟨e', config, hwrites', hc⟩ := hstage c hc
    obtain rfl := hwrites.unique hwrites'
    exact ⟨config, hc⟩
  · rintro ⟨e, hwrites, hstages⟩ c hc
    obtain ⟨config, hqueueable, hpolicy⟩ := hstages c hc
    obtain ⟨db', reply, h, -⟩ := storedAlone (hflags c hc) hwrites hqueueable hpolicy
    exact ⟨_, h⟩

omit [Unicode] in
/-- The rows of a pipeline are the rows of its stages on their own, linked. -/
theorem stageRows_eq_linked (e : Engagement) (createdAt : Instant) (previous : Option String)
    (l : List (JobCreate × Json)) : stageRows e createdAt previous l =
      linked previous (l.map fun s => s.1.row e.id s.2 none createdAt) := by
  induction l generalizing previous with
  | nil => rfl
  | cons s l ih => rw [stageRows, List.map_cons, linked, ih]; rfl

end

/-- Queueing stages with distinct new identifiers is queueing them one by one, if and only if
the policy check passes wherever everything else does. -/
theorem pipeline_isItsJobs_iff (p : Platform) (clocks : Clocks) (request : HttpRequest)
    (programId : String) (stages : List JobCreate) (db : Db) (hne : stages ≠ [])
    (hflags : ∀ c ∈ stages, c.contractRequired = false)
    (hids : (stages.map JobCreate.id).Nodup) :
    PipelineIsItsJobs p clocks request programId stages db ↔
      PolicyPasses p clocks request programId stages db := by
  constructor
  · intro h e hwrites hstages
    have haccepted := h.accepted.mp ((pipeline_accepted_iff hflags hids).mpr ⟨e, hwrites, hstages⟩)
    obtain ⟨e', hwrites', hpolicy⟩ := (jobs_accepted_iff hne hflags).mp haccepted
    obtain rfl := hwrites.unique hwrites'
    have hreturns : ∀ c ∈ stages, ∀ config, validatedConfig db e c = .ok config →
        PolicyReturns p clocks db e c config := fun c hc config hconfig => by
      obtain ⟨config', hqueueable, hreturns⟩ := hpolicy c hc
      obtain rfl := Except.ok.inj (hqueueable.config.symm.trans hconfig)
      exact hreturns
    obtain ⟨c₀, hc₀⟩ := List.exists_mem_of_ne_nil stages hne
    obtain ⟨config₀, hconfig₀⟩ := hstages c₀ hc₀
    refine ⟨(enforcementCheck_ok_iff.mp (hreturns c₀ hc₀ config₀ hconfig₀.config)).1, ?_⟩
    exact fun c hc config hconfig => (enforcementCheck_ok_iff.mp (hreturns c hc config hconfig)).2
  · intro h
    have hreturns : ∀ e, Writes p request programId db e →
        (∀ c ∈ stages, ∃ config, Queueable db e c config) → ∀ c ∈ stages, ∀ config,
          Queueable db e c config → PolicyReturns p clocks db e c config :=
      fun e hwrites hstages c hc config hconfig =>
        have hpasses := h e hwrites hstages
        enforcementCheck_ok_iff.mpr ⟨hpasses.1, hpasses.2 c hc config hconfig.config⟩
    refine ⟨?_, fun db' reply hpipeline => ?_, fun e he => by rw [he]; rfl⟩
    · rw [pipeline_accepted_iff hflags hids, jobs_accepted_iff hne hflags]
      constructor
      · rintro ⟨e, hwrites, hstages⟩
        refine ⟨e, hwrites, fun c hc => ?_⟩
        obtain ⟨config, hconfig⟩ := hstages c hc
        exact ⟨config, hconfig, hreturns e hwrites hstages c hc config hconfig⟩
      · rintro ⟨e, hwrites, hstages⟩
        exact ⟨e, hwrites, fun c hc => (hstages c hc).imp fun _ h => h.1⟩
    · obtain ⟨e, hwrites, hstages⟩ := (pipeline_accepted_iff hflags hids).mp ⟨_, hpipeline⟩
      obtain ⟨e', configs, hwrites', hchecked, hqueue, -⟩ :=
        (createPipeline_ok_iff hflags).mp hpipeline
      obtain rfl := hwrites.unique hwrites'
      obtain ⟨hrows, hdb'⟩ := enqueueStages_rows hqueue
      refine ⟨_, ?_, hrows.trans (congrArg _ (stageRows_eq_linked ..)), hdb'⟩
      refine forall₂_map_zip hchecked.length_eq fun s hs => ?_
      have hc : s.1 ∈ stages := (List.of_mem_zip hs).1
      obtain ⟨config, hqueueable⟩ := hstages s.1 hc
      obtain rfl := Except.ok.inj
        (hqueueable.config.symm.trans ((List.forall₂_iff_zip.mp hchecked).2 hs).config)
      exact storedAlone (hflags s.1 hc) hwrites hqueueable
        (hreturns e hwrites hstages s.1 hc _ hqueueable)

/-! ## A pipeline under stop-work -/

def pipelineStages : List JobCreate :=
  [⟨"j1", "subfinder", "scope", .obj [], none, false⟩, ⟨"j2", "httpx", "scope", .obj [], none, false⟩]

/-- An engagement, and the same with stop-work engaged. -/
def pipelineOps : List Op :=
  [.engagement (.create ⟨"e1", "o1", "pentest", "active", none, none, none⟩)].map bySession

def stoppedOps : List Op := pipelineOps ++ [bySession (.engagement (.engageStopWork "e1"))]

omit [Unicode] in
/-- Without stop-work the example is a pipeline of its jobs. -/
theorem pipeline_isItsJobs_iff_example : @PipelineIsItsJobs Unicode.ascii examplePlatform
    exampleClocks ⟨none, some "owner"⟩ "e1" pipelineStages
    (@after Unicode.ascii exampleRuntime pipelineOps .empty) := by
  let _ := Unicode.ascii
  refine (pipeline_isItsJobs_iff _ _ _ _ _ _ (by decide) (by decide) (by decide)).mpr ?_
  rintro e ⟨user, -, he⟩ -
  have hstop : ((after exampleRuntime pipelineOps .empty).engagements.get? "e1").map
      Engagement.stopWorkAt = some none := by decide +kernel
  rw [writableEngagement_eq_ok he] at hstop
  refine ⟨Option.some.inj hstop, fun c _ config _ => ?_⟩
  change ∃ d, evaluateAll _ [] = .ok d
  unfold evaluateAll
  dsimp only
  split
  · exact ⟨_, rfl⟩
  · exact ⟨_, rfl⟩

omit [Unicode] in
/-- Under stop-work the pipeline is accepted, and none of its jobs is. -/
theorem not_pipeline_isItsJobs : ¬ ∀ (p : Platform) (clocks : Clocks) (request : HttpRequest)
    (programId : String) (stages : List JobCreate) (db : Db), stages ≠ [] →
    (∀ c ∈ stages, c.contractRequired = false) → (stages.map JobCreate.id).Nodup →
    @PipelineIsItsJobs Unicode.ascii p clocks request programId stages db := by
  let _ := Unicode.ascii
  intro hall
  have h := hall examplePlatform exampleClocks ⟨none, some "owner"⟩ "e1" pipelineStages
    (after exampleRuntime stoppedOps .empty) (by decide) (by decide) (by decide)
  have hpipeline : (createPipeline examplePlatform exampleClocks ⟨none, some "owner"⟩ "e1"
      pipelineStages (after exampleRuntime stoppedOps .empty)).toOption.isSome = true := by
    decide +kernel
  have hjob : (createJob examplePlatform exampleClocks ⟨none, some "owner"⟩ "e1"
      ⟨"j1", "subfinder", "scope", .obj [], none, false⟩
      (after exampleRuntime stoppedOps .empty)).toOption.isNone = true := by
    decide +kernel
  obtain ⟨r, hr⟩ := Option.isSome_iff_exists.mp hpipeline
  obtain ⟨r', hr'⟩ := h.accepted.mp ⟨r, by
    cases hresult : createPipeline examplePlatform exampleClocks ⟨none, some "owner"⟩ "e1"
      pipelineStages (after exampleRuntime stoppedOps .empty) with
    | ok a => rw [hresult] at hr; rw [Option.some.inj hr]
    | error e => rw [hresult] at hr; cases hr⟩ _ (List.mem_cons_self ..)
  have hr' : createJob examplePlatform exampleClocks ⟨none, some "owner"⟩ "e1"
      ⟨"j1", "subfinder", "scope", .obj [], none, false⟩
      (after exampleRuntime stoppedOps .empty) = .ok r' := hr'
  rw [hr'] at hjob
  cases hjob

end VardrMap
