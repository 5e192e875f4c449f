import VardrMap.Changes.Endings

/-!
# Tenants

All that is kept of one engagement: its row, those who may reach it, its records, and its jobs
with what is filed under them. A write to a record or to a job of another engagement is not
seen here, table by table.
-/
namespace VardrMap
open Lib

/-! ## What is kept of an engagement -/

/-- A job, and what is filed under it. -/
structure JobFile where
  job : ScanJob
  execution : Option JobExecution
  receipt : Option JobResultReceipt
  approvals : List ManagedApproval
  contract : Option ManagedContract
  result : Option ManagedResult
  stop : Option ManagedStop
  deriving DecidableEq

/-- All that is kept of an engagement. -/
structure Holding where
  engagement : Option Engagement
  members : List EngagementMember
  orgMembers : List OrganizationMember
  scope : List ScopeItem
  authorizations : List Authorization
  testCases : List AuthorizationTestCase
  proposals : List AgentProposal
  files : List JobFile
  deriving DecidableEq

namespace Db

/-- The jobs of an engagement. -/
def jobsOf (db : Db) (id : String) : List ScanJob :=
  db.jobs.rows.filter fun j => j.programId == id

def file (db : Db) (j : ScanJob) : JobFile where
  job := j
  execution := db.executions.get? j.id
  receipt := db.receipts.get? j.id
  approvals := db.approvals.rows.filter fun a => a.jobId == j.id
  contract := db.contractOf j.id
  result := (db.contractOf j.id).bind fun c => db.results.get? c.id
  stop := (db.contractOf j.id).bind fun c => db.stops.get? c.id

/-- The members of the organization that an engagement belongs to. -/
def colleagues (db : Db) (id : String) : List OrganizationMember :=
  db.orgMembers.filter fun m =>
    (db.engagements.get? id).any fun e => e.orgId == some m.orgId

def holding (db : Db) (id : String) : Holding where
  engagement := db.engagements.get? id
  members := db.members.filter fun m => m.programId == id
  orgMembers := db.colleagues id
  scope := db.scopeOf id
  authorizations := db.authorizationsOf id
  testCases := db.testCases.rows.filter fun c => c.programId == id
  proposals := db.proposals.rows.filter fun c => c.programId == id
  files := (db.jobsOf id).map db.file

/-- A caller can reach an engagement. -/
def reaches (db : Db) (githubId id : String) : Bool :=
  (db.engagements.get? id).any (accessible db githubId)

end Db

variable {db db' : Db} {id : String}

/-! ## Who can reach it -/

theorem accessible_of_engagementAccess {githubId : String} {e : Engagement}
    (h : (engagementAccess db e githubId).isSome = true) : accessible db githubId e = true := by
  unfold engagementAccess at h
  unfold accessible
  split at h
  · rename_i howner
    simp [howner]
  · cases horg : orgRole db e.orgId githubId with
    | some r =>
      unfold orgRole at horg
      cases horgId : e.orgId with
      | none => simp [horgId] at horg
      | some o =>
        simp only [horgId] at horg
        split at horg
        · cases horg
        · obtain ⟨m, hm, -⟩ := Option.map_eq_some_iff.mp horg
          have hfound := List.find?_some hm
          simp only [Bool.and_eq_true, beq_iff_eq] at hfound
          have hany : db.orgMembers.any (fun m => m.githubId == githubId && m.orgId == o) = true :=
            List.any_eq_true.mpr ⟨m, List.mem_of_find?_eq_some hm, by simp [hfound]⟩
          simp [hany]
    | none =>
      cases hmember : memberRole db e.id githubId with
      | none => simp [horg, hmember, higherRole] at h
      | some r =>
        obtain ⟨m, hm, -⟩ := Option.map_eq_some_iff.mp hmember
        have hfound := List.find?_some hm
        simp only [Bool.and_eq_true, beq_iff_eq] at hfound
        have hany : db.members.any
            (fun m => m.memberGithubId == githubId && m.programId == e.id) = true :=
          List.any_eq_true.mpr ⟨m, List.mem_of_find?_eq_some hm, by simp [hfound]⟩
        simp [hany]

theorem getEngagement_reaches {programId : String} {user : User} {e : Engagement}
    (h : getEngagement db programId user = .ok e) :
    db.reaches user.githubId programId = true := by
  have he := getEngagement_eq_ok h
  unfold getEngagement at h
  rw [he] at h
  dsimp only at h
  split at h
  · rename_i haccess
    simp [Db.reaches, he, accessible_of_engagementAccess haccess]
  · cases h

theorem writableEngagement_reaches {programId : String} {user : User} {e : Engagement}
    (h : writableEngagement db programId user = .ok e) :
    db.reaches user.githubId programId = true ∧ db.engagements.get? programId = some e := by
  have he := writableEngagement_eq_ok h
  obtain ⟨e', hget, -⟩ := bind_eq_ok h
  exact ⟨getEngagement_reaches hget, he⟩

theorem ownEngagement_reaches {programId : String} {user : User} {e : Engagement}
    (h : ownEngagement db programId user = .ok e) :
    db.reaches user.githubId programId = true ∧ db.engagements.get? programId = some e := by
  obtain ⟨e', hget, h⟩ := bind_eq_ok h
  obtain ⟨_, -, h⟩ := bind_eq_ok h
  obtain rfl := Except.ok.inj h
  exact ⟨getEngagement_reaches hget, getEngagement_eq_ok hget⟩

theorem lockJob_reaches {jobId : String} {user : User} {j : ScanJob}
    (h : lockJob db jobId user = .ok j) :
    db.jobs.get? jobId = some j ∧ db.reaches user.githubId j.programId = true :=
  Option.filter_eq_some_iff.mp (found_eq_ok h)

/-- Who can reach an engagement is a part of what is kept of it. -/
theorem reaches_congr (h : db'.holding id = db.holding id) (githubId : String) :
    db'.reaches githubId id = db.reaches githubId id := by
  have he : db'.engagements.get? id = db.engagements.get? id := congrArg Holding.engagement h
  have hmembers : (db'.members.filter fun m => m.programId == id) =
      db.members.filter fun m => m.programId == id := congrArg Holding.members h
  have horg : db'.colleagues id = db.colleagues id := congrArg Holding.orgMembers h
  unfold Db.reaches
  rw [he]
  cases hget : db.engagements.get? id with
  | none => rfl
  | some e =>
    have hid : e.id = id := Table.key_of_get? hget
    unfold Db.colleagues at horg
    rw [he, hget] at horg
    have hmember : db'.members.any
        (fun m => m.memberGithubId == githubId && m.programId == id) =
          db.members.any fun m => m.memberGithubId == githubId && m.programId == id := by
      have hany := congrArg (List.any · fun m => m.memberGithubId == githubId) hmembers
      simpa [List.any_filter, Bool.and_comm] using hany
    have horgAny : ∀ o, e.orgId = some o →
        db'.orgMembers.any (fun m => m.githubId == githubId && m.orgId == o) =
          db.orgMembers.any fun m => m.githubId == githubId && m.orgId == o := fun o ho => by
      have hany := congrArg (List.any · fun m => m.githubId == githubId) horg
      have hsame : ∀ m : OrganizationMember, (some o == some m.orgId) = (m.orgId == o) :=
        fun m => BEq.comm (a := o) (b := m.orgId)
      simpa [List.any_filter, ho, hsame, Bool.and_comm] using hany
    simp only [Option.any_some, accessible, hid, hmember]
    cases ho : e.orgId with
    | none => rfl
    | some o => simp only [Option.any_some, horgAny o ho]

/-! ## Writes outside an engagement -/

theorem holding_engagements {t : Table Engagement} (h : t.get? id = db.engagements.get? id) :
    ({ db with engagements := t } : Db).holding id = db.holding id := by
  unfold Db.holding Db.colleagues
  simp only [h]
  rfl

theorem holding_putEngagement {e : Engagement} (h : e.id ≠ id) :
    (db.putEngagement e).holding id = db.holding id :=
  holding_engagements (Table.get?_put_ne h)

theorem holding_members {members : List EngagementMember}
    (h : (members.filter fun m => m.programId == id) =
      db.members.filter fun m => m.programId == id) :
    ({ db with members } : Db).holding id = db.holding id := by
  unfold Db.holding
  rw [← h]
  rfl

theorem holding_scopeItems {t : Table ScopeItem}
    (h : (t.rows.filter fun r => r.programId == id) = db.scopeOf id) :
    ({ db with scopeItems := t } : Db).holding id = db.holding id := by
  unfold Db.holding
  rw [← h]
  rfl

theorem holding_authorizations {t : Table Authorization}
    (h : (t.rows.filter fun a => a.programId == id) = db.authorizationsOf id) :
    ({ db with authorizations := t } : Db).holding id = db.holding id := by
  unfold Db.holding
  rw [← h]
  rfl

theorem holding_testCases {t : Table AuthorizationTestCase}
    (h : (t.rows.filter fun c => c.programId == id) =
      db.testCases.rows.filter fun c => c.programId == id) :
    ({ db with testCases := t } : Db).holding id = db.holding id := by
  unfold Db.holding
  rw [← h]
  rfl

theorem holding_proposals {t : Table AgentProposal}
    (h : (t.rows.filter fun c => c.programId == id) =
      db.proposals.rows.filter fun c => c.programId == id) :
    ({ db with proposals := t } : Db).holding id = db.holding id := by
  unfold Db.holding
  rw [← h]
  rfl

theorem holding_jobs {t : Table ScanJob}
    (h : (t.rows.filter fun j => j.programId == id) = db.jobsOf id) :
    ({ db with jobs := t } : Db).holding id = db.holding id := by
  unfold Db.holding
  rw [← h]
  rfl

/-- Other tables are seen through the files of the jobs only. -/
theorem files_congr (h : ∀ j ∈ db.jobsOf id, db'.file j = db.file j)
    (hjobs : db'.jobs = db.jobs) : (db'.jobsOf id).map db'.file = (db.jobsOf id).map db.file := by
  unfold Db.jobsOf at h ⊢
  rw [hjobs]
  exact List.map_congr_left h

theorem mem_jobsOf {j : ScanJob} :
    j ∈ db.jobsOf id ↔ db.jobs.get? j.id = some j ∧ j.programId = id := by
  unfold Db.jobsOf
  rw [List.mem_filter, beq_iff_eq]
  exact and_congr_left fun _ => ⟨fun h => Table.get?_of_mem h, Table.mem_of_get?⟩

/-- Jobs of other engagements are dropped, with what is filed under them. -/
theorem holding_dropJobs {keep : ScanJob → Bool} (h : ∀ j ∈ db.jobsOf id, keep j = true) :
    (db.dropJobs keep).holding id = db.holding id := by
  have hjobs : (db.dropJobs keep).jobsOf id = db.jobsOf id :=
    Table.select_filter fun j hj hid => h j (List.mem_filter.mpr ⟨hj, hid⟩)
  have hfile : ∀ j ∈ db.jobsOf id, (db.dropJobs keep).file j = db.file j := fun j hj => by
    have hkept : (db.jobs.get? j.id).any keep = true := by
      rw [(mem_jobsOf.mp hj).1]
      exact h j hj
    have hexecution : (db.dropJobs keep).executions.get? j.id = db.executions.get? j.id := by
      refine Table.get?_filter_eq fun x hx => ?_
      rwa [show x.jobId = j.id from Table.key_of_get? hx]
    have hreceipt : (db.dropJobs keep).receipts.get? j.id = db.receipts.get? j.id := by
      refine Table.get?_filter_eq fun r hr => ?_
      rwa [show r.jobId = j.id from Table.key_of_get? hr]
    unfold Db.file
    rw [hexecution, hreceipt]
    rfl
  refine congrArg (Holding.mk _ _ _ _ _ _ _) ?_
  rw [hjobs]
  exact List.map_congr_left hfile

/-! ## Writes under a job of another engagement -/

/-- The contracts of two jobs differ. -/
theorem contract_id_ne {k k' : String} {c c' : ManagedContract} (hc : db.contractOf k = some c)
    (hc' : db.contractOf k' = some c') (hne : k ≠ k') : c.id ≠ c'.id := by
  obtain ⟨hget, hjob⟩ := contractOf_stored hc
  obtain ⟨hget', hjob'⟩ := contractOf_stored hc'
  intro hsame
  rw [hsame, hget'] at hget
  exact hne (hjob.symm.trans (Option.some.inj hget ▸ hjob'))

theorem contractOf_insert {t : Table ManagedContract} {c : ManagedContract} {k : String}
    (h : db.contracts.insert c = some t) (hk : c.jobId ≠ k) :
    ({ db with contracts := t } : Db).contractOf k = db.contractOf k := by
  unfold Db.contractOf
  rw [Table.rows_of_insert h, List.find?_append]
  simp [hk]

theorem contractOf_put {c old : ManagedContract} {k : String}
    (hold : db.contracts.get? c.id = some old) (hsame : c.jobId = old.jobId) (hk : c.jobId ≠ k) :
    ({ db with contracts := db.contracts.put c } : Db).contractOf k = db.contractOf k := by
  have hselect : ((db.contracts.put c).rows.filter fun c => c.jobId == k) =
      db.contracts.rows.filter fun c => c.jobId == k :=
    Table.select_put hold (by simpa [← hsame] using hk) (by simpa using hk)
  unfold Db.contractOf
  rw [← List.head?_filter, ← List.head?_filter, hselect]

section
variable {k : String} {i : ScanJob}

/-- A job of the engagement is not one of another. -/
theorem ne_of_jobsOf (hi : db.jobs.get? k = some i) (hid : i.programId ≠ id) {j : ScanJob}
    (hj : j ∈ db.jobsOf id) : k ≠ j.id := by
  rintro rfl
  obtain ⟨hget, hprogram⟩ := mem_jobsOf.mp hj
  obtain rfl := Option.some.inj (hi.symm.trans hget)
  exact hid hprogram

variable (hi : db.jobs.get? k = some i) (hid : i.programId ≠ id)
include hi hid

theorem holding_putJob {r : ScanJob} (hk : r.id = k) (hr : r.programId = i.programId) :
    ({ db with jobs := db.jobs.put r } : Db).holding id = db.holding id := by
  subst hk
  exact holding_jobs (Table.select_put hi (by simpa using hid) (by simpa [hr] using hid))

theorem holding_executions {t : Table JobExecution}
    (h : ∀ k', k ≠ k' → t.get? k' = db.executions.get? k') :
    ({ db with executions := t } : Db).holding id = db.holding id := by
  refine congrArg (Holding.mk _ _ _ _ _ _ _) (files_congr (fun j hj => ?_) rfl)
  simp only [Db.file, h _ (ne_of_jobsOf hi hid hj)]
  rfl

theorem holding_receipts {t : Table JobResultReceipt}
    (h : ∀ k', k ≠ k' → t.get? k' = db.receipts.get? k') :
    ({ db with receipts := t } : Db).holding id = db.holding id := by
  refine congrArg (Holding.mk _ _ _ _ _ _ _) (files_congr (fun j hj => ?_) rfl)
  simp only [Db.file, h _ (ne_of_jobsOf hi hid hj)]
  rfl

theorem holding_approvals {t : Table ManagedApproval}
    (h : ∀ k', k ≠ k' → (t.rows.filter fun a => a.jobId == k') =
      db.approvals.rows.filter fun a => a.jobId == k') :
    ({ db with approvals := t } : Db).holding id = db.holding id := by
  refine congrArg (Holding.mk _ _ _ _ _ _ _) (files_congr (fun j hj => ?_) rfl)
  simp only [Db.file, h _ (ne_of_jobsOf hi hid hj)]
  rfl

theorem holding_contracts {t : Table ManagedContract}
    (h : ∀ k', k ≠ k' → ({ db with contracts := t } : Db).contractOf k' = db.contractOf k') :
    ({ db with contracts := t } : Db).holding id = db.holding id := by
  refine congrArg (Holding.mk _ _ _ _ _ _ _) (files_congr (fun j hj => ?_) rfl)
  simp only [Db.file, h _ (ne_of_jobsOf hi hid hj)]

theorem holding_results {t : Table ManagedResult} {c : ManagedContract}
    (hc : db.contractOf k = some c) (h : ∀ k', c.id ≠ k' → t.get? k' = db.results.get? k') :
    ({ db with results := t } : Db).holding id = db.holding id := by
  refine congrArg (Holding.mk _ _ _ _ _ _ _) (files_congr (fun j hj => ?_) rfl)
  have hne := ne_of_jobsOf hi hid hj
  have hresult : (db.contractOf j.id).bind (fun c => t.get? c.id) =
      (db.contractOf j.id).bind fun c => db.results.get? c.id := by
    cases hc' : db.contractOf j.id with
    | none => rfl
    | some c' => exact h _ (contract_id_ne hc hc' hne)
  exact congrArg (fun r => { db.file j with result := r }) hresult

theorem holding_stops {t : Table ManagedStop} {c : ManagedContract}
    (hc : db.contractOf k = some c) (h : ∀ k', c.id ≠ k' → t.get? k' = db.stops.get? k') :
    ({ db with stops := t } : Db).holding id = db.holding id := by
  refine congrArg (Holding.mk _ _ _ _ _ _ _) (files_congr (fun j hj => ?_) rfl)
  have hne := ne_of_jobsOf hi hid hj
  have hstop : (db.contractOf j.id).bind (fun c => t.get? c.id) =
      (db.contractOf j.id).bind fun c => db.stops.get? c.id := by
    cases hc' : db.contractOf j.id with
    | none => rfl
    | some c' => exact h _ (contract_id_ne hc hc' hne)
  exact congrArg (fun r => { db.file j with stop := r }) hstop

end

end VardrMap
