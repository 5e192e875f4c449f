import VardrMap.Deliverables
import VardrMap.Lib.Clients
import Mathlib.Data.List.Range

/-!
# Several authors of one report

Calls that create a report, add a revision, or set the status of a revision, statement by
statement, while the testing record is edited. A revision is added under the lock of the
report's row, after the base that its author saw was compared with the latest revision; the
record is read query by query in between. Nothing of a call is stored before its commit.
-/
namespace VardrMap.Deliverables
open Lib Parsers

/-! ## The calls -/

/-- What is stored, and which call has the lock of a report's row. The inserted row of a new
report belongs to its call until the commit. -/
structure Shared where
  db : Db
  record : Record
  reports : Table EngagementDeliverable
  revisions : Table DeliverableRevision
  holder : String → Option ℕ

/-- The queries of a snapshot. -/
inductive Query where
  | findings
  | evidence
  | activities
  | scope
  | authorizations
  | clients

/-- The queries in their order. -/
def queries : List Query := [.findings, .evidence, .activities, .scope, .authorizations, .clients]

/-- The view after one more query of what is stored. -/
def Record.query (view stored : Record) : Query → Record
  | .findings => { view with findings := stored.findings }
  | .evidence => { view with evidence := stored.evidence }
  | .activities => { view with activities := stored.activities }
  | .scope => { view with scope := stored.scope }
  | .authorizations => { view with authorizations := stored.authorizations }
  | .clients => { view with clients := stored.clients }

/-- An author who may write to the engagement. -/
structure Author where
  user : User
  engagement : Engagement
  profile : EngagementProfile

/-- A revision in the making: its report as the call has read it, and the queries to come. -/
structure Draft where
  author : Author
  report : EngagementDeliverable
  body : ReportContent
  view : Record
  pending : List Query

/-- A call of `create_revision` before its lock. -/
structure Request where
  author : Author
  programId : String
  reportId : String
  body : ReportContent
  base : ℤ

/-- How far a call is. A draft with a base is one of `create_revision`. -/
inductive Phase where
  | idle
  | locking (request : Request)
  | drafting (base : Option ℤ) (draft : Draft)
  | marking (row : DeliverableRevision) (status : ReportStatus)
  | ended (result : Except Refusal DeliverableRevision)

/-- The statements of the calls: `create` begins a report and `revise` a revision, which go on
with `lock`, `read` and `save`; `mark` and `write` set a status. -/
inductive Statement where
  | create (request : HttpRequest) (programId : String) (body : ReportContent) (newId : String)
      (createdAt : Instant)
  | revise (request : HttpRequest) (programId reportId : String) (body : ReportContent) (base : ℤ)
  | lock
  | read
  | save (now : DateTime) (newId : String) (createdAt : Instant)
  | mark (request : HttpRequest) (programId reportId : String) (revision : ℤ)
      (status : ReportStatus)
  | write

/-- A statement of a call, or a change of anything but reports: of findings, of evidence, of
the scope, of who may do what. -/
inductive Action where
  | call (c : ℕ) (s : Statement)
  | edit (db : Db) (record : Record)

abbrev Calls := Clients Shared Phase

/-- `_report`. -/
def Shared.report (s : Shared) (programId reportId : String) :
    Except Refusal EngagementDeliverable :=
  found ((s.reports.get? reportId).filter fun r => r.programId == programId)
    (.http 404 "Deliverable not found")

/-- `_revision`. -/
def Shared.revision (s : Shared) (reportId : String) (revision : ℤ) :
    Except Refusal DeliverableRevision :=
  found (s.revisions.rows.find? fun r => r.deliverableId == reportId && r.revision == revision)
    (.http 404 "Revision not found")

/-- The row of a report after a revision was added. -/
def EngagementDeliverable.revised (report : EngagementDeliverable) (row : DeliverableRevision)
    (body : ReportContent) : EngagementDeliverable :=
  { report with latestRevision := row.revision, title := body.title }

/-- The lock of a report's row goes to a call, or to nobody. -/
def Shared.pass (s : Shared) (id : String) (c : Option ℕ) : Shared :=
  { s with holder := fun id' => if id' = id then c else s.holder id' }

/-- `uq_deliverable_revision` admits the row. -/
def Shared.admits (s : Shared) (row : DeliverableRevision) : Bool :=
  !s.revisions.rows.any fun r => r.deliverableId == row.deliverableId && r.revision == row.revision

/-- A new report is inserted, and another one updated. -/
def Shared.store (s : Shared) (report : EngagementDeliverable) :
    Option ℤ → Except Refusal (Table EngagementDeliverable)
  | none => found (s.reports.insert report) .integrity
  | some _ => .ok (s.reports.put report)

/-- The commit of `_save_revision`. -/
def Shared.add (s : Shared) (base : Option ℤ) (report : EngagementDeliverable)
    (row : DeliverableRevision) : Except Refusal Shared := do
  let reports ← s.store report base
  ensure (s.admits row) .integrity
  let revisions ← found (s.revisions.insert row) .integrity
  return { s with reports, revisions }

/-- A call ends without having stored anything. -/
def refuse (w : Calls) (c : ℕ) (e : Refusal) : Calls := w.enter c (.ended (.error e))

/-- The call that has the lock of a report ends without having stored anything. -/
def rollback (w : Calls) (c : ℕ) (reportId : String) (e : Refusal) : Calls :=
  w.commit c (w.shared.pass reportId none) (.ended (.error e)) id

/-- The lock of the report, and its row as it is stored then; a stale base is refused. -/
def lock (w : Calls) (c : ℕ) (request : Request) : Option Calls :=
  match w.shared.report request.programId request.reportId with
  | .error e => some (refuse w c e)
  | .ok report =>
    if (w.shared.holder report.id).isSome then none
    else if request.base = report.latestRevision then
      some (w.commit c (w.shared.pass report.id (some c)) (.drafting (some request.base)
        ⟨request.author, report, request.body, .empty, queries⟩) id)
    else some (refuse w c (.http 409 "A newer revision exists; reload it before saving"))

/-- The next query of a snapshot. -/
def read (w : Calls) (c : ℕ) (base : Option ℤ) (draft : Draft) : Option Calls :=
  match draft.pending with
  | q :: pending => some (w.enter c (.drafting base
      { draft with view := draft.view.query w.shared.record q, pending }))
  | [] => none

/-- `row.status = body.status` and the commit: a status that the call has read already is not
written again. -/
def write (w : Calls) (c : ℕ) (row : DeliverableRevision) (status : ReportStatus) : Calls :=
  match w.shared.revisions.get? row.id with
  | none => refuse w c .noRow
  | some stored =>
    if row.status = status then w.enter c (.ended (.ok stored))
    else
      let marked := { stored with status }
      w.commit c { w.shared with revisions := w.shared.revisions.put marked } (.ended (.ok marked))
        id

section
variable [Unicode] [WordTable]

/-- The rest of `_save_revision`. -/
def save (w : Calls) (c : ℕ) (base : Option ℤ) (draft : Draft) (now : DateTime) (newId : String)
    (createdAt : Instant) : Option Calls :=
  match draft.pending with
  | _ :: _ => none
  | [] =>
    match newRevision draft.author.engagement draft.author.profile draft.report draft.body
      draft.author.user.githubId draft.view now createdAt newId with
    | .error e => some (rollback w c draft.report.id e)
    | .ok row =>
      match w.shared.add base (draft.report.revised row draft.body) row with
      | .error e => some (rollback w c draft.report.id e)
      | .ok s => some (w.commit c (s.pass draft.report.id none) (.ended (.ok row)) id)

variable [Sanitizer]

/-- The caller, the body and the engagement, in the order of their checks. -/
def admitAuthor (identity : Identity) (s : Shared) (request : HttpRequest) (programId : String)
    (body : ReportContent) (invalid : List String) : Except Refusal (Author × ReportContent) := do
  let user ← getCurrentUser identity s.db request
  let body ← body.validate invalid
  let engagement ← writableEngagement s.db programId user
  let profile ← found (s.record.profiles.get? engagement.id) (.http 404 "Engagement not found")
  return (⟨user, engagement, profile⟩, body)

/-- `create_deliverable` up to the snapshot of its first revision. -/
def create (identity : Identity) (w : Calls) (c : ℕ) (request : HttpRequest) (programId : String)
    (body : ReportContent) (newId : String) (createdAt : Instant) : Calls :=
  match admitAuthor identity w.shared request programId body [] with
  | .error e => refuse w c e
  | .ok (author, body) =>
    if (w.shared.reports.get? newId).isSome || (w.shared.holder newId).isSome then
      refuse w c .integrity
    else w.commit c (w.shared.pass newId (some c)) (.drafting none
      ⟨author, ⟨newId, programId, body.title, 0, createdAt⟩, body, .empty, queries⟩) id

/-- `create_revision` up to the lock. -/
def revise (identity : Identity) (w : Calls) (c : ℕ) (request : HttpRequest)
    (programId reportId : String) (body : ReportContent) (base : ℤ) : Calls :=
  match admitAuthor identity w.shared request programId body
    (if 1 ≤ base then [] else ["base_revision"]) with
  | .error e => refuse w c e
  | .ok (author, body) => w.enter c (.locking ⟨author, programId, reportId, body, base⟩)

omit [WordTable] [Sanitizer] in
/-- The row whose status is to be set. -/
def markable (identity : Identity) (s : Shared) (request : HttpRequest)
    (programId reportId : String) (revision : ℤ) : Except Refusal DeliverableRevision := do
  let user ← getCurrentUser identity s.db request
  let _ ← writableEngagement s.db programId user
  let _ ← s.report programId reportId
  s.revision reportId revision

omit [WordTable] [Sanitizer] in
/-- `update_revision_status` up to its write. -/
def mark (identity : Identity) (w : Calls) (c : ℕ) (request : HttpRequest)
    (programId reportId : String) (revision : ℤ) (status : ReportStatus) : Calls :=
  match markable identity w.shared request programId reportId revision with
  | .error e => refuse w c e
  | .ok row => w.enter c (.marking row status)

/-- One statement, or an edit of what is not a report. -/
def next (identity : Identity) (w : Calls) : Action → Option Calls
  | .edit db record => some { w with shared := { w.shared with db, record } }
  | .call c s =>
    match w.phase c, s with
    | .idle, .create request programId body newId createdAt =>
      some (create identity w c request programId body newId createdAt)
    | .idle, .revise request programId reportId body base =>
      some (revise identity w c request programId reportId body base)
    | .locking request, .lock => lock w c request
    | .drafting base draft, .read => read w c base draft
    | .drafting base draft, .save now newId createdAt => save w c base draft now newId createdAt
    | .idle, .mark request programId reportId revision status =>
      some (mark identity w c request programId reportId revision status)
    | .marking row status, .write => some (write w c row status)
    | _, _ => none

/-- An interleaving of calls and edits. -/
abbrev Interleaving (identity : Identity) := Lib.Run (Taken (next identity) fun _ _ => True)

omit [Unicode] [WordTable] [Sanitizer] in
/-- No report is stored, and no call has begun. -/
def start (db : Db) (record : Record) : Calls :=
  .start ⟨db, record, .empty, .empty, fun _ => none⟩ .idle

/-! ## The invariant -/

omit [Unicode] [WordTable] [Sanitizer] in
/-- The numbers of a report's revisions. -/
def Shared.numbers (s : Shared) (reportId : String) : List ℕ :=
  (s.revisions.rows.filter fun r => r.deliverableId == reportId).map DeliverableRevision.revision

/-- Revisions are numbered up to the latest one of a stored report, and keep the text of their
snapshot with its digest. -/
structure Shared.Sound (s : Shared) : Prop where
  numbered : ∀ id report, s.reports.get? id = some report →
    (s.numbers id).Perm (List.range' 1 report.latestRevision)
  reported : ∀ row ∈ s.revisions.rows, ∃ report, s.reports.get? row.deliverableId = some report
  rendered : ∀ row ∈ s.revisions.rows, markdown row.snapshot = .ok row.markdown
  hashed : ∀ row ∈ s.revisions.rows, row.contentHash = Sha256.ofText row.markdown

omit [Unicode] [WordTable] [Sanitizer] in
/-- The report of a draft is the stored one, whose latest revision is the base; or it is new. -/
def Shared.Bases (s : Shared) (report : EngagementDeliverable) : Option ℤ → Prop
  | none => s.reports.get? report.id = none ∧ report.latestRevision = 0
  | some base => s.reports.get? report.id = some report ∧ base = report.latestRevision

omit [Unicode] [WordTable] [Sanitizer] in
/-- A draft has the lock of its report. -/
def Phase.Holds (s : Shared) (c : ℕ) : Phase → Prop
  | drafting base draft => s.holder draft.report.id = some c ∧ s.Bases draft.report base
  | _ => True

structure Guarded (w : Calls) : Prop where
  stored : w.shared.Sound
  phase : ∀ c, (w.phase c).Holds w.shared c

variable {identity : Identity} {w w' : Calls} {c : ℕ}

omit [Unicode] [WordTable] [Sanitizer] in
/-- A draft needs no more than its lock and its report. -/
theorem Phase.Holds.frame {s s' : Shared} {x : Phase} (h : x.Holds s c)
    (hs : ∀ id, s.holder id = some c →
      s'.holder id = some c ∧ s'.reports.get? id = s.reports.get? id) : x.Holds s' c := by
  cases x with
  | drafting base draft =>
    obtain ⟨hholder, hbases⟩ := h
    obtain ⟨hholder', hreports⟩ := hs _ hholder
    refine ⟨hholder', ?_⟩
    cases base with
    | none => exact ⟨hreports.trans hbases.1, hbases.2⟩
    | some base => exact ⟨hreports.trans hbases.1, hbases.2⟩
  | _ => trivial

omit [WordTable] [Sanitizer] in
theorem Shared.Sound.pass {s : Shared} (h : s.Sound) (id : String) (c : Option ℕ) :
    (s.pass id c).Sound := ⟨h.numbered, h.reported, h.rendered, h.hashed⟩

omit [WordTable] [Sanitizer] in
theorem Guarded.enter {x : Phase} (h : Guarded w) (hx : x.Holds w.shared c) :
    Guarded (w.enter c x) :=
  ⟨h.stored, Clients.forall_enter hx h.phase⟩

omit [WordTable] [Sanitizer] in
theorem Guarded.refuse (h : Guarded w) (e : Refusal) : Guarded (refuse w c e) := h.enter trivial

omit [WordTable] [Sanitizer] in
/-- A lock that no other call has goes to this call, or to nobody. -/
theorem Guarded.pass {reportId : String} {owner : Option ℕ} {x : Phase} (h : Guarded w)
    (hfree : ∀ d ≠ c, w.shared.holder reportId ≠ some d)
    (hx : x.Holds (w.shared.pass reportId owner) c) :
    Guarded (w.commit c (w.shared.pass reportId owner) x id) := by
  refine ⟨h.stored.pass reportId owner, Clients.forall_commit hx fun d hd => ?_⟩
  refine (h.phase d).frame fun other hother => ⟨?_, rfl⟩
  have hne : other ≠ reportId := fun heq => hfree d hd (heq ▸ hother)
  exact (if_neg hne).trans hother

omit [WordTable] [Sanitizer] in
theorem Guarded.rollback {reportId : String} (h : Guarded w)
    (hc : w.shared.holder reportId = some c) (e : Refusal) :
    Guarded (rollback w c reportId e) :=
  h.pass (fun _ hd heq => hd (Option.some.inj (heq.symm.trans hc))) trivial

/-! ## Statement by statement -/

theorem Guarded.create {request : HttpRequest} {programId newId : String} {body : ReportContent}
    {createdAt : Instant} (h : Guarded w) :
    Guarded (create identity w c request programId body newId createdAt) := by
  unfold Deliverables.create
  split
  · exact h.refuse _
  split
  · exact h.refuse _
  rename_i hnew
  rw [Bool.or_eq_true, not_or, Option.not_isSome_iff_eq_none, Option.not_isSome_iff_eq_none] at hnew
  refine h.pass (fun d _ hd => ?_) ⟨if_pos rfl, hnew.1, rfl⟩
  rw [hnew.2] at hd
  cases hd

theorem Guarded.revise {request : HttpRequest} {programId reportId : String} {body : ReportContent}
    {base : ℤ} (h : Guarded w) :
    Guarded (revise identity w c request programId reportId body base) := by
  unfold Deliverables.revise
  split
  · exact h.refuse _
  · exact h.enter trivial

omit [WordTable] [Sanitizer] in
theorem Guarded.mark {request : HttpRequest} {programId reportId : String} {revision : ℤ}
    {status : ReportStatus} (h : Guarded w) :
    Guarded (mark identity w c request programId reportId revision status) := by
  unfold Deliverables.mark
  split
  · exact h.refuse _
  · exact h.enter trivial

omit [Unicode] [WordTable] [Sanitizer] in
theorem Shared.report_eq_ok {s : Shared} {programId reportId : String}
    {report : EngagementDeliverable} (h : s.report programId reportId = .ok report) :
    s.reports.get? reportId = some report ∧ report.id = reportId := by
  have hget := (Option.filter_eq_some_iff.mp (found_eq_ok h)).1
  exact ⟨hget, Table.key_of_get? hget⟩

omit [WordTable] [Sanitizer] in
theorem Guarded.lock {request : Request} (h : Guarded w) (hnext : lock w c request = some w') :
    Guarded w' := by
  unfold Deliverables.lock at hnext
  split at hnext
  · exact Option.some.inj hnext ▸ h.refuse _
  rename_i report hreport
  obtain ⟨hget, hid⟩ := Shared.report_eq_ok hreport
  split at hnext
  · cases hnext
  rename_i hfree
  rw [Option.not_isSome_iff_eq_none] at hfree
  split at hnext
  · rename_i hbase
    obtain rfl := Option.some.inj hnext
    refine h.pass (fun d _ hd => ?_) ⟨if_pos rfl, hid.symm ▸ hget, hbase⟩
    rw [hfree] at hd
    cases hd
  · exact Option.some.inj hnext ▸ h.refuse _

omit [WordTable] [Sanitizer] in
theorem Guarded.read {base : Option ℤ} {draft : Draft} (h : Guarded w)
    (hc : w.phase c = .drafting base draft) (hnext : read w c base draft = some w') :
    Guarded w' := by
  unfold Deliverables.read at hnext
  split at hnext
  · obtain rfl := Option.some.inj hnext
    have hholds := h.phase c
    rw [hc] at hholds
    exact h.enter hholds
  · cases hnext

/-! ### The write of a status -/

omit [Unicode] [WordTable] [Sanitizer] in
/-- Another row at most in its status. -/
def DeliverableRevision.Kept (r r' : DeliverableRevision) : Prop := ∃ status, r' = { r with status }

omit [Unicode] [WordTable] [Sanitizer] in
theorem DeliverableRevision.Kept.refl (r : DeliverableRevision) : r.Kept r := ⟨r.status, rfl⟩

omit [Unicode] [WordTable] [Sanitizer] in
theorem Shared.get?_stored {s : Shared} {id : String} {stored : DeliverableRevision}
    (hstored : s.revisions.get? id = some stored) : s.revisions.get? stored.id = some stored :=
  Table.get?_of_mem (Table.mem_of_get? hstored)

omit [Unicode] [WordTable] [Sanitizer] in
theorem rewrites_mark {s : Shared} {stored : DeliverableRevision}
    (hstored : s.revisions.get? stored.id = some stored) (status : ReportStatus) :
    Table.Rewrites DeliverableRevision.Kept s.revisions
      (s.revisions.put { stored with status }) :=
  .put (r := { stored with status }) hstored ⟨status, rfl⟩ DeliverableRevision.Kept.refl

omit [WordTable] [Sanitizer] in
theorem Shared.Sound.mark {s : Shared} (h : s.Sound) {stored : DeliverableRevision}
    (hstored : s.revisions.get? stored.id = some stored) (status : ReportStatus) :
    Shared.Sound { s with revisions := s.revisions.put { stored with status } } := by
  have hrow : ∀ row ∈ (s.revisions.put { stored with status }).rows,
      ∃ r ∈ s.revisions.rows, r.Kept row := fun row hmem => by
    obtain ⟨r, hr, hkept⟩ := (rewrites_mark hstored status).backward (Table.get?_of_mem hmem)
    exact ⟨r, Table.mem_of_get? hr, hkept⟩
  refine ⟨fun id report hreport => ?_, fun row hmem => ?_, fun row hmem => ?_, fun row hmem => ?_⟩
  · have hnumbers : Shared.numbers { s with revisions := s.revisions.put { stored with status } }
        id = s.numbers id := by
      unfold Shared.numbers
      exact Table.project_put hstored rfl rfl
    exact hnumbers ▸ h.numbered id report hreport
  all_goals obtain ⟨r, hr, status, rfl⟩ := hrow row hmem
  · exact h.reported r hr
  · exact h.rendered r hr
  · exact h.hashed r hr

omit [WordTable] [Sanitizer] in
theorem Guarded.write {row : DeliverableRevision} {status : ReportStatus} (h : Guarded w) :
    Guarded (write w c row status) := by
  unfold Deliverables.write
  split
  · exact h.refuse _
  rename_i stored hstored
  split
  · exact h.enter trivial
  · refine ⟨h.stored.mark (Shared.get?_stored hstored) status, Clients.forall_commit trivial ?_⟩
    exact fun d _ => (h.phase d).frame fun _ hholder => ⟨hholder, rfl⟩

/-! ### The commit of a revision -/

omit [Unicode] [WordTable] [Sanitizer] in
/-- What the commit stores. -/
theorem Shared.add_eq_ok {s s' : Shared} {base : Option ℤ} {report : EngagementDeliverable}
    {row : DeliverableRevision} (h : s.add base report row = .ok s') :
    ∃ reports revisions, s' = { s with reports, revisions } ∧
      s.revisions.insert row = some revisions ∧
      (base = none ∧ s.reports.insert report = some reports ∨
        base ≠ none ∧ reports = s.reports.put report) := by
  obtain ⟨reports, hreports, h⟩ := bind_eq_ok h
  obtain ⟨-, -, h⟩ := bind_eq_ok h
  obtain ⟨revisions, hrevisions, h⟩ := bind_eq_ok h
  refine ⟨reports, revisions, (Except.ok.inj h).symm, found_eq_ok hrevisions, ?_⟩
  cases base with
  | none => exact .inl ⟨rfl, found_eq_ok hreports⟩
  | some base => exact .inr ⟨nofun, (Except.ok.inj hreports).symm⟩

omit [Unicode] [WordTable] [Sanitizer] in
/-- The committed report is stored, and every other one stays. -/
theorem Shared.get?_add {s s' : Shared} {base : Option ℤ} {report old : EngagementDeliverable}
    {row : DeliverableRevision} (h : s.add base report row = .ok s') (hid : report.id = old.id)
    (hold : s.Bases old base) (id : String) :
    s'.reports.get? id = if report.id = id then some report else s.reports.get? id := by
  obtain ⟨reports, revisions, rfl, -, ⟨-, hreports⟩ | ⟨hbase, rfl⟩⟩ := Shared.add_eq_ok h
  · exact Table.get?_insert hreports id
  · cases base with
    | none => exact absurd rfl hbase
    | some base =>
      have hstored : s.reports.get? report.id = some old := hid ▸ hold.1
      exact Table.get?_put hstored id

omit [WordTable] [Sanitizer] in
/-- The revisions of a draft's report are numbered up to the latest one it has read. -/
theorem Shared.Sound.numbers_bases {s : Shared} (h : s.Sound) {base : Option ℤ}
    {report : EngagementDeliverable} (hbases : s.Bases report base) :
    (s.numbers report.id).Perm (List.range' 1 report.latestRevision) := by
  cases base with
  | some base => exact h.numbered _ _ hbases.1
  | none =>
    have hnone : s.revisions.rows.filter (fun r => r.deliverableId == report.id) = [] := by
      refine List.filter_eq_nil_iff.mpr fun row hrow hid => ?_
      obtain ⟨stored, hstored⟩ := h.reported row hrow
      rw [beq_iff_eq.mp hid, hbases.1] at hstored
      cases hstored
    rw [Shared.numbers, hnone, hbases.2]
    exact .nil

omit [WordTable] [Sanitizer] in
theorem Shared.Sound.add {s s' : Shared} (h : s.Sound) {base : Option ℤ}
    {report old : EngagementDeliverable} {row : DeliverableRevision}
    (hadd : s.add base report row = .ok s') (hid : report.id = old.id) (hold : s.Bases old base)
    (hlatest : report.latestRevision = old.latestRevision + 1)
    (hrow : row.deliverableId = report.id ∧ row.revision = report.latestRevision)
    (hrendered : markdown row.snapshot = .ok row.markdown)
    (hhashed : row.contentHash = Sha256.ofText row.markdown) : s'.Sound := by
  have hget := Shared.get?_add hadd hid hold
  obtain ⟨reports, revisions, rfl, hrevisions, -⟩ := Shared.add_eq_ok hadd
  have hrows : revisions.rows = s.revisions.rows ++ [row] := Table.rows_of_insert hrevisions
  have hmem : ∀ r ∈ revisions.rows, r ∈ s.revisions.rows ∨ r = row := fun r hr => by
    simpa [hrows] using hr
  refine ⟨fun id stored hstored => ?_, fun r hr => ?_, fun r hr => ?_, fun r hr => ?_⟩
  · simp only [hget] at hstored
    split at hstored
    · rename_i heq
      obtain rfl := Option.some.inj hstored
      have hnumbers := h.numbers_bases hold
      rw [← hid, heq] at hnumbers
      simp only [Shared.numbers, hrows, List.filter_append, List.map_append, hlatest,
        List.range'_1_concat]
      refine hnumbers.append (List.Perm.of_eq ?_)
      simp [hrow, heq, hlatest, Nat.add_comm]
    · rename_i hne
      have hother : (row.deliverableId == id) = false := by simpa [hrow.1] using hne
      have hnumbers := h.numbered id stored hstored
      rw [Shared.numbers] at hnumbers ⊢
      simpa [hrows, hother] using hnumbers
  · simp only [hget]
    rcases hmem r hr with hr | rfl
    · obtain ⟨stored, hstored⟩ := h.reported r hr
      split
      · exact ⟨_, rfl⟩
      · exact ⟨stored, hstored⟩
    · exact ⟨report, if_pos hrow.1.symm⟩
  · rcases hmem r hr with hr | rfl
    · exact h.rendered r hr
    · exact hrendered
  · rcases hmem r hr with hr | rfl
    · exact h.hashed r hr
    · exact hhashed

omit [Sanitizer] in
/-- What an accepted draft has stored. -/
theorem save_eq_some {base : Option ℤ} {draft : Draft} {now : DateTime} {newId : String}
    {createdAt : Instant} (hnext : save w c base draft now newId createdAt = some w') :
    (∃ e, w' = rollback w c draft.report.id e) ∨
      ∃ row s, newRevision draft.author.engagement draft.author.profile draft.report draft.body
          draft.author.user.githubId draft.view now createdAt newId = .ok row ∧
        w.shared.add base (draft.report.revised row draft.body) row = .ok s ∧
        w' = w.commit c (s.pass draft.report.id none) (.ended (.ok row)) id := by
  unfold save at hnext
  split at hnext
  · cases hnext
  split at hnext
  · exact .inl ⟨_, (Option.some.inj hnext).symm⟩
  rename_i row hrow
  split at hnext
  · exact .inl ⟨_, (Option.some.inj hnext).symm⟩
  · exact .inr ⟨row, _, hrow, ‹_›, (Option.some.inj hnext).symm⟩

omit [Sanitizer] in
theorem Guarded.save {base : Option ℤ} {draft : Draft} {now : DateTime} {newId : String}
    {createdAt : Instant} (h : Guarded w) (hc : w.phase c = .drafting base draft)
    (hnext : save w c base draft now newId createdAt = some w') : Guarded w' := by
  have hholds := h.phase c
  rw [hc] at hholds
  obtain ⟨hholder, hbases⟩ := hholds
  obtain ⟨e, rfl⟩ | ⟨row, s, hrow, hadd, rfl⟩ := save_eq_some hnext
  · exact h.rollback hholder e
  obtain ⟨⟨-, hid, hrevision⟩, -, hrendered, hhashed⟩ := newRevision_eq_ok hrow
  have hreport : (draft.report.revised row draft.body).id = draft.report.id := rfl
  have hsound := h.stored.add hadd hreport hbases hrevision ⟨hid, rfl⟩ hrendered hhashed
  refine ⟨hsound.pass _ _, Clients.forall_commit trivial fun d hd => ?_⟩
  refine (h.phase d).frame fun other hother => ?_
  -- another call has the lock of another report
  have hne : other ≠ draft.report.id := by
    rintro rfl
    exact hd (Option.some.inj (hother.symm.trans hholder))
  have hget := Shared.get?_add hadd hreport hbases other
  obtain ⟨reports, revisions, rfl, -⟩ := Shared.add_eq_ok hadd
  exact ⟨(if_neg hne).trans hother, hget.trans (if_neg (Ne.symm hne))⟩

theorem Guarded.step {a : Action} (h : Guarded w) (hnext : next identity w a = some w') :
    Guarded w' := by
  unfold next at hnext
  split at hnext
  · obtain rfl := Option.some.inj hnext
    exact ⟨⟨h.stored.numbered, h.stored.reported, h.stored.rendered, h.stored.hashed⟩,
      fun c => (h.phase c).frame fun _ hholder => ⟨hholder, rfl⟩⟩
  split at hnext
  · exact Option.some.inj hnext ▸ h.create
  · exact Option.some.inj hnext ▸ h.revise
  · exact h.lock hnext
  · exact h.read ‹_› hnext
  · exact h.save ‹_› hnext
  · exact Option.some.inj hnext ▸ h.mark
  · exact Option.some.inj hnext ▸ h.write
  · cases hnext

omit [WordTable] [Sanitizer] in
theorem guarded_start (db : Db) (record : Record) : Guarded (start db record) := by
  refine ⟨⟨fun id report h => ?_, fun row h => ?_, fun row h => ?_, fun row h => ?_⟩,
    fun _ => trivial⟩
  · cases h
  all_goals cases h

theorem Interleaving.guarded {db : Db} {record : Record} {actions : List Action}
    (h : Interleaving identity (start db record) actions w) : Guarded w :=
  h.invariant Guarded (fun hw hs => by cases hs with | step hnext => exact hw.step hnext)
    (guarded_start db record)

/-! ## What a statement stores -/

omit [Unicode] [WordTable] [Sanitizer] in
/-- Revisions stay, each changed at most in its status. -/
def Shared.Keeps (s s' : Shared) : Prop := ∀ id row, s.revisions.get? id = some row →
  ∃ row', s'.revisions.get? id = some row' ∧ row.Kept row'

omit [Unicode] [WordTable] [Sanitizer] in
/-- The reports and the revisions are the ones before. -/
def Shared.Leaves (s s' : Shared) : Prop := s'.reports = s.reports ∧ s'.revisions = s.revisions

omit [Unicode] [WordTable] [Sanitizer] in
theorem Shared.Leaves.keeps {s s' : Shared} (h : s.Leaves s') : s.Keeps s' := fun _ row hrow =>
  ⟨row, h.2 ▸ hrow, .refl row⟩

/-- A draft is committed: its base was the latest revision, and the next one, with a snapshot of
what the draft has read, is added to the report and to nothing else. -/
structure Added (s s' : Shared) (base : Option ℤ) (draft : Draft) (row : DeliverableRevision) :
    Prop where
  bases : s.Bases draft.report base
  numbered : row.deliverableId = draft.report.id ∧
    row.revision = draft.report.latestRevision + 1
  taken : ∃ now, snapshot draft.author.engagement draft.author.profile draft.body row.revision now
    draft.view = .ok row.snapshot
  report : s'.reports.get? draft.report.id = some (draft.report.revised row draft.body)
  reports : ∀ id ≠ draft.report.id, s'.reports.get? id = s.reports.get? id
  new : s.revisions.get? row.id = none
  revisions : s'.revisions.rows = s.revisions.rows ++ [row]

/-- Every row of another identifier stays, and the row itself keeps all but its status. -/
def Shared.Marks (s s' : Shared) (id : String) : Prop :=
  s'.reports = s.reports ∧ (∀ other ≠ id, s'.revisions.get? other = s.revisions.get? other) ∧
    Option.Rel DeliverableRevision.Kept (s.revisions.get? id) (s'.revisions.get? id)

omit [Sanitizer] in
theorem Guarded.added {base : Option ℤ} {draft : Draft} {now : DateTime} {newId : String}
    {createdAt : Instant} {row : DeliverableRevision} (h : Guarded w)
    (hc : w.phase c = .drafting base draft)
    (hnext : Deliverables.save w c base draft now newId createdAt = some w')
    (hended : w'.phase c = .ended (.ok row)) : Added w.shared w'.shared base draft row := by
  have hholds := h.phase c
  rw [hc] at hholds
  obtain ⟨e, rfl⟩ | ⟨row', s, hrow, hadd, rfl⟩ := save_eq_some hnext
  · simp [Deliverables.rollback, Clients.phase_commit] at hended
  obtain rfl : row' = row := by simpa [Clients.phase_commit] using hended
  obtain ⟨⟨-, hid, hrevision⟩, hsnapshot, -⟩ := newRevision_eq_ok hrow
  have hreport : (draft.report.revised row' draft.body).id = draft.report.id := rfl
  have hget := Shared.get?_add hadd hreport hholds.2
  obtain ⟨reports, revisions, rfl, hrevisions, -⟩ := Shared.add_eq_ok hadd
  exact {
    bases := hholds.2
    numbered := ⟨hid, hrevision⟩
    taken := ⟨now, hsnapshot⟩
    report := (hget _).trans (if_pos rfl)
    reports := fun id hne => (hget id).trans (if_neg (Ne.symm hne))
    new := Table.get?_of_insert hrevisions
    revisions := Table.rows_of_insert hrevisions }

omit [Sanitizer] in
theorem Added.keeps {s s' : Shared} {base : Option ℤ} {draft : Draft} {row : DeliverableRevision}
    (h : Added s s' base draft row) : s.Keeps s' := fun id r hr => by
  refine ⟨r, ?_, .refl r⟩
  obtain ⟨hmem, hid⟩ := Table.get?_eq_some.mp hr
  exact Table.get?_eq_some.mpr ⟨h.revisions ▸ List.mem_append_left _ hmem, hid⟩

omit [Unicode] [WordTable] [Sanitizer] in
theorem write_cases (w : Calls) (c : ℕ) (row : DeliverableRevision) (status : ReportStatus) :
    w.shared.Leaves (write w c row status).shared ∨
      (∃ marked, (write w c row status).phase c = .ended (.ok marked)) ∧
        w.shared.Marks (write w c row status).shared row.id := by
  unfold write
  split
  · exact .inl ⟨rfl, rfl⟩
  rename_i stored hstored
  split
  · exact .inl ⟨rfl, rfl⟩
  have hid : stored.id = row.id := Table.key_of_get? hstored
  refine .inr ⟨⟨_, if_pos rfl⟩, rfl, fun other hne => ?_, ?_⟩
  · exact Table.get?_put_ne fun hkey => hne (hkey.symm.trans hid)
  · exact rewrites_mark (Shared.get?_stored hstored) status row.id

omit [Unicode] [WordTable] [Sanitizer] in
theorem Shared.Marks.keeps {s s' : Shared} {id : String} (h : s.Marks s' id) : s.Keeps s' := by
  intro other row hrow
  by_cases hid : other = id
  · subst hid
    have hrel := h.2.2
    rw [hrow] at hrel
    cases hs' : s'.revisions.get? other with
    | none => simp [hs'] at hrel
    | some row' => exact ⟨row', rfl, by simpa [hs'] using hrel⟩
  · exact ⟨row, (h.2.1 other hid).trans hrow, .refl row⟩

/-- A statement that begins a call, or reads, stores nothing. -/
theorem leaves_create {request : HttpRequest} {programId newId : String} {body : ReportContent}
    {createdAt : Instant} :
    w.shared.Leaves (create identity w c request programId body newId createdAt).shared := by
  unfold create
  split
  · exact ⟨rfl, rfl⟩
  · split <;> exact ⟨rfl, rfl⟩

theorem leaves_revise {request : HttpRequest} {programId reportId : String} {body : ReportContent}
    {base : ℤ} :
    w.shared.Leaves (revise identity w c request programId reportId body base).shared := by
  unfold revise
  split <;> exact ⟨rfl, rfl⟩

omit [WordTable] [Sanitizer] in
theorem leaves_mark {request : HttpRequest} {programId reportId : String} {revision : ℤ}
    {status : ReportStatus} :
    w.shared.Leaves (mark identity w c request programId reportId revision status).shared := by
  unfold mark
  split <;> exact ⟨rfl, rfl⟩

omit [Unicode] [WordTable] [Sanitizer] in
theorem leaves_lock {request : Request} (hnext : lock w c request = some w') :
    w.shared.Leaves w'.shared := by
  unfold lock at hnext
  split at hnext
  · exact Option.some.inj hnext ▸ ⟨rfl, rfl⟩
  split at hnext
  · cases hnext
  split at hnext <;> exact Option.some.inj hnext ▸ ⟨rfl, rfl⟩

omit [Unicode] [WordTable] [Sanitizer] in
theorem leaves_read {base : Option ℤ} {draft : Draft} (hnext : read w c base draft = some w') :
    w.shared.Leaves w'.shared := by
  unfold read at hnext
  split at hnext
  · exact Option.some.inj hnext ▸ ⟨rfl, rfl⟩
  · cases hnext

/-- A statement of one call: it stores nothing, adds a revision, or marks one. -/
inductive Effect (w w' : Calls) (c : ℕ) : Prop
  | leaves (h : w.shared.Leaves w'.shared)
  | adds (base : Option ℤ) (draft : Draft) (row : DeliverableRevision)
      (hended : w'.phase c = .ended (.ok row)) (h : Added w.shared w'.shared base draft row)
  | marks (row marked : DeliverableRevision) (hended : w'.phase c = .ended (.ok marked))
      (h : w.shared.Marks w'.shared row.id)

theorem Guarded.effect {s : Statement} (h : Guarded w)
    (hnext : next identity w (.call c s) = some w') : Effect w w' c := by
  unfold next at hnext
  dsimp only at hnext
  split at hnext
  · exact Option.some.inj hnext ▸ .leaves leaves_create
  · exact Option.some.inj hnext ▸ .leaves leaves_revise
  · exact .leaves (leaves_lock hnext)
  · exact .leaves (leaves_read hnext)
  · rename_i base draft now newId createdAt hc
    obtain ⟨e, heq⟩ | ⟨row, s, -, -, heq⟩ := save_eq_some hnext
    · exact .leaves (heq ▸ ⟨rfl, rfl⟩)
    · have hended : w'.phase c = .ended (.ok row) := by simp [heq, Clients.phase_commit]
      exact .adds base draft row hended (h.added hc hnext hended)
  · exact Option.some.inj hnext ▸ .leaves leaves_mark
  · rename_i row status hc
    obtain rfl := Option.some.inj hnext
    obtain h | ⟨⟨marked, hended⟩, h⟩ := write_cases w c row status
    · exact .leaves h
    · exact .marks row marked hended h
  · cases hnext

theorem Guarded.keeps {a : Action} (h : Guarded w) (hnext : next identity w a = some w') :
    w.shared.Keeps w'.shared := by
  cases a with
  | edit db record =>
    obtain rfl := Option.some.inj hnext
    exact Shared.Leaves.keeps ⟨rfl, rfl⟩
  | call c s =>
    cases h.effect hnext with
    | leaves h => exact h.keeps
    | adds _ _ _ _ h => exact h.keeps
    | marks _ _ _ h => exact h.keeps

theorem Interleaving.keeps {actions : List Action} (hw : Guarded w)
    (h : Interleaving identity w actions w') : w.shared.Keeps w'.shared := by
  refine h.relates Guarded (fun w w' => w.shared.Keeps w'.shared)
    (fun hw hs => by cases hs with | step hnext => exact hw.step hnext)
    (fun hw hs => by cases hs with | step hnext => exact hw.keeps hnext)
    (fun _ _ row hrow => ⟨row, hrow, .refl row⟩) (fun h₁ h₂ id row hrow => ?_) hw
  obtain ⟨row₁, hrow₁, status₁, rfl⟩ := h₁ id row hrow
  obtain ⟨row₂, hrow₂, status₂, rfl⟩ := h₂ id _ hrow₁
  exact ⟨_, hrow₂, status₂, rfl⟩

/-! ## Append-only revisions -/

/-- What holds of the stored reports whenever some calls have run, are running, or are still to
come. -/
structure AppendOnly (identity : Identity) (w : Calls) : Prop where
  gapFree : ∀ report ∈ w.shared.reports.rows,
    (w.shared.numbers report.id).Perm (List.range' 1 report.latestRevision)
  reported : ∀ row ∈ w.shared.revisions.rows,
    ∃ report, w.shared.reports.get? row.deliverableId = some report
  rendered : ∀ row ∈ w.shared.revisions.rows, markdown row.snapshot = .ok row.markdown
  hashed : ∀ row ∈ w.shared.revisions.rows, row.contentHash = Sha256.ofText row.markdown
  accepted : ∀ c s w' base draft row, w.phase c = .drafting base draft →
    next identity w (.call c s) = some w' → w'.phase c = .ended (.ok row) →
      Added w.shared w'.shared base draft row
  stale : ∀ c s w' request report, w.phase c = .locking request →
    w.shared.report request.programId request.reportId = .ok report →
    request.base ≠ report.latestRevision → next identity w (.call c s) = some w' →
      w'.shared = w.shared ∧ w'.phase c =
        .ended (.error (.http 409 "A newer revision exists; reload it before saving"))
  refused : ∀ c s w' e, next identity w (.call c s) = some w' →
    w'.phase c = .ended (.error e) → w.shared.Leaves w'.shared
  marked : ∀ c s w' row status, w.phase c = .marking row status →
    next identity w (.call c s) = some w' → w.shared.Marks w'.shared row.id
  kept : ∀ actions w', Interleaving identity w actions w' → w.shared.Keeps w'.shared

theorem Guarded.accepted {s : Statement} {base : Option ℤ} {draft : Draft}
    {row : DeliverableRevision} (h : Guarded w) (hc : w.phase c = .drafting base draft)
    (hnext : next identity w (.call c s) = some w') (hended : w'.phase c = .ended (.ok row)) :
    Added w.shared w'.shared base draft row := by
  unfold next at hnext
  simp only [hc] at hnext
  cases s with
  | save now newId createdAt => exact h.added hc hnext hended
  | read =>
    have hread : Deliverables.read w c base draft = some w' := hnext
    unfold Deliverables.read at hread
    split at hread
    · obtain rfl := Option.some.inj hread
      simp [Clients.phase_enter] at hended
    · cases hread
  | _ => cases hnext

/-- A stale base is refused once the lock is there, and the lock is not kept. -/
theorem next_stale {s : Statement} {request : Request} {report : EngagementDeliverable}
    (hc : w.phase c = .locking request)
    (hreport : w.shared.report request.programId request.reportId = .ok report)
    (hbase : request.base ≠ report.latestRevision)
    (hnext : next identity w (.call c s) = some w') :
    w'.shared = w.shared ∧ w'.phase c =
      .ended (.error (.http 409 "A newer revision exists; reload it before saving")) := by
  unfold next at hnext
  simp only [hc] at hnext
  cases s with
  | lock =>
    simp only [lock, hreport, if_neg hbase] at hnext
    split at hnext
    · cases hnext
    · obtain rfl := Option.some.inj hnext
      exact ⟨rfl, if_pos rfl⟩
  | _ => cases hnext

theorem Guarded.refused {s : Statement} {e : Refusal} (h : Guarded w)
    (hnext : next identity w (.call c s) = some w') (hended : w'.phase c = .ended (.error e)) :
    w.shared.Leaves w'.shared := by
  cases h.effect hnext with
  | leaves h => exact h
  | adds _ _ _ hok => cases hok.symm.trans hended
  | marks _ _ hok => cases hok.symm.trans hended

omit [Unicode] [WordTable] [Sanitizer] in
theorem Shared.Leaves.marks {s s' : Shared} (h : s.Leaves s') (id : String) : s.Marks s' id := by
  refine ⟨h.1, fun _ _ => h.2 ▸ rfl, ?_⟩
  rw [h.2]
  cases s.revisions.get? id with
  | none => exact .none
  | some r => exact .some (.refl r)

theorem next_marking {s : Statement} {row : DeliverableRevision} {status : ReportStatus}
    (hc : w.phase c = .marking row status) (hnext : next identity w (.call c s) = some w') :
    w.shared.Marks w'.shared row.id := by
  unfold next at hnext
  simp only [hc] at hnext
  cases s with
  | write =>
    obtain rfl := Option.some.inj hnext
    obtain h | ⟨-, h⟩ := write_cases w c row status
    · exact h.marks row.id
    · exact h
  | _ => cases hnext

/-- For every interleaving of calls that create reports, add revisions and set their status,
and of edits of the testing record: the revisions of a report are numbered from 1 to the latest
one without a gap; what is added follows the base that its author saw, and a stale base is
refused; and a stored revision keeps all but its status. -/
theorem revisions_append_only {db : Db} {record : Record} {actions : List Action}
    (h : Interleaving identity (start db record) actions w) : AppendOnly identity w := by
  have hw := Interleaving.guarded h
  exact {
    gapFree := fun report hmem => hw.stored.numbered _ _ (Table.get?_of_mem hmem)
    reported := hw.stored.reported
    rendered := hw.stored.rendered
    hashed := hw.stored.hashed
    accepted := fun _ _ _ _ _ _ hc hnext hended => hw.accepted hc hnext hended
    stale := fun _ _ _ _ _ hc hreport hbase hnext => next_stale hc hreport hbase hnext
    refused := fun _ _ _ _ hnext hended => hw.refused hnext hended
    marked := fun _ _ _ _ _ hc hnext => next_marking hc hnext
    kept := fun _ _ hrun => Interleaving.keeps hw hrun }

end

/-- The one engagement, and whose it is. -/
def exampleEngagements : Db :=
  { Db.empty with
    engagements := .single {
      id := "e1", ownerGithubId := "owner", orgId := none, engagementType := none
      engagementStatus := none, startsAt := none, endsAt := none, stopWorkAt := none
      maxRequestRate := none, concurrencyLimit := none, targetLimit := none, targetsSpent := 0
      durationLimit := none, durationAllocated := 0, managedAuthorityRevision := 0 } }

/-- Its record, with a finding of this title. -/
def exampleRecord (title : String) : Record :=
  { Record.empty with
    profiles := .single ⟨"e1", "Portal", none⟩
    findings := .single ⟨"f1", "e1", title, some "high", none, some "new", none, none, none, none,
      none⟩ }

/-- Sessions that carry the login of their user. -/
def exampleSessions : Identity where
  configured := true
  resolveSession request := .ok ⟨request.sessionCookie.getD "", "full", none⟩
  resolveJwt _ := .error (.http 401 "Unauthorized")

def exampleContent : ReportContent := ⟨"Report", "", "", "", "", none, []⟩

def exampleNow : DateTime := ⟨63840000000000000, some 0, by decide⟩

/-- The second author saves the second revision, over an edited finding; the third author, who
saw the first revision too, comes too late; and the first revision becomes final. -/
def exampleActions : List Action :=
  let owner : HttpRequest := ⟨none, some "owner"⟩
  let reads (c : ℕ) : List Action := queries.map fun _ => .call c .read
  [.call 1 (.create owner "e1" exampleContent "r1" 0)] ++ reads 1 ++
    [.call 1 (.save exampleNow "v1" 1), .call 2 (.revise owner "e1" "r1" exampleContent 1),
      .call 3 (.revise owner "e1" "r1" exampleContent 1), .call 2 .lock,
      .edit exampleEngagements (exampleRecord "New title")] ++ reads 2 ++
    [.call 2 (.save exampleNow "v2" 2), .call 3 .lock,
      .call 4 (.mark owner "e1" "r1" 1 .final), .call 4 .write]

theorem revisions_append_only_example : ∃ w : Calls,
    @AppendOnly Unicode.ascii WordTable.ascii ⟨id⟩ exampleSessions w ∧
      w.shared.revisions.rows.map (fun r => (r.revision, r.status)) =
        [(1, .final), (2, .draft)] := by
  let _ := Unicode.ascii
  let _ := WordTable.ascii
  let _ : Sanitizer := ⟨id⟩
  let taken := exampleActions.foldlM (fun s a => if True then next exampleSessions s a else none)
    (start exampleEngagements (exampleRecord "Old title"))
  have hrows : taken.map (fun w => w.shared.revisions.rows.map fun r => (r.revision, r.status)) =
      some [(1, .final), (2, .draft)] := by decide +kernel
  obtain ⟨w, hw, hrows⟩ := Option.map_eq_some_iff.mp hrows
  have h : Interleaving exampleSessions
      (start exampleEngagements (exampleRecord "Old title")) exampleActions w :=
    Lib.Run.of_foldlM hw
  exact ⟨w, revisions_append_only h, hrows⟩

end VardrMap.Deliverables
