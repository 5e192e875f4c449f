import VardrMap.Changes.Finality

/-!
# The authority revision

No operation lowers the revision of an engagement, and every one that changes a fact which a
projection reads raises it. An approval is bound to the revision that it was registered at, so
that a change ends its use for good, even when the fact is changed back.
-/
namespace VardrMap
open Lib

variable [Unicode] {rt : Runtime}

/-- The specification of the case that a job names, inside its engagement. -/
def Db.caseSpec (db : Db) (j : ScanJob) : Option Json :=
  match j.testCaseId with
  | .ok text => db.specOf j.programId text
  | .error _ => none

/-! ## One change -/

theorem Db.Spent.mono {db db' : Db} {k : String} (h : db.Spent k) (hids : db.ids ⊆ db'.ids) :
    db'.Spent k := h.imp_left fun hk => hids hk

/-- What an engagement and its cases show is the same as before. -/
structure Unrevised (db db' : Db) (e e' : Engagement) : Prop where
  facts : db'.facts e' = db.facts e
  cases : ∀ k, db.Spent k → db'.specOf e.id k = db.specOf e.id k

theorem Unrevised.refl (db : Db) (e : Engagement) : Unrevised db db e e := ⟨rfl, fun _ _ => rfl⟩

/-- How a change revises an engagement. -/
structure Revises (db db' : Db) (e e' : Engagement) : Prop where
  revision_le : e.managedAuthorityRevision ≤ e'.managedAuthorityRevision
  same : e'.managedAuthorityRevision = e.managedAuthorityRevision → Unrevised db db' e e'

theorem Revises.of_unrevised {db db' : Db} {e e' : Engagement}
    (hrevision : e'.managedAuthorityRevision = e.managedAuthorityRevision)
    (h : Unrevised db db' e e') : Revises db db' e e' := ⟨hrevision.ge, fun _ => h⟩

/-- An engagement that is not written, in tables of facts that are the same. -/
theorem Revises.untouched {db db' : Db} {e e' : Engagement} {k : String}
    (he : db.engagements.get? k = some e) (he' : db.engagements.get? k = some e')
    (hscope : db'.scopeItems = db.scopeItems)
    (hauthorizations : db'.authorizations = db.authorizations)
    (hcases : db'.testCases = db.testCases) : Revises db db' e e' := by
  obtain rfl := Option.some.inj (he.symm.trans he')
  refine .of_unrevised rfl ⟨?_, fun k _ => ?_⟩
  · unfold Db.facts Db.scopeOf Db.authorizationsOf
    rw [hscope, hauthorizations]
  · unfold Db.specOf
    rw [hcases]

/-- A claim charges the engagement, and leaves its facts. -/
theorem Revises.charged {db db' : Db} {j : ScanJob} {e e' x x' : Engagement} {c : Charge}
    {k : String} (h : Admits db j e e' c) (hx : db.engagements.get? k = some x)
    (hx' : (db.engagements.put e').get? k = some x')
    (hscope : db'.scopeItems = db.scopeItems)
    (hauthorizations : db'.authorizations = db.authorizations)
    (hcases : db'.testCases = db.testCases) : Revises db db' x x' := by
  rcases Table.of_get?_put h.stored_key hx' with ⟨rfl, rfl⟩ | ⟨-, hx'⟩
  · obtain rfl := Option.some.inj (hx.symm.trans h.stored_key)
    rw [h.charged]
    refine .of_unrevised rfl ⟨?_, fun k _ => ?_⟩
    · unfold Db.facts Db.scopeOf Db.authorizationsOf
      rw [hscope, hauthorizations]
    · unfold Db.specOf
      rw [hcases]
  · exact .untouched hx hx' hscope hauthorizations hcases

/-- Stop-work raises the revision, unless it was engaged already. -/
theorem Revises.halted {db db' : Db} (e : Engagement) (now : Instant)
    (hscope : db'.scopeItems = db.scopeItems)
    (hauthorizations : db'.authorizations = db.authorizations)
    (hcases : db'.testCases = db.testCases) : Revises db db' e (e.halted now) := by
  unfold Engagement.halted
  split
  · exact ⟨Nat.le_succ _, fun h => absurd h (Nat.succ_ne_self _)⟩
  · refine .of_unrevised rfl ⟨?_, fun k _ => ?_⟩
    · unfold Db.facts Db.scopeOf Db.authorizationsOf
      rw [hscope, hauthorizations]
    · unfold Db.specOf
      rw [hcases]

/-- Deleting another engagement leaves the facts. -/
theorem Revises.disengaged {db : Db} {e : Engagement} {id : String} (hne : e.id ≠ id) :
    Revises db { db with
      engagements := db.engagements.filter fun e => e.id != id
      authorizations := db.authorizations.filter fun a => a.programId != id
      scopeItems := db.scopeItems.filter fun r => r.programId != id
      testCases := db.testCases.filter fun c => c.programId != id } e e := by
  refine .of_unrevised rfl ⟨?_, fun k _ => ?_⟩
  · have hscope : ((db.scopeItems.filter fun r => r.programId != id).rows.filter fun r =>
        r.programId == e.id) = db.scopeOf e.id :=
      Table.select_filter fun r _ hr => by simpa [eq_of_beq hr] using hne
    have hauthorizations : ((db.authorizations.filter fun a => a.programId != id).rows.filter
        fun a => a.programId == e.id) = db.authorizationsOf e.id :=
      Table.select_filter fun a _ ha => by simpa [eq_of_beq ha] using hne
    unfold Db.facts
    rw [AuthorityFacts.mk.injEq]
    exact ⟨rfl, rfl, rfl, rfl, rfl, rfl, rfl, hscope, hauthorizations⟩
  · unfold Db.specOf
    rw [Table.get?_filter, Option.filter_filter]
    congr 2
    funext c
    by_cases hc : c.programId = e.id
    · simp [hc, hne]
    · simp [hc]

/-- The facts of other engagements are left alone. -/
theorem Amends.unrevised {db db' : Db} {e e' x : Engagement} (h : Amends db db' e e')
    (hne : x.id ≠ e.id) : Unrevised db db' x x := by
  obtain ⟨hscope, hauthorizations⟩ := h.others x.id hne
  refine ⟨?_, fun k hk => ?_⟩
  · unfold Db.facts
    rw [hscope, hauthorizations]
  · by_contra hdiffers
    exact hne (h.cases _ k hk hdiffers).1

/-- A change of a fact of an engagement raises its revision, and no change lowers it. -/
theorem Change.revises {db db' : Db} {es : List Event} (h : Change rt db es db') {k : String}
    {e e' : Engagement} (he : db.engagements.get? k = some e)
    (he' : db'.engagements.get? k = some e') : Revises db db' e e' := by
  cases h with
  | engaged fresh unspent stored =>
    exact .untouched he ((Table.get?_insert_of_get? stored he).symm.trans he' ▸ he) rfl rfl rfl
  | disengaged id =>
    rw [Table.get?_filter, Option.filter_eq_some_iff] at he'
    obtain rfl := Option.some.inj (he.symm.trans he'.1)
    exact .disengaged (by simpa using he'.2)
  | amended known amends =>
    rcases Table.of_get?_put amends.stored_key he' with ⟨rfl, rfl⟩ | ⟨hk, he'⟩
    · obtain rfl := Option.some.inj (he.symm.trans amends.stored_key)
      refine ⟨amends.revision_le, fun hsame => ⟨amends.facts_eq hsame, fun c hc => ?_⟩⟩
      by_contra hne
      have hraised := (amends.cases _ c hc hne).2
      omega
    · obtain rfl := Option.some.inj (he.symm.trans he')
      have hid : e.id = k := Table.key_of_get? he
      exact .of_unrevised rfl (amends.unrevised fun hsame =>
        hk (amends.id_eq.trans (hsame.symm.trans hid)))
  | halted now stored =>
    rcases Table.of_get?_put (halted_key now stored) he' with ⟨rfl, rfl⟩ | ⟨-, he'⟩
    · obtain rfl := Option.some.inj (he.symm.trans (halted_key now stored))
      exact .halted _ now rfl rfl rfl
    · exact .untouched he he' rfl rfl rfl
  | claimed claims => exact .charged claims.admits he he' rfl rfl rfl
  | issued issues => exact .charged issues.admits he he' rfl rfl rfl
  | _ => exact .untouched he he' rfl rfl rfl

/-! ## Names and revisions -/

/-- A stored approval was registered just now, at the revision of its engagement, or it is a
stored one. -/
theorem Change.approval_row {db db' : Db} {es : List Event} (h : Change rt db es db') {k : String}
    {b : ManagedApproval} (hb : db'.approvals.get? k = some b) :
    (∃ a, db.approvals.get? k = some a ∧ ApprovalStep db a b) ∨
      ∃ e, db.engagements.get? b.engagementId = some e ∧
        b.revision = e.managedAuthorityRevision ∧ db'.engagements = db.engagements := by
  cases ha : db.approvals.get? k with
  | some a =>
    obtain ⟨b', hb', hstep⟩ := h.approval ha
    obtain rfl := Option.some.inj (hb.symm.trans hb')
    exact .inl ⟨a, rfl, hstep⟩
  | none =>
    have hput : ∀ {r old : ManagedApproval}, (db.approvals.put r).get? k = some b →
        db.approvals.get? (Keyed.key r) ≠ some old := fun hrow hold => by
      rcases Table.of_get?_put hold hrow with ⟨rfl, -⟩ | ⟨-, hsame⟩
      · rw [hold] at ha
        cases ha
      · rw [hsame] at ha
        cases ha
    cases h with
    | registered registers =>
      rcases Table.of_get?_insert registers.approvals hb with ⟨rfl, rfl⟩ | hsame
      · exact .inr ⟨_, registers.engagement, rfl, rfl⟩
      · rw [hsame] at ha
        cases ha
    | revoked stored => exact absurd (revoked_key stored) (hput hb)
    | issued issues => exact absurd issues.counted_key (hput hb)
    | _ => exact absurd (ha.symm.trans hb) nofun

/-- The cases that jobs name, and the engagements and revisions that approvals name. -/
structure Revised (db : Db) : Prop where
  case : ∀ k c, db.testCases.get? k = some c → k ∈ db.ids
  names : ∀ k j, db.jobs.get? k = some j → j.toolType = gateTool →
    ∃ text, j.testCaseId = .ok text ∧ db.Spent text
  approval : ∀ k a, db.approvals.get? k = some a → a.engagementId ∈ db.ids ∧
    ∀ e, db.engagements.get? a.engagementId = some e → a.revision ≤ e.managedAuthorityRevision

theorem Revised.empty : Revised .empty where
  case := fun _ _ h => by cases h
  names := fun _ _ h => by cases h
  approval := fun _ _ h => by cases h

/-- A case was stored just now, or before. -/
theorem Change.case_row {db db' : Db} {es : List Event} (h : Change rt db es db') {k : String}
    {c' : AuthorizationTestCase} (hc' : db'.testCases.get? k = some c') :
    k ∈ db'.ids ∨ ∃ c, db.testCases.get? k = some c := by
  cases h with
  | disengaged id =>
    rw [Table.get?_filter, Option.filter_eq_some_iff] at hc'
    exact .inr ⟨c', hc'.1⟩
  | amended known amends => exact amends.cases_known k c' hc'
  | _ => exact .inr ⟨c', hc'⟩

theorem Revised.step {db db' : Db} {es : List Event} (hknown : Known db) (hdb : Revised db)
    (h : Change rt db es db') : Revised db' where
  case := fun k c' hc' => by
    rcases h.case_row hc' with hk | ⟨c, hc⟩
    · exact hk
    · exact h.ids_subset (hdb.case k c hc)
  names := fun k j' hj' htool => by
    rcases h.job_row hj' with ⟨hqueued, -, -⟩ | ⟨j, hj, hstep⟩
    · obtain ⟨text, htext, c, hc⟩ := hqueued.case htool
      refine ⟨text, htext, ?_⟩
      by_cases hstrip : Text.strip text.toList = text.toList
      · rw [hstrip, String.ofList_toList] at hc
        exact .inl (h.ids_subset (hdb.case text c hc))
      · exact .inr hstrip
    · have hkept : j.toolType = gateTool → ∃ text, j.testCaseId = .ok text ∧ db'.Spent text :=
        fun htool => by
          obtain ⟨text, htext, hspent⟩ := hdb.names k j hj htool
          exact ⟨text, htext, hspent.mono h.ids_subset⟩
      cases hstep with
      | progress => exact hkept htool
      | started => exact hkept htool
      | bound => exact hkept htool
  approval := fun k b hb => by
    rcases h.approval_row hb with ⟨a, ha, hstep⟩ | ⟨e, he, hrevision, hengagements⟩
    · obtain ⟨issued, revoked, rfl⟩ := hstep.row
      obtain ⟨hid, hle⟩ := hdb.approval k a ha
      refine ⟨h.ids_subset hid, fun e' he' => ?_⟩
      rcases h.engagement_row he' with ⟨hfresh, -⟩ | ⟨e, he, -⟩
      · exact absurd hid hfresh
      · exact (hle e he).trans (h.revises he he').revision_le
    · refine ⟨h.ids_subset (hknown.engagement he), fun e' he' => ?_⟩
      rw [hengagements, he] at he'
      rw [hrevision, Option.some.inj he']

theorem Reachable.revised {db : Db} (h : Reachable rt db) : Revised db :=
  (h.invariant (fun db => Known db ∧ Revised db)
    (fun hdb hchange => ⟨hdb.1.step hchange, hdb.2.step hdb.1 hchange⟩) ⟨.empty, .empty⟩).2

/-! ## Runs -/

/-- What a run has made of an engagement that was stored before it: it is gone for good, or its
revision has risen, or it shows the same as before. -/
structure RevisedTo (db : Db) (e : Engagement) (db' : Db) : Prop where
  known : db.ids ⊆ db'.ids
  revises : ∀ e', db'.engagements.get? e.id = some e' → Revises db db' e e'

theorem RevisedTo.step {db db₁ db₂ : Db} {e : Engagement} {es : List Event} (hid : e.id ∈ db.ids)
    (h : RevisedTo db e db₁) (hchange : Change rt db₁ es db₂) : RevisedTo db e db₂ where
  known := List.Subset.trans h.known hchange.ids_subset
  revises := fun e₂ he₂ => by
    rcases hchange.engagement_row he₂ with ⟨hfresh, -⟩ | ⟨e₁, he₁, -⟩
    · exact absurd (h.known hid) hfresh
    · have hfirst := h.revises e₁ he₁
      have hlast := hchange.revises he₁ he₂
      refine ⟨hfirst.revision_le.trans hlast.revision_le, fun hsame => ?_⟩
      have hle₁ := hfirst.revision_le
      have hle₂ := hlast.revision_le
      obtain ⟨hfacts, hcases⟩ := hfirst.same (by omega)
      obtain ⟨hfacts', hcases'⟩ := hlast.same (by omega)
      have hid₁ : e₁.id = e.id := Table.key_of_get? he₁
      refine ⟨hfacts'.trans hfacts, fun k hk => ?_⟩
      rw [← hcases k hk, ← hid₁]
      exact hcases' k (hk.mono h.known)

theorem revisedTo_after {db : Db} {e : Engagement} (hknown : Known db)
    (he : db.engagements.get? e.id = some e) (ops : List Op) :
    RevisedTo db e (after rt ops db) := by
  refine after_invariant (RevisedTo db e)
    (fun h hchange => h.step (hknown.engagement he) hchange) ⟨List.Subset.refl _, fun e' he' => ?_⟩ ops
  obtain rfl := Option.some.inj (he.symm.trans he')
  exact ⟨le_rfl, fun _ => .refl db e⟩

/-! ## Operations that act under an approval -/

/-- An accepted operation acts under the approval of its job: a claim, a check, a renewal, a
consumption, or a completion that was not there before. -/
def Op.actsUnder (op : Op) (rt : Runtime) (db : Db) (approvalId : String) : Prop :=
  ∃ m j reply, op.call = .managed m ∧ (exec rt op db).2 = .ok reply ∧
    db.jobs.get? m.jobId = some j ∧ j.managedApprovalId = some approvalId ∧
    match m with
    | .claim .. | .current .. | .refresh .. | .consume .. => True
    | .finish _ _ _ _ outcome _ =>
      outcome = "completed" ∧ (exec rt op db).1.results ≠ db.results
    | _ => False

/-- Whoever acts under an approval does so at its revision. -/
theorem Op.actsUnder_revision {op : Op} {db : Db} {id : String} (h : op.actsUnder rt db id) :
    ∃ a e, db.approvals.get? id = some a ∧ db.engagements.get? a.engagementId = some e ∧
      a.revision = e.managedAuthorityRevision := by
  obtain ⟨m, j, reply, hcall, hreply, hj, hbound, hm⟩ := h
  obtain ⟨-, observed, db', hbody, hdb'⟩ := exec_managed_ok hcall hreply
  have hpermitted : ∀ {job body statuses a result row p raw f}, job = j →
      Permitted rt.issuer { db with observed } op.request job body statuses a result row p raw f →
      ∃ a e, db.approvals.get? id = some a ∧ db.engagements.get? a.engagementId = some e ∧
        a.revision = e.managedAuthorityRevision := fun hjob hp => by
    subst hjob
    have hid := hp.current
    rw [hbound, Option.some.injEq] at hid
    have hfacts := hp.projects.facts.engagement
    rw [hp.projects.job_eq, ← hp.engagementId] at hfacts
    exact ⟨_, _, hid ▸ hp.stored, hfacts, hp.projects.revision_eq⟩
  have hlive : ∀ {jobId body ref user l}, db.jobs.get? jobId = some j →
      LiveAt rt.issuer op.clocks op.request jobId body ref { db with observed } user l →
      ∃ a e, db.approvals.get? id = some a ∧ db.engagements.get? a.engagementId = some e ∧
        a.revision = e.managedAuthorityRevision := fun hj hl => by
    obtain ⟨result, row, p, raw, f, hp, -⟩ := hl.permitted
    exact hpermitted (Option.some.inj (hl.job.symm.trans hj)) hp
  cases m with
  | claim jobId body ids =>
    obtain ⟨i, hi, -⟩ := claim_eq_ok hbody
    obtain ⟨row, p, raw, f, hp⟩ := hi.permitted
    exact hpermitted (Option.some.inj (hi.job.symm.trans hj)) hp
  | current =>
    obtain ⟨user, l, t, hl, -⟩ := current_eq_ok hbody
    exact hlive hj hl
  | refresh =>
    obtain ⟨r, hr, -⟩ := refresh_eq_ok hbody
    obtain ⟨user, hl⟩ := hr.live
    exact hlive hj hl
  | consume =>
    obtain ⟨l, locked, last, hl, -⟩ := consume_eq_ok hbody
    obtain ⟨user, hl⟩ := hl.live
    exact hlive hj hl
  | finish jobId body r receipt outcome confirmed =>
    obtain ⟨rfl, hchanged⟩ := hm
    obtain ⟨o, ho, hfinish⟩ := bind_eq_ok hbody
    obtain ⟨owned, row, hreports, -, -, ⟨-, hsame, -⟩ | ⟨⟨i, locked, hconcludes⟩, -⟩⟩ :=
      Results.finish_eq_ok hfinish
    · exact absurd (by rw [hdb', hsame]) hchanged
    · have hcompleted : o = .completed := by
        obtain ⟨htext, -⟩ := finishArguments_eq_ok ho
        cases o <;> first | rfl | exact absurd htext (by decide)
      obtain ⟨-, a, permission, hcompletes⟩ := hconcludes.completes hcompleted
      obtain ⟨result, row, p, raw, f, hp, -⟩ := hcompletes.permitted
      exact hpermitted (Option.some.inj (hreports.job.symm.trans hj)) hp
  | _ => exact hm.elim

/-- A stored approval keeps its engagement and its revision. -/
theorem approval_after (rt : Runtime) {db : Db} {a : ManagedApproval} {k : String}
    (ha : db.approvals.get? k = some a) (ops : List Op) :
    ∃ b, (after rt ops db).approvals.get? k = some b ∧ b.engagementId = a.engagementId ∧
      b.revision = a.revision := by
  refine after_invariant (fun db => ∃ b, db.approvals.get? k = some b ∧
    b.engagementId = a.engagementId ∧ b.revision = a.revision) ?_ ⟨a, ha, rfl, rfl⟩ ops
  intro db db' es ⟨b, hb, hid, hrevision⟩ hchange
  obtain ⟨b', hb', hstep⟩ := hchange.approval hb
  obtain ⟨issued, revoked, rfl⟩ := hstep.row
  exact ⟨_, hb', hid, hrevision⟩

/-- An engagement that is stored after a run was stored before it, if its name was known. -/
theorem engagement_before {db : Db} {k : String} (hk : k ∈ db.ids) (ops : List Op)
    {e' : Engagement} (he' : (after rt ops db).engagements.get? k = some e') :
    ∃ e, db.engagements.get? k = some e := by
  by_contra hnone
  have hgone : k ∈ (after rt ops db).ids ∧ (after rt ops db).engagements.get? k = none := by
    refine after_invariant (fun db => k ∈ db.ids ∧ db.engagements.get? k = none)
      (fun {db db' es} h hchange => ⟨hchange.ids_subset h.1, ?_⟩) ⟨hk, ?_⟩ ops
    · refine Option.eq_none_iff_forall_ne_some.mpr fun e he => ?_
      rcases hchange.engagement_row he with ⟨hfresh, -⟩ | ⟨e₀, he₀, -⟩
      · exact hfresh h.1
      · exact absurd (h.2.symm.trans he₀) nofun
    · exact Option.eq_none_iff_forall_ne_some.mpr fun e he => hnone ⟨e, he⟩
  exact absurd (hgone.2.symm.trans he') nofun

/-- Something that a projection of the engagement reads has changed between two states. -/
def FactsChanged (db db' : Db) (e e' : Engagement) : Prop :=
  db'.facts e' ≠ db.facts e ∨ ∃ j ∈ db.jobs.rows, j.programId = e.id ∧ j.toolType = gateTool ∧
    db'.caseSpec j ≠ db.caseSpec j

/-- A change of what a projection reads shows in the revision. -/
theorem Revises.lt_of_changed {db db' : Db} {e e' : Engagement} (hdb : Revised db)
    (h : Revises db db' e e') (hchanged : FactsChanged db db' e e') :
    e.managedAuthorityRevision < e'.managedAuthorityRevision := by
  rcases h.revision_le.lt_or_eq with hlt | heq
  · exact hlt
  · obtain ⟨hfacts, hcases⟩ := h.same heq.symm
    rcases hchanged with hne | ⟨j, hj, hprogram, htool, hne⟩
    · exact absurd hfacts hne
    · obtain ⟨text, htext, hspent⟩ := hdb.names _ j (Table.get?_of_mem hj) htool
      have hspec := hcases text hspent
      simp only [Db.caseSpec, htext, hprogram] at hne
      exact absurd hspec hne

/-- No operation lowers the revision of an engagement, and one that changes what a projection
reads raises it. Hence no operation acts under an approval once that has happened since its
registration, whatever is done later. -/
theorem authority_revision (rt : Runtime) (ops : List Op) :
    let db := after rt ops .empty
    (∀ op, ∀ e ∈ db.engagements.rows, ∀ e' ∈ (exec rt op db).1.engagements.rows, e'.id = e.id →
      e.managedAuthorityRevision ≤ e'.managedAuthorityRevision ∧
      (FactsChanged db (exec rt op db).1 e e' →
        e.managedAuthorityRevision < e'.managedAuthorityRevision)) ∧
    ∀ a ∈ db.approvals.rows, ∀ e ∈ db.engagements.rows, e.id = a.engagementId → ∀ middle,
      let db₁ := after rt middle db
      (∀ e₁ ∈ db₁.engagements.rows, e₁.id = e.id → FactsChanged db db₁ e e₁) →
        ∀ later (op : Op), ¬ op.actsUnder rt (after rt later db₁) a.id := by
  intro db
  have hreachable : Reachable rt db := ⟨ops, rfl⟩
  have hknown : Known db := hreachable.soundness.known
  have hrevised : Revised db := hreachable.revised
  refine ⟨fun op e he e' he' hid => ?_, ?_⟩
  · have hrevises : RevisedTo db e (exec rt op db).1 :=
      revisedTo_after hknown (Table.get?_of_mem he) [op]
    have h : Revises db (exec rt op db).1 e e' :=
      hrevises.revises e' (by rw [← hid]; exact Table.get?_of_mem he')
    exact ⟨h.revision_le, h.lt_of_changed hrevised⟩
  · intro a ha e he hid middle db₁ hchanged later op hacts
    obtain ⟨b, e₂, hb, he₂, hcurrent⟩ := Op.actsUnder_revision hacts
    have he' : db.engagements.get? e.id = some e := Table.get?_of_mem he
    have hstored : db.approvals.get? a.id = some a := Table.get?_of_mem ha
    obtain ⟨a₁, ha₁, hid₁, hrevision₁⟩ := approval_after rt hstored middle
    obtain ⟨b', hb', hid₂, hrevision₂⟩ := approval_after rt ha₁ later
    obtain rfl := Option.some.inj (hb.symm.trans hb')
    rw [hid₂, hid₁, ← hid] at he₂
    have hknown₁ : Known db₁ := (hreachable.soundness.after middle).known
    have hids : e.id ∈ db₁.ids := (revisedTo_after hknown he' middle).known (hknown.engagement he')
    obtain ⟨e₁, he₁⟩ := engagement_before hids later he₂
    have hid₁ : e₁.id = e.id := Table.key_of_get? he₁
    have hlt : e.managedAuthorityRevision < e₁.managedAuthorityRevision :=
      ((revisedTo_after hknown he' middle).revises e₁ he₁).lt_of_changed hrevised
        (hchanged e₁ (Table.mem_of_get? he₁) hid₁)
    rw [← hid₁] at he₁ he₂
    have hle : e₁.managedAuthorityRevision ≤ e₂.managedAuthorityRevision :=
      ((revisedTo_after hknown₁ he₁ later).revises e₂ he₂).revision_le
    have hregistered : a.revision ≤ e.managedAuthorityRevision :=
      (hrevised.approval _ a hstored).2 e (hid ▸ he')
    omega

end VardrMap
