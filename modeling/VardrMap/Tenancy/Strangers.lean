import VardrMap.Tenancy.Managed

/-!
# Strangers

Whoever cannot reach an engagement changes nothing that is kept of it, by no sequence of
requests: each is refused or is about another engagement, and none of them makes its caller
one who can reach it.
-/
namespace VardrMap
open Lib

variable {db db' : Db} {id : String}

/-! ## What a request is about -/

/-- The engagement in the path of an engagement request. -/
def EngagementOp.programId? : EngagementOp → Option String
  | create _ => none
  | update id _ | delete id | configureDuration id _ | configureTargets id _
  | configureConcurrency id _ | engageStopWork id | releaseStopWork id
  | addInScopeItem id _ _ _ | addOutScopeItem id _ _ _ | deleteScopeItem id _ _
  | importScope id _ _ | createAuthorization id _ | updateAuthorization id _ _
  | createProposal id _ _ | approveProposal id _ _ | rejectProposal id _
  | createTestCase id _ | saveReviewedCases id _ | updateTestCase id _ _ _
  | deleteTestCase id _ => some id

/-- The engagement of a stored job. -/
def Db.placeOf (db : Db) (jobId : String) : Option String :=
  (db.jobs.get? jobId).map ScanJob.programId

/-- The engagement that a request is about: the one in its path, or that of its job. -/
def Op.about (op : Op) (db : Db) : Option String :=
  match op.call with
  | .engagement e => e.programId?
  | .job (.create id _) | .job (.pipeline id _) => some id
  | .job .pending => none
  | .job (.update id _) | .job (.claim id _ _) | .job (.status id) | .job (.control id _)
  | .job (.finish id _ _) | .job (.delete id) | .job (.upload id _) => db.placeOf id
  | .managed m => db.placeOf m.jobId
  | .provision _ => none

theorem placeOf_eq {jobId : String} {j : ScanJob} (h : db.jobs.get? jobId = some j) :
    db.placeOf jobId = some j.programId := by
  unfold Db.placeOf
  rw [h]
  rfl

variable [Unicode] {rt : Runtime}

/-- A request by a caller who cannot reach the engagement. A new engagement belongs to the
caller's own organization, which is not the organization of this one. -/
structure Op.Foreign (op : Op) (rt : Runtime) (db : Db) (id : String) : Prop where
  request : ∀ p, op.call ≠ .provision p
  stranger : ∀ user, getCurrentUser rt.identity db op.request = .ok user →
    db.reaches user.githubId id = false
  apart : ∀ c e, op.call = .engagement (.create c) → db.engagements.get? id = some e →
    e.orgId ≠ some c.orgId

/-- What an accepted request of a stranger does to an engagement: it is about another one, and
all that is kept of this one stays. -/
structure Spares (op : Op) (db db' : Db) (id : String) : Prop where
  other : op.about db ≠ some id
  kept : db'.holding id = db.holding id

theorem Within.spares {identity : Identity} {request : HttpRequest} {op : Op} {p : String}
    (h : Within identity request db db' p) (habout : op.about db = some p)
    (hstranger : ∀ user, getCurrentUser identity db request = .ok user →
      db.reaches user.githubId id = false) : Spares op db db' id := by
  obtain ⟨user, huser, hreach⟩ := h.reached
  have hne : p ≠ id := by
    rintro rfl
    rw [hstranger user huser] at hreach
    cases hreach
  exact ⟨by rw [habout]; simpa using hne, h.others id hne⟩

/-! ## One request -/

theorem createEngagement_holding {p : Platform} {request : HttpRequest} {c : EngagementCreate}
    {reply : Reply} (h : createEngagement p request c db = .ok (db', reply)) (hid : id ∈ db.ids)
    (horg : ∀ e, db.engagements.get? id = some e → e.orgId ≠ some c.orgId) :
    db'.holding id = db.holding id := by
  obtain ⟨user, -, h⟩ := bind_eq_ok h
  obtain ⟨_, hmint, h⟩ := bind_eq_ok h
  obtain ⟨engagements, hinsert, h⟩ := bind_eq_ok h
  dsimp only at h
  obtain ⟨rfl, -⟩ := Prod.mk.inj (Except.ok.inj h)
  have hinsert := found_eq_ok hinsert
  let db₁ : Db := { db.minted c.id with engagements }
  have hget : db₁.engagements.get? id = db.engagements.get? id :=
    Table.get?_insert_ne hinsert fun hsame : c.id = id => (mint_eq_ok hmint).1 (hsame ▸ hid)
  have hengagements : db₁.holding id = db.holding id := holding_engagements hget
  split
  · exact hengagements
  · -- the new membership is of another organization
    have hcolleagues : ({ db₁ with orgMembers := db₁.orgMembers ++
        [⟨c.orgId, user.githubId, "owner"⟩] } : Db).colleagues id = db₁.colleagues id := by
      unfold Db.colleagues
      rw [hget, List.filter_append]
      cases he : db.engagements.get? id with
      | none => simp
      | some e => simp [horg e he]
    exact (congrArg (fun l => { db₁.holding id with orgMembers := l }) hcolleagues).trans
      hengagements

theorem engagementOp_spares {request : HttpRequest} {clocks : Clocks} {e : EngagementOp}
    {reply : Reply} (h : e.run rt request clocks db = .ok (db', reply))
    (hop : Op.Foreign ⟨request, clocks, .engagement e⟩ rt db id) (hid : id ∈ db.ids) :
    Spares ⟨request, clocks, .engagement e⟩ db db' id := by
  have hwithin : ∀ {p}, e.programId? = some p → Within rt.identity request db db' p →
      Spares ⟨request, clocks, .engagement e⟩ db db' id := fun habout h =>
    h.spares habout hop.stranger
  cases e with
  | create c => exact ⟨nofun, createEngagement_holding h hid fun e => hop.apart c e rfl⟩
  | update => exact hwithin rfl (updateEngagement_within h)
  | delete => exact hwithin rfl (deleteEngagement_within h)
  | configureDuration => exact hwithin rfl (configureDuration_within h)
  | configureTargets => exact hwithin rfl (configureTargets_within h)
  | configureConcurrency => exact hwithin rfl (configureConcurrency_within h)
  | engageStopWork => exact hwithin rfl (engageStopWork_within h)
  | releaseStopWork => exact hwithin rfl (releaseStopWork_within h)
  | addInScopeItem => exact hwithin rfl (addScopeItem_within h)
  | addOutScopeItem => exact hwithin rfl (addScopeItem_within h)
  | deleteScopeItem => exact hwithin rfl (deleteScopeItem_within h)
  | importScope => exact hwithin rfl (importScope_within h)
  | createAuthorization => exact hwithin rfl (createAuthorization_within h)
  | updateAuthorization => exact hwithin rfl (updateAuthorization_within h)
  | createProposal => exact hwithin rfl (createProposal_within h)
  | approveProposal => exact hwithin rfl (approveProposal_within h)
  | rejectProposal => exact hwithin rfl (rejectProposal_within h)
  | createTestCase => exact hwithin rfl (createTestCase_within h)
  | saveReviewedCases => exact hwithin rfl (saveReviewedCases_within h)
  | updateTestCase => exact hwithin rfl (updateTestCase_within h)
  | deleteTestCase => exact hwithin rfl (deleteTestCase_within h)

/-- A committed job request, accepted or refused. -/
theorem jobOp_spares {request : HttpRequest} {clocks : Clocks} {j : JobOp}
    {reply : Except Refusal Reply} (h : j.run rt request clocks db = (db', reply))
    (hop : Op.Foreign ⟨request, clocks, .job j⟩ rt db id) :
    (∃ refusal, reply = .error refusal) ∧ db' = db ∨
      Spares ⟨request, clocks, .job j⟩ db db' id := by
  have hwithin : ∀ {k}, Op.about ⟨request, clocks, .job j⟩ db = db.placeOf k →
      (∃ i, db.jobs.get? k = some i ∧ Within rt.identity request db db' i.programId) →
      Spares ⟨request, clocks, .job j⟩ db db' id := fun habout h => by
    obtain ⟨i, hi, h⟩ := h
    exact h.spares (habout.trans (placeOf_eq hi)) hop.stranger
  have hsettle : ∀ {commit : Commit}, settle db commit = (db', reply) →
      (∀ reply', commit = .ok (db', reply') → Spares ⟨request, clocks, .job j⟩ db db' id) →
      (∃ refusal, reply = .error refusal) ∧ db' = db ∨
        Spares ⟨request, clocks, .job j⟩ db db' id := fun {commit} h hok => by
    cases commit with
    | error e =>
      obtain ⟨rfl, rfl⟩ := Prod.mk.inj h
      exact .inl ⟨⟨e, rfl⟩, rfl⟩
    | ok c =>
      obtain ⟨rfl, rfl⟩ := Prod.mk.inj h
      exact .inr (hok c.2 rfl)
  cases j with
  | create p c =>
    exact hsettle h fun _ h => (createJob_within h).spares rfl hop.stranger
  | pipeline p stages =>
    exact hsettle h fun _ h => (createPipeline_within h).spares rfl hop.stranger
  | pending =>
    refine hsettle h fun _ h => ⟨nofun, ?_⟩
    obtain ⟨user, huser, hkept⟩ := pendingJobs_confined h
    exact hkept id (hop.stranger user huser)
  | update k body => exact hsettle h fun _ h => hwithin rfl (updateJob_within h)
  | claim k body token => exact hsettle h fun _ h => hwithin rfl (claimJob_within h)
  | status k => exact hsettle h fun _ h => hwithin rfl (executionStatus_within h)
  | control k body => exact hsettle h fun _ h => hwithin rfl (refreshExecution_within h)
  | finish k body outcome =>
    cases hfinish : finishExecution rt.toPlatform clocks request k body outcome db with
    | error e =>
      simp only [JobOp.run, hfinish] at h
      obtain ⟨rfl, rfl⟩ := Prod.mk.inj h
      exact .inl ⟨⟨e, rfl⟩, rfl⟩
    | ok committed =>
      simp only [JobOp.run, hfinish] at h
      subst h
      exact .inr (hwithin rfl (finishExecution_within hfinish))
  | delete k => exact hsettle h fun _ h => hwithin rfl (deleteJob_within h)
  | upload k file => exact hsettle h fun _ h => hwithin rfl (uploadJobResult_within h)

/-- A request of a stranger is refused, or it is about another engagement; what is kept of this
one stays. -/
theorem exec_spares {op : Op} (hdb : Sound db) (hop : op.Foreign rt db id) (hid : id ∈ db.ids) :
    (exec rt op db).1.holding id = db.holding id ∧
      (op.about db = some id → ∃ refusal, (exec rt op db).2 = .error refusal) := by
  obtain ⟨request, clocks, call⟩ := op
  have hspares : ∀ {db' : Db} {reply : Except Refusal Reply},
      Spares ⟨request, clocks, call⟩ db db' id → db'.holding id = db.holding id ∧
        (Op.about ⟨request, clocks, call⟩ db = some id → ∃ refusal, reply = .error refusal) :=
    fun h => ⟨h.kept, fun habout => absurd habout h.other⟩
  cases call with
  | engagement e =>
    change (settle db (e.run rt request clocks db)).1.holding id = _ ∧
      (_ → ∃ refusal, (settle db (e.run rt request clocks db)).2 = .error refusal)
    cases hcommit : e.run rt request clocks db with
    | error refusal => exact ⟨rfl, fun _ => ⟨refusal, rfl⟩⟩
    | ok c => exact hspares (engagementOp_spares hcommit hop hid)
  | job j =>
    have hcases : (∃ refusal, (j.run rt request clocks db).2 = .error refusal) ∧ _ ∨ _ :=
      jobOp_spares rfl hop
    rcases hcases with ⟨hrefused, hsame⟩ | h
    · exact ⟨congrArg (fun db : Db => db.holding id) hsame, fun _ => hrefused⟩
    · exact hspares h
  | managed m =>
    change (m.run rt request clocks db).1.holding id = _ ∧
      (_ → ∃ refusal, (m.run rt request clocks db).2 = .error refusal)
    rcases managedOp_cases rt request clocks m db with
      ⟨observed, refusal, hrun⟩ | ⟨-, observed, db', reply, hbody, hrun⟩
    · rw [hrun]
      exact ⟨rfl, fun _ => ⟨refusal, rfl⟩⟩
    · rw [hrun]
      have hobserved : Changes rt db [] { db with observed } := changes_observed db observed
      have hdb' : Sound { db with observed } :=
        hobserved.invariant Sound (fun hdb hchange => hdb.step hchange) hdb
      obtain ⟨j, hj, user, huser, hreach⟩ := body_reached hbody
      have hj : db.jobs.get? m.jobId = some j := hj
      have hne : j.programId ≠ id := by
        rintro rfl
        have hstranger := hop.stranger user huser
        rw [show db.reaches user.githubId j.programId = true from hreach] at hstranger
        cases hstranger
      have hkept : db'.holding id = ({ db with observed } : Db).holding id :=
        body_holding hdb' hbody hj hne
      refine hspares ⟨?_, hkept⟩
      change db.placeOf m.jobId ≠ some id
      rw [placeOf_eq hj]
      simpa using hne
  | provision p => exact absurd rfl (hop.request p)

/-! ## Any number of requests -/

theorem Change.apiKeys {es : List Event} (h : Change rt db es db') (hes : .provisioned ∉ es) :
    db'.apiKeys = db.apiKeys := by
  cases h with
  | provisioned => exact absurd (List.mem_singleton_self _) hes
  | _ => rfl

/-- Keys are only provisioned. -/
theorem exec_apiKeys {op : Op} (h : ∀ p, op.call ≠ .provision p) :
    (exec rt op db).1.apiKeys = db.apiKeys := by
  obtain ⟨es, hchanges, hemits⟩ := exec_changes rt op db
  have hes : .provisioned ∉ es := fun hmem => by
    obtain ⟨p, hp⟩ := hemits.provisioned hmem
    exact h p hp
  have hrun : .provisioned ∉ [] ++ es → (exec rt op db).1.apiKeys = db.apiKeys :=
    hchanges.traceInvariant (fun es db' => .provisioned ∉ es → db'.apiKeys = db.apiKeys)
      (fun {db₁ db₂ es fs} hdb hchange hes => by
        rw [List.mem_append, not_or] at hes
        exact (hchange.apiKeys hes.2).trans (hdb hes.1))
      fun _ => rfl
  exact hrun hes

theorem getCurrentUser_congr (h : db'.apiKeys = db.apiKeys) (identity : Identity)
    (request : HttpRequest) :
    getCurrentUser identity db' request = getCurrentUser identity db request := by
  unfold getCurrentUser resolveApiKey
  rw [h]

/-- A stranger stays one while the keys and the engagement stay as they are. -/
theorem Op.Foreign.congr {op : Op} (h : op.Foreign rt db id) (hkept : db'.holding id = db.holding id)
    (hkeys : db'.apiKeys = db.apiKeys) : op.Foreign rt db' id where
  request := h.request
  stranger := fun user huser => by
    rw [reaches_congr hkept]
    exact h.stranger user (getCurrentUser_congr hkeys _ _ ▸ huser)
  apart := fun c e hc he => h.apart c e hc ((congrArg Holding.engagement hkept).symm.trans he)

/-- An identifier that was handed out stays so. -/
theorem known_after (hid : id ∈ db.ids) (ops : List Op) : id ∈ (after rt ops db).ids :=
  after_invariant (fun db => id ∈ db.ids) (fun hdb hchange => hchange.ids_subset hdb) hid ops

theorem after_spares {ops : List Op} (hdb : Sound db) (hid : id ∈ db.ids)
    (h : ∀ op ∈ ops, op.Foreign rt db id) :
    (after rt ops db).holding id = db.holding id ∧ (after rt ops db).apiKeys = db.apiKeys := by
  induction ops generalizing db with
  | nil => exact ⟨rfl, rfl⟩
  | cons op ops ih =>
    have hop := h op (List.mem_cons_self ..)
    have hkept := (exec_spares hdb hop hid).1
    have hkeys : (exec rt op db).1.apiKeys = db.apiKeys := exec_apiKeys hop.request
    obtain ⟨hrest, hrestKeys⟩ := ih (hdb.exec op) (known_after hid [op])
      fun op' hop' => (h op' (List.mem_cons_of_mem _ hop')).congr hkept hkeys
    exact ⟨hrest.trans hkept, hrestKeys.trans hkeys⟩

/-- From any reachable database, requests of callers who cannot reach an engagement leave all
that is kept of it as it was, and those that are about it are refused. -/
theorem strangers_kept_out (rt : Runtime) (earlier later : List Op) {id : String} {e : Engagement}
    (he : (after rt earlier .empty).engagements.get? id = some e)
    (h : ∀ op ∈ later, op.Foreign rt (after rt earlier .empty) id) :
    let db := after rt (earlier ++ later) .empty
    db.holding id = (after rt earlier .empty).holding id ∧
      ∀ op : Op, op.Foreign rt (after rt earlier .empty) id → op.about db = some id →
        ∃ refusal, (exec rt op db).2 = .error refusal := by
  intro db
  have hsound : Sound (after rt earlier .empty) := Reachable.soundness ⟨earlier, rfl⟩
  have hid : id ∈ (after rt earlier .empty).ids := hsound.known.engagement he
  obtain ⟨hkept, hkeys⟩ : db.holding id = (after rt earlier .empty).holding id ∧
      db.apiKeys = (after rt earlier .empty).apiKeys := by
    have hrun := after_spares hsound hid h
    rwa [← after_append] at hrun
  have hknown : id ∈ db.ids := by
    have hlater : id ∈ (after rt later _).ids := known_after hid later
    rwa [← after_append] at hlater
  exact ⟨hkept, fun op hop => (exec_spares (Reachable.soundness ⟨_, rfl⟩)
    (hop.congr hkept hkeys) hknown).2⟩

/-- Any session but the owner's is a second user's. -/
def visitorRuntime : Runtime :=
  { exampleRuntime with
    identity := {
      exampleRuntime.identity with
      resolveSession := fun request =>
        .ok ⟨if request.sessionCookie == some "owner" then "u1" else "u2", "full",
          some "local"⟩ } }

def byVisitor (call : Call) : Op := ⟨⟨none, some "visitor"⟩, exampleClocks, call⟩

/-- The second user starts an engagement, lists the pending jobs, and tries another's. -/
def visitorOps : List Op := [
  .engagement (.create ⟨"e2", "o2", "pentest", "active", none, none, none⟩),
  .job .pending,
  .engagement (.engageStopWork "e1"),
  .job (.delete "j1"),
  .engagement (.delete "e1")].map byVisitor

omit [Unicode] in
theorem strangers_kept_out_visitor :
    let db := @after Unicode.ascii visitorRuntime (exampleSetup ++ visitorOps) .empty
    db.holding "e1" = (@after Unicode.ascii visitorRuntime exampleSetup .empty).holding "e1" ∧
      ∃ refusal, (@exec Unicode.ascii visitorRuntime
        (byVisitor (.engagement (.delete "e1"))) db).2 = .error refusal := by
  let _ := Unicode.ascii
  have hstored : ((after visitorRuntime exampleSetup .empty).engagements.get? "e1").map
      Engagement.orgId = some (some "o1") := by decide +kernel
  obtain ⟨e, he, ho⟩ := Option.map_eq_some_iff.mp hstored
  have hreaches : (after visitorRuntime exampleSetup .empty).reaches "u2" "e1" = false := by
    decide +kernel
  have hforeign : ∀ call, (∀ p, call ≠ .provision p) →
      (∀ c, call = .engagement (.create c) → c.orgId ≠ "o1") →
      (byVisitor call).Foreign visitorRuntime (after visitorRuntime exampleSetup .empty) "e1" :=
    fun call hcall horg => {
      request := hcall
      stranger := fun user huser => by
        obtain rfl : ⟨"u2", "full", some "local"⟩ = user := Except.ok.inj huser
        exact hreaches
      apart := fun c e' hc he' hsame => by
        obtain rfl := Option.some.inj (he.symm.trans he')
        exact horg c hc (Option.some.inj (hsame.symm.trans ho)) }
  have hlater : ∀ op ∈ visitorOps,
      op.Foreign visitorRuntime (after visitorRuntime exampleSetup .empty) "e1" := by
    intro op hop
    obtain ⟨call, hcall, rfl⟩ := List.mem_map.mp hop
    simp only [List.mem_cons, List.not_mem_nil, or_false] at hcall
    rcases hcall with rfl | rfl | rfl | rfl | rfl
    · exact hforeign _ nofun fun c hc => by
        obtain rfl := EngagementOp.create.inj (Call.engagement.inj hc)
        decide
    all_goals exact hforeign _ nofun nofun
  obtain ⟨hkept, hrefused⟩ := strangers_kept_out visitorRuntime exampleSetup visitorOps he hlater
  exact ⟨hkept, hrefused _ (hforeign _ nofun nofun) rfl⟩

/-! ## Deleted engagements -/

/-- Nothing is kept under an identifier, memberships apart: these are provisioned. -/
def Db.Cleared (db : Db) (id : String) : Prop :=
  { db.holding id with members := [] } = ⟨none, [], [], [], [], [], [], []⟩

section
omit [Unicode]

theorem Db.Cleared.engagement (h : db.Cleared id) : db.engagements.get? id = none :=
  congrArg Holding.engagement h

/-- Nobody can reach an engagement that is gone. -/
theorem Db.Cleared.unreached (h : db.Cleared id) (githubId : String) :
    db.reaches githubId id = false := by
  unfold Db.reaches
  rw [h.engagement]
  rfl

theorem Db.Cleared.congr (h : db.Cleared id) (hkept : db'.holding id = db.holding id) :
    db'.Cleared id := by
  unfold Db.Cleared
  rw [hkept]
  exact h

theorem colleagues_of_none (h : db.engagements.get? id = none) : db.colleagues id = [] := by
  unfold Db.colleagues
  rw [h]
  exact List.filter_eq_nil_iff.mpr fun _ _ => nofun

/-- The rows of an engagement go with it. -/
theorem cleared_dropEngagement (db : Db) (id : String) : (db.dropEngagement id).Cleared id := by
  have hselect : ∀ {α : Type} (l : List α) (f : α → String),
      ((l.filter fun r => f r != id).filter fun r => f r == id) = [] := fun l f => by
    rw [List.filter_filter, List.filter_eq_nil_iff]
    intro r _
    simp
  have hengagement : (db.dropEngagement id).engagements.get? id = none := by
    refine Table.get?_eq_none.mpr fun e he hid => ?_
    have hkept := (List.mem_filter.mp he).2
    rw [show e.id = id from hid, bne_self_eq_false] at hkept
    cases hkept
  have hjobs : (db.dropEngagement id).jobsOf id = [] := hselect db.jobs.rows ScanJob.programId
  unfold Db.Cleared Db.holding
  rw [hengagement, colleagues_of_none hengagement, hjobs]
  simp only [Holding.mk.injEq, true_and, List.map_nil, and_true]
  exact ⟨hselect db.scopeItems.rows ScopeItem.programId,
    hselect db.authorizations.rows Authorization.programId,
    hselect db.testCases.rows AuthorizationTestCase.programId,
    hselect db.proposals.rows AgentProposal.programId⟩

/-- A membership of an engagement that is gone reaches nothing. -/
theorem Db.Cleared.provision (h : db.Cleared id) (p : Provision) :
    ({ db with
      members := p.members
      orgMembers := p.orgMembers
      apiKeys := p.apiKeys
      enrollments := p.enrollments } : Db).Cleared id := by
  have hgone : ({ db with
      members := p.members
      orgMembers := p.orgMembers
      apiKeys := p.apiKeys
      enrollments := p.enrollments } : Db).engagements.get? id = none := h.engagement
  unfold Db.Cleared Db.holding
  rw [colleagues_of_none hgone]
  have h' := h
  unfold Db.Cleared Db.holding at h'
  rw [colleagues_of_none h.engagement] at h'
  exact h'

end

/-- Nothing comes back, and what is asked of it is refused. -/
theorem Db.Cleared.exec (h : db.Cleared id) (hdb : Sound db) (hid : id ∈ db.ids) (op : Op) :
    (exec rt op db).1.Cleared id ∧
      (op.about db = some id → ∃ refusal, (exec rt op db).2 = .error refusal) := by
  by_cases hop : ∃ p, op.call = .provision p
  · obtain ⟨p, hp⟩ := hop
    obtain ⟨request, clocks, call⟩ := op
    obtain rfl : call = .provision p := hp
    exact ⟨h.provision p, nofun⟩
  · have hforeign : op.Foreign rt db id := {
      request := fun p hp => hop ⟨p, hp⟩
      stranger := fun user _ => h.unreached user.githubId
      apart := fun c e _ he => absurd (h.engagement.symm.trans he) nofun }
    obtain ⟨hkept, hrefused⟩ := exec_spares hdb hforeign hid
    exact ⟨h.congr hkept, hrefused⟩

theorem Db.Cleared.after (h : db.Cleared id) (hdb : Sound db) (hid : id ∈ db.ids)
    (ops : List Op) : (after rt ops db).Cleared id := by
  induction ops generalizing db with
  | nil => exact h
  | cons op ops ih => exact ih (h.exec hdb hid op).1 (hdb.exec op) (known_after hid [op])

/-- An accepted deletion is of an engagement that was stored. -/
theorem delete_accepted {request : HttpRequest} {clocks : Clocks} {reply : Reply}
    (h : (exec rt ⟨request, clocks, .engagement (.delete id)⟩ db).2 = .ok reply) :
    (∃ e, db.engagements.get? id = some e) ∧
      (exec rt ⟨request, clocks, .engagement (.delete id)⟩ db).1 = db.dropEngagement id := by
  change (settle db (deleteEngagement rt.toPlatform request id db)).2 = .ok reply at h
  change _ ∧ (settle db (deleteEngagement rt.toPlatform request id db)).1 = _
  cases hcommit : deleteEngagement rt.toPlatform request id db with
  | error e =>
    rw [hcommit] at h
    cases h
  | ok c =>
    refine ⟨?_, deleteEngagement_eq_ok hcommit⟩
    obtain ⟨user, -, h⟩ := bind_eq_ok hcommit
    obtain ⟨e, he, -⟩ := bind_eq_ok h
    exact ⟨e, (ownEngagement_reaches he).2⟩

end VardrMap
