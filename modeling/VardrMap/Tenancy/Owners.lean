import VardrMap.Tenancy.Strangers

/-!
# Owners

What an engagement allows is for its owner to change. Members, runners and managed operations
work under its terms: its rows may get more members, scope and records, its ledgers are charged
and its work is stopped, and the terms stay until the owner asks for others.
-/
namespace VardrMap
open Lib

/-! ## Terms -/

/-- What the owner decides of an engagement. The request rate is not among it: an approved
proposal sets that as well. -/
structure Terms where
  ownerGithubId : String
  orgId : Option String
  engagementType : Option String
  engagementStatus : Option String
  startsAt : Option DateTime
  endsAt : Option DateTime
  concurrencyLimit : Option ℕ
  targetLimit : Option ℕ
  durationLimit : Option ℕ

def Engagement.terms (e : Engagement) : Terms where
  ownerGithubId := e.ownerGithubId
  orgId := e.orgId
  engagementType := e.engagementType
  engagementStatus := e.engagementStatus
  startsAt := e.startsAt
  endsAt := e.endsAt
  concurrencyLimit := e.concurrencyLimit
  targetLimit := e.targetLimit
  durationLimit := e.durationLimit

/-- The terms stay, and stop-work that was engaged stays engaged. -/
structure Engagement.Upholds (e e' : Engagement) : Prop where
  terms : e'.terms = e.terms
  stopWork : e.stopWorkAt.isSome = true → e'.stopWorkAt = e.stopWorkAt

/-- The engagements stay under the terms that they had, and so does who may reach them. -/
structure Db.Upholds (db db' : Db) : Prop where
  engagements : db.engagements.Rewrites Engagement.Upholds db'.engagements
  members : db'.members = db.members
  orgMembers : db'.orgMembers = db.orgMembers

section
variable {db db' db'' : Db} {e e' e'' : Engagement}

theorem Engagement.Upholds.refl (e : Engagement) : e.Upholds e := ⟨rfl, fun _ => rfl⟩

theorem Engagement.Upholds.trans (h : e.Upholds e') (h' : e'.Upholds e'') : e.Upholds e'' where
  terms := h'.terms.trans h.terms
  stopWork := fun hstop => by
    have hsame := h.stopWork hstop
    exact (h'.stopWork (by rwa [hsame])).trans hsame

theorem bump_upholds (e : Engagement) (changed : Bool) : e.Upholds (e.bump changed) := by
  unfold Engagement.bump
  split <;> exact ⟨rfl, fun _ => rfl⟩

/-- Stop-work that was engaged is not engaged again. -/
theorem halted_upholds (e : Engagement) (now : Instant) : e.Upholds (e.halted now) := by
  unfold Engagement.halted
  split
  · rename_i hnone
    refine ⟨rfl, fun hstop => ?_⟩
    rw [Option.isNone_iff_eq_none.mp hnone] at hstop
    cases hstop
  · exact .refl e

theorem upholds_of_engagements (h : db'.engagements = db.engagements)
    (hmembers : db'.members = db.members) (horg : db'.orgMembers = db.orgMembers) :
    db.Upholds db' where
  engagements := h ▸ .refl .refl _
  members := hmembers
  orgMembers := horg

theorem Db.Upholds.trans (h : db.Upholds db') (h' : db'.Upholds db'') : db.Upholds db'' where
  engagements := h.engagements.trans h'.engagements fun hup hup' => hup.trans hup'
  members := h'.members.trans h.members
  orgMembers := h'.orgMembers.trans h.orgMembers

theorem upholds_put (hstored : db.engagements.get? e'.id = some e) (hup : e.Upholds e')
    (h : db'.engagements = db.engagements.put e') (hmembers : db'.members = db.members)
    (horg : db'.orgMembers = db.orgMembers) : db.Upholds db' where
  engagements := h ▸ .put hstored hup .refl
  members := hmembers
  orgMembers := horg

end

/-! ## The requests of everybody -/

variable [Unicode] {rt : Runtime} {request : HttpRequest} {clocks : Clocks} {db db' : Db}
  {reply : Reply} {p : Platform} {programId : String}

omit [Unicode] in
/-- A change of a record raises the revision of its engagement at most. -/
theorem upholds_bump {e : Engagement} (he : db.engagements.get? programId = some e)
    (changed : Bool) (h : db'.engagements = db.engagements.put (e.bump changed))
    (hmembers : db'.members = db.members) (horg : db'.orgMembers = db.orgMembers) :
    db.Upholds db' :=
  upholds_put (stored_key he (bump_id e changed)) (bump_upholds e changed) h hmembers horg

theorem addScopeItem_upholds {itemId scopeType value : String} {kind : Option String}
    (h : addScopeItem p request programId itemId scopeType value kind db = .ok (db', reply)) :
    db.Upholds db' := by
  obtain ⟨user, huser, h⟩ := bind_eq_ok h
  obtain ⟨e, he, h⟩ := bind_eq_ok h
  obtain ⟨db₁, hadd, h⟩ := bind_eq_ok h
  obtain ⟨rfl, -⟩ := Prod.mk.inj (Except.ok.inj h)
  obtain ⟨scopeItems, -, -, rfl⟩ := addScopeItem_eq_ok hadd
  exact upholds_bump (writableEngagement_reaches he).2 true rfl rfl rfl

theorem deleteScopeItem_upholds {scopeType itemId : String}
    (h : deleteScopeItem p request programId scopeType itemId db = .ok (db', reply)) :
    db.Upholds db' := by
  obtain ⟨user, huser, h⟩ := bind_eq_ok h
  obtain ⟨_, -, h⟩ := bind_eq_ok h
  obtain ⟨e, he, h⟩ := bind_eq_ok h
  obtain ⟨r, hr, h⟩ := bind_eq_ok h
  obtain ⟨rfl, -⟩ := Prod.mk.inj (Except.ok.inj h)
  exact upholds_bump (writableEngagement_reaches he).2 true rfl rfl rfl

theorem importScope_upholds {rows : List ImportRow} {commit : Bool}
    (h : importScope p request programId rows commit db = .ok (db', reply)) : db.Upholds db' := by
  obtain ⟨user, huser, h⟩ := bind_eq_ok h
  obtain ⟨e, he, h⟩ := bind_eq_ok h
  dsimp only at h
  split at h
  · obtain ⟨rfl, -⟩ := Prod.mk.inj (Except.ok.inj h)
    exact upholds_of_engagements rfl rfl rfl
  · obtain ⟨db₁, hadd, h⟩ := bind_eq_ok h
    obtain ⟨rfl, -⟩ := Prod.mk.inj (Except.ok.inj h)
    obtain ⟨scopeItems, ids, -, -, rfl⟩ := addRows_eq_ok hadd
    exact upholds_bump (writableEngagement_reaches he).2 true rfl rfl rfl

theorem createAuthorization_upholds {c : AuthorizationCreate}
    (h : createAuthorization p request programId c db = .ok (db', reply)) : db.Upholds db' := by
  obtain ⟨user, huser, h⟩ := bind_eq_ok h
  obtain ⟨e, he, h⟩ := bind_eq_ok h
  obtain ⟨db₁, hadd, h⟩ := bind_eq_ok h
  obtain ⟨rfl, -⟩ := Prod.mk.inj (Except.ok.inj h)
  obtain ⟨authorizations, -, -, rfl⟩ := addAuthorization_eq_ok hadd
  exact upholds_bump (writableEngagement_reaches he).2 true rfl rfl rfl

theorem updateAuthorization_upholds {authorizationId : String} {u : AuthorizationUpdate}
    (h : updateAuthorization p request programId authorizationId u db = .ok (db', reply)) :
    db.Upholds db' := by
  obtain ⟨user, huser, h⟩ := bind_eq_ok h
  obtain ⟨e, he, h⟩ := bind_eq_ok h
  obtain ⟨a, ha, h⟩ := bind_eq_ok h
  obtain ⟨rfl, -⟩ := Prod.mk.inj (Except.ok.inj h)
  exact upholds_bump (writableEngagement_reaches he).2 (a.changedBy u) rfl rfl rfl

theorem createProposal_upholds {proposalId : String} {change : ProposedChange}
    (h : createProposal p request programId proposalId change db = .ok (db', reply)) :
    db.Upholds db' := by
  obtain ⟨user, huser, h⟩ := bind_eq_ok h
  obtain ⟨e, he, h⟩ := bind_eq_ok h
  obtain ⟨_, -, h⟩ := bind_eq_ok h
  obtain ⟨_, -, h⟩ := bind_eq_ok h
  obtain ⟨proposals, hinsert, h⟩ := bind_eq_ok h
  obtain ⟨rfl, -⟩ := Prod.mk.inj (Except.ok.inj h)
  exact upholds_of_engagements rfl rfl rfl

theorem applyProposal_upholds {e : Engagement} {newId applied : String} {change : ProposedChange}
    (he : db.engagements.get? programId = some e)
    (h : applyProposal p db e newId change = .ok (db', applied)) : db.Upholds db' := by
  cases change with
  | scope =>
    obtain ⟨db₁, hadd, h⟩ := bind_eq_ok h
    obtain ⟨rfl, -⟩ := Prod.mk.inj (Except.ok.inj h)
    obtain ⟨scopeItems, -, -, rfl⟩ := addScopeItem_eq_ok hadd
    exact upholds_bump he true rfl rfl rfl
  | authorization =>
    obtain ⟨db₁, hadd, h⟩ := bind_eq_ok h
    obtain ⟨rfl, -⟩ := Prod.mk.inj (Except.ok.inj h)
    obtain ⟨authorizations, -, -, rfl⟩ := addAuthorization_eq_ok hadd
    exact upholds_bump he true rfl rfl rfl
  | rateCeiling rate =>
    obtain ⟨rfl, -⟩ := Prod.mk.inj (Except.ok.inj h)
    have hput : db.engagements.get? ({ e.advance with maxRequestRate := some rate }).id =
      some e := stored_key he rfl
    exact upholds_put hput ⟨rfl, fun _ => rfl⟩ rfl rfl rfl

theorem approveProposal_upholds {proposalId newId : String}
    (h : approveProposal p clocks request programId proposalId newId db = .ok (db', reply)) :
    db.Upholds db' := by
  obtain ⟨user, e, c, db₁, applied, he, -, -, happly, rfl⟩ := approveProposal_eq_ok h
  exact (applyProposal_upholds he happly).trans (upholds_of_engagements rfl rfl rfl)

theorem rejectProposal_upholds {proposalId : String}
    (h : rejectProposal p clocks request programId proposalId db = .ok (db', reply)) :
    db.Upholds db' := by
  obtain ⟨⟨user, e, c⟩, hread, h⟩ := bind_eq_ok h
  obtain ⟨_, -, h⟩ := bind_eq_ok h
  obtain ⟨rfl, -⟩ := Prod.mk.inj (Except.ok.inj h)
  exact upholds_of_engagements rfl rfl rfl

theorem addTestCase_upholds {createdAt : Instant} {c : TestCaseCreate}
    (h : db.addTestCase p programId createdAt c = .ok db') : db.Upholds db' := by
  obtain ⟨spec, -, h⟩ := bind_eq_ok h
  obtain ⟨testCaseId, -, h⟩ := bind_eq_ok h
  obtain ⟨_, -, h⟩ := bind_eq_ok h
  obtain ⟨testCases, hinsert, h⟩ := bind_eq_ok h
  obtain rfl := Except.ok.inj h
  exact upholds_of_engagements rfl rfl rfl

theorem addTestCases_upholds {createdAt : Instant} {cases : List TestCaseCreate}
    (h : addTestCases p programId createdAt cases db = .ok db') : db.Upholds db' := by
  induction cases generalizing db with
  | nil =>
    obtain rfl := Except.ok.inj h
    exact upholds_of_engagements rfl rfl rfl
  | cons c cases ih =>
    obtain ⟨db₁, hadd, h⟩ := bind_eq_ok h
    exact (addTestCase_upholds hadd).trans (ih h)

theorem updateTestCase_upholds {testCaseId : String} {name : Option String} {spec : Option Json}
    (h : updateTestCase p request programId testCaseId name spec db = .ok (db', reply)) :
    db.Upholds db' := by
  obtain ⟨user, huser, h⟩ := bind_eq_ok h
  obtain ⟨e, he, h⟩ := bind_eq_ok h
  obtain ⟨row, hrow, h⟩ := bind_eq_ok h
  obtain ⟨changed, hchanged, h⟩ := bind_eq_ok h
  obtain ⟨updated, hupdated, h⟩ := bind_eq_ok h
  obtain ⟨rfl, -⟩ := Prod.mk.inj (Except.ok.inj h)
  exact upholds_bump (writableEngagement_reaches he).2 changed rfl rfl rfl

theorem deleteTestCase_upholds {testCaseId : String}
    (h : deleteTestCase p request programId testCaseId db = .ok (db', reply)) :
    db.Upholds db' := by
  obtain ⟨user, huser, h⟩ := bind_eq_ok h
  obtain ⟨e, he, h⟩ := bind_eq_ok h
  obtain ⟨row, hrow, h⟩ := bind_eq_ok h
  obtain ⟨rfl, -⟩ := Prod.mk.inj (Except.ok.inj h)
  exact upholds_bump (writableEngagement_reaches he).2 true rfl rfl rfl

/-- The requests about an engagement that are for its owner. -/
def EngagementOp.rules? : EngagementOp → Option String
  | update id _ | delete id | configureDuration id _ | configureTargets id _
  | configureConcurrency id _ | releaseStopWork id => some id
  | _ => none

/-- Everything else that members ask of an engagement leaves its terms alone. -/
theorem engagementOp_upholds {e : EngagementOp} (hrules : e.rules? = none)
    (hcreate : ∀ c, e ≠ .create c) (h : e.run rt request clocks db = .ok (db', reply)) : db.Upholds db' := by
  cases e with
  | engageStopWork id =>
    obtain ⟨user, huser, h⟩ := bind_eq_ok h
    obtain ⟨e, he, h⟩ := bind_eq_ok h
    dsimp only at h
    obtain ⟨rfl, -⟩ := Prod.mk.inj (Except.ok.inj h)
    obtain ⟨-, he⟩ := writableEngagement_reaches he
    obtain rfl : e.id = id := Table.key_of_get? he
    exact upholds_put (halted_key _ he) (halted_upholds e _) rfl rfl rfl
  | addInScopeItem => exact addScopeItem_upholds h
  | addOutScopeItem => exact addScopeItem_upholds h
  | deleteScopeItem => exact deleteScopeItem_upholds h
  | importScope => exact importScope_upholds h
  | createAuthorization => exact createAuthorization_upholds h
  | updateAuthorization => exact updateAuthorization_upholds h
  | createProposal => exact createProposal_upholds h
  | approveProposal => exact approveProposal_upholds h
  | rejectProposal => exact rejectProposal_upholds h
  | createTestCase id c =>
    obtain ⟨user, huser, h⟩ := bind_eq_ok h
    obtain ⟨e, he, h⟩ := bind_eq_ok h
    obtain ⟨db₁, hadd, h⟩ := bind_eq_ok h
    obtain ⟨rfl, -⟩ := Prod.mk.inj (Except.ok.inj h)
    exact addTestCase_upholds hadd
  | saveReviewedCases id cases =>
    obtain ⟨user, huser, h⟩ := bind_eq_ok h
    obtain ⟨e, he, h⟩ := bind_eq_ok h
    obtain ⟨db₁, hadd, h⟩ := bind_eq_ok h
    obtain ⟨rfl, -⟩ := Prod.mk.inj (Except.ok.inj h)
    exact addTestCases_upholds hadd
  | updateTestCase => exact updateTestCase_upholds h
  | deleteTestCase => exact deleteTestCase_upholds h
  | create c => exact absurd rfl (hcreate c)
  | _ => cases hrules

/-- A new engagement leaves those that are stored. -/
theorem createEngagement_stored {c : EngagementCreate}
    (h : createEngagement p request c db = .ok (db', reply)) {id : String} {e : Engagement}
    (he : db.engagements.get? id = some e) : db'.engagements.get? id = some e := by
  obtain ⟨user, -, h⟩ := bind_eq_ok h
  obtain ⟨_, -, h⟩ := bind_eq_ok h
  obtain ⟨engagements, hinsert, h⟩ := bind_eq_ok h
  dsimp only at h
  obtain ⟨rfl, -⟩ := Prod.mk.inj (Except.ok.inj h)
  exact Table.get?_insert_of_get? (found_eq_ok hinsert) he

/-! ## The requests of runners -/

theorem enqueueStages_upholds {e : Engagement} {createdAt : Instant} {previous : Option String}
    {stages : List (JobCreate × Json)} (h : enqueueStages e createdAt previous stages db = .ok db') :
    db.Upholds db' := by
  induction stages generalizing previous db with
  | nil =>
    obtain rfl := Except.ok.inj h
    exact upholds_of_engagements rfl rfl rfl
  | cons stage stages ih =>
    obtain ⟨db₁, hqueue, h⟩ := bind_eq_ok h
    obtain ⟨-, jobs, -, rfl⟩ := enqueue_eq_ok hqueue
    let row := stage.1.row e.id stage.2 previous createdAt
    have hqueued : db.Upholds { db.minted row.id with jobs } :=
      upholds_of_engagements rfl rfl rfl
    exact hqueued.trans (ih h)

/-- A claim charges the ledgers. -/
theorem claimJob_upholds {jobId token : String} {body : Option ClaimControl}
    (h : claimJob p clocks request jobId body token db = .ok (db', reply)) : db.Upholds db' := by
  obtain ⟨e, e', j, running, c, executions, capability, warning, hclaims, -, -, rfl⟩ :=
    claimJob_eq_ok h
  have hcharged := hclaims.admits.charged
  have hput : db.engagements.get? e'.id = some e := by
    rw [hcharged]
    exact stored_key hclaims.admits.engagement rfl
  exact upholds_put hput (by rw [hcharged]; exact ⟨rfl, fun _ => rfl⟩) rfl rfl rfl

theorem jobOp_upholds {j : JobOp} {reply : Except Refusal Reply}
    (h : j.run rt request clocks db = (db', reply)) : db.Upholds db' := by
  have hsettle : ∀ {commit : Commit}, settle db commit = (db', reply) →
      (∀ reply', commit = .ok (db', reply') → db.Upholds db') → db.Upholds db' :=
    fun {commit} h hok => by
      cases commit with
      | error e =>
        obtain ⟨rfl, rfl⟩ := Prod.mk.inj h
        exact upholds_of_engagements rfl rfl rfl
      | ok c =>
        obtain ⟨rfl, rfl⟩ := Prod.mk.inj h
        exact hok c.2 rfl
  cases j with
  | create =>
    refine hsettle h fun _ h => ?_
    obtain ⟨j, jobs, -, -, rfl⟩ := createJob_eq_ok h
    exact upholds_of_engagements rfl rfl rfl
  | pipeline id stages =>
    refine hsettle h fun _ h => ?_
    obtain ⟨user, huser, h⟩ := bind_eq_ok h
    obtain ⟨e, he, h⟩ := bind_eq_ok h
    obtain ⟨_, -, h⟩ := bind_eq_ok h
    obtain ⟨configs, -, h⟩ := bind_eq_ok h
    obtain ⟨db₁, hqueue, h⟩ := bind_eq_ok h
    obtain ⟨rfl, -⟩ := Prod.mk.inj (Except.ok.inj h)
    exact enqueueStages_upholds hqueue
  | pending =>
    refine hsettle h fun _ h => ?_
    obtain ⟨f, hf, -, rfl⟩ := pendingJobs_eq_ok h
    exact upholds_of_engagements rfl rfl rfl
  | update =>
    refine hsettle h fun _ h => ?_
    obtain rfl | ⟨i, j', -, -, -, -, rfl⟩ | ⟨x, -, -, rfl⟩ := updateJob_eq_ok h
    all_goals exact upholds_of_engagements rfl rfl rfl
  | claim => exact hsettle h fun _ h => claimJob_upholds h
  | status =>
    refine hsettle h fun _ h => ?_
    obtain rfl := executionStatus_eq_ok h
    exact upholds_of_engagements rfl rfl rfl
  | control =>
    refine hsettle h fun _ h => ?_
    obtain ⟨x, j, e, -, ⟨-, -, -, -, rfl⟩ | ⟨-, rfl⟩⟩ := refreshExecution_eq_ok h
    all_goals exact upholds_of_engagements rfl rfl rfl
  | finish k body f =>
    cases hfinish : finishExecution rt.toPlatform clocks request k body f db with
    | error e =>
      simp only [JobOp.run, hfinish] at h
      obtain ⟨rfl, rfl⟩ := Prod.mk.inj h
      exact upholds_of_engagements rfl rfl rfl
    | ok committed =>
      simp only [JobOp.run, hfinish] at h
      subst h
      obtain ⟨x, j, e, -, hfinishes⟩ := finishExecution_eq_ok hfinish
      cases hfinishes <;> exact upholds_of_engagements rfl rfl rfl
  | delete =>
    refine hsettle h fun _ h => ?_
    obtain ⟨-, rfl⟩ := deleteJob_eq_ok h
    exact upholds_of_engagements rfl rfl rfl
  | upload =>
    refine hsettle h fun _ h => ?_
    obtain ⟨i, -, -, rfl | ⟨assessment, receipt, receipts, -, -, rfl⟩⟩ := uploadJobResult_eq_ok h
    all_goals exact upholds_of_engagements rfl rfl rfl

/-- Managed operations work under the terms of the engagement of their job. -/
theorem body_upholds {op : ManagedOp} (h : op.body rt request clocks db = .ok (db', reply)) :
    db.Upholds db' := by
  cases op with
  | review =>
    rw [review_eq_ok h]
    exact upholds_of_engagements rfl rfl rfl
  | register =>
    obtain ⟨t, -, rfl⟩ | ⟨i, -, rfl⟩ := register_eq_ok h
    all_goals exact upholds_of_engagements rfl rfl rfl
  | revoke =>
    obtain ⟨i, a, t, -, -, -, rfl⟩ := revoke_eq_ok h
    exact upholds_of_engagements rfl rfl rfl
  | claim k body ids =>
    obtain ⟨i, hi, rfl, -⟩ := claim_eq_ok h
    have hput : db.engagements.get? i.charged.id = some i.engagement :=
      stored_key hi.engagement rfl
    exact upholds_put hput ⟨rfl, fun _ => rfl⟩ rfl rfl rfl
  | current =>
    obtain ⟨user, l, t, -, -, rfl⟩ := current_eq_ok h
    exact upholds_of_engagements rfl rfl rfl
  | refresh =>
    obtain ⟨r, -, rfl⟩ := refresh_eq_ok h
    exact upholds_of_engagements rfl rfl rfl
  | consume =>
    obtain ⟨l, locked, last, -, rfl⟩ := consume_eq_ok h
    exact upholds_of_engagements rfl rfl rfl
  | submit =>
    obtain ⟨o, ho, rfl | ⟨row, hrow⟩⟩ := Results.submit_eq_ok h
    · exact upholds_of_engagements rfl rfl rfl
    · obtain ⟨assessment, receipts, results, locked, -, -, -, rfl⟩ := hrow.committed
      exact upholds_of_engagements rfl rfl rfl
  | finish =>
    obtain ⟨outcome, -, h⟩ := bind_eq_ok h
    obtain ⟨o, row, -, -, -, ⟨-, rfl, -⟩ | ⟨⟨i, locked, hconcludes⟩, -⟩⟩ :=
      Results.finish_eq_ok h
    · exact upholds_of_engagements rfl rfl rfl
    · obtain ⟨finishedAt, rfl⟩ := hconcludes.committed
      exact upholds_of_engagements rfl rfl rfl
  | inspectResult =>
    rw [Results.inspect_eq_ok h]
    exact upholds_of_engagements rfl rfl rfl
  | report =>
    obtain ⟨o, -, ⟨rfl, -⟩ | ⟨row, hrow, -⟩⟩ := Stops.report_eq_ok h
    · exact upholds_of_engagements rfl rfl rfl
    · obtain ⟨stops, locked, -, -, -, rfl⟩ := hrow.committed
      exact upholds_of_engagements rfl rfl rfl
  | inspectStop =>
    rw [Stops.inspect_eq_ok h]
    exact upholds_of_engagements rfl rfl rfl
  | observe =>
    rw [Observations.inspect_eq_ok h]
    exact upholds_of_engagements rfl rfl rfl

/-! ## The requests of owners -/

/-- An accepted request of the owner of an engagement, to rule it. -/
structure Op.Rules (op : Op) (rt : Runtime) (db : Db) (id : String) (e : Engagement) : Prop where
  call : ∃ c, op.call = .engagement c ∧ c.rules? = some id
  owner : ∃ user, getCurrentUser rt.identity db op.request = .ok user ∧
    user.githubId = e.ownerGithubId
  accepted : ∃ reply, (exec rt op db).2 = .ok reply

omit [Unicode] in
theorem ownEngagement_owner {user : User} {e : Engagement}
    (h : ownEngagement db programId user = .ok e) : user.githubId = e.ownerGithubId := by
  obtain ⟨e', -, h⟩ := bind_eq_ok h
  obtain ⟨_, howner, h⟩ := bind_eq_ok h
  obtain rfl := Except.ok.inj h
  exact (beq_iff_eq.mp (ensure_eq_ok howner)).symm

theorem idleEngagement_owner {e : Engagement}
    (h : idleEngagement p request programId db = .ok e) :
    ∃ user, getCurrentUser p.identity db request = .ok user ∧
      ownEngagement db programId user = .ok e := by
  obtain ⟨user, huser, h⟩ := bind_eq_ok h
  obtain ⟨_, -, h⟩ := bind_eq_ok h
  obtain ⟨e', he, h⟩ := bind_eq_ok h
  obtain ⟨_, -, h⟩ := bind_eq_ok h
  obtain rfl := Except.ok.inj h
  exact ⟨user, huser, he⟩

/-- Whoever rules an engagement owns it. -/
theorem rules_owner {e : EngagementOp} (hrules : e.rules? = some programId)
    (h : e.run rt request clocks db = .ok (db', reply)) :
    ∃ user e, getCurrentUser rt.identity db request = .ok user ∧
      ownEngagement db programId user = .ok e := by
  cases e with
  | update | delete | releaseStopWork =>
    obtain rfl := Option.some.inj hrules
    obtain ⟨user, huser, h⟩ := bind_eq_ok h
    obtain ⟨e, he, -⟩ := bind_eq_ok h
    exact ⟨user, e, huser, he⟩
  | configureDuration | configureTargets | configureConcurrency =>
    obtain rfl := Option.some.inj hrules
    obtain ⟨e, he, -⟩ := bind_eq_ok h
    obtain ⟨user, huser, he⟩ := idleEngagement_owner he
    exact ⟨user, e, huser, he⟩
  | _ => cases hrules

theorem rules_within {e : EngagementOp} (hrules : e.rules? = some programId)
    (h : e.run rt request clocks db = .ok (db', reply)) :
    Within rt.identity request db db' programId := by
  cases e with
  | update =>
    obtain rfl := Option.some.inj hrules
    exact updateEngagement_within h
  | delete =>
    obtain rfl := Option.some.inj hrules
    exact deleteEngagement_within h
  | configureDuration =>
    obtain rfl := Option.some.inj hrules
    exact configureDuration_within h
  | configureTargets =>
    obtain rfl := Option.some.inj hrules
    exact configureTargets_within h
  | configureConcurrency =>
    obtain rfl := Option.some.inj hrules
    exact configureConcurrency_within h
  | releaseStopWork =>
    obtain rfl := Option.some.inj hrules
    exact releaseStopWork_within h
  | _ => cases hrules

/-- One request leaves the terms of an engagement, or it is an accepted one of its owner. -/
theorem exec_upholds (op : Op) {id : String} {e : Engagement}
    (he : db.engagements.get? id = some e) :
    (∃ e', (exec rt op db).1.engagements.get? id = some e' ∧ e.Upholds e') ∨
      op.Rules rt db id e := by
  obtain ⟨request, clocks, call⟩ := op
  cases call with
  | engagement c =>
    change (∃ e', (settle db (c.run rt request clocks db)).1.engagements.get? id = some e' ∧ _) ∨ _
    cases hcommit : c.run rt request clocks db with
    | error refusal => exact .inl ⟨e, he, .refl e⟩
    | ok committed =>
      obtain ⟨db', reply⟩ := committed
      cases hrules : c.rules? with
      | none =>
        by_cases hcreate : ∃ c', c = .create c'
        · obtain ⟨c, rfl⟩ := hcreate
          exact .inl ⟨e, createEngagement_stored hcommit he, .refl e⟩
        · have hup := engagementOp_upholds hrules (fun c' hc => hcreate ⟨c', hc⟩) hcommit
          exact .inl (hup.engagements.forward he)
      | some programId =>
        obtain ⟨user, e', huser, hown⟩ := rules_owner hrules hcommit
        by_cases hid : programId = id
        · subst hid
          obtain rfl := Option.some.inj (he.symm.trans (ownEngagement_reaches hown).2)
          refine .inr ⟨⟨c, rfl, hrules⟩, ⟨user, huser, ownEngagement_owner hown⟩, reply, ?_⟩
          change (settle db (c.run rt request clocks db)).2 = .ok reply
          rw [hcommit]
          rfl
        · have hkept := (rules_within hrules hcommit).others id hid
          have hsame : db'.engagements.get? id = db.engagements.get? id :=
            congrArg Holding.engagement hkept
          exact .inl ⟨e, hsame.trans he, .refl e⟩
  | job j =>
    have hjob : db.Upholds (j.run rt request clocks db).1 := jobOp_upholds rfl
    exact .inl (hjob.engagements.forward he)
  | managed m =>
    change (∃ e', (m.run rt request clocks db).1.engagements.get? id = some e' ∧ _) ∨ _
    rcases managedOp_cases rt request clocks m db with
      ⟨observed, refusal, hrun⟩ | ⟨-, observed, db', reply, hbody, hrun⟩
    · rw [hrun]
      exact .inl ⟨e, he, .refl e⟩
    · rw [hrun]
      exact .inl ((body_upholds hbody).engagements.forward he)
  | provision p => exact .inl ⟨e, he, .refl e⟩

/-- The terms of an engagement, over all runs. From any reachable database they stay, and
stop-work stays engaged, until some accepted request of the engagement's owner asks for a
change; no member, runner or managed operation makes one. -/
theorem terms_for_owner (rt : Runtime) (earlier later : List Op) {id : String} {e : Engagement}
    (he : (after rt earlier .empty).engagements.get? id = some e) :
    (∃ e', (after rt (earlier ++ later) .empty).engagements.get? id = some e' ∧ e.Upholds e') ∨
      ∃ before op rest, later = before ++ op :: rest ∧
        op.Rules rt (after rt (earlier ++ before) .empty) id e := by
  induction later generalizing earlier e with
  | nil =>
    rw [List.append_nil]
    exact .inl ⟨e, he, .refl e⟩
  | cons op later ih =>
    rcases exec_upholds op he with ⟨e', he', hup⟩ | hrules
    · have he' : (after rt (earlier ++ [op]) .empty).engagements.get? id = some e' := by
        rwa [after_append]
      rcases ih (earlier ++ [op]) he' with ⟨e'', he'', hup'⟩ | ⟨before, op', rest, hlater, hrules⟩
      · rw [List.append_assoc] at he''
        exact .inl ⟨e'', he'', hup.trans hup'⟩
      · refine .inr ⟨op :: before, op', rest, by rw [hlater]; rfl, ?_⟩
        rw [List.append_assoc] at hrules
        have howner : e'.ownerGithubId = e.ownerGithubId := congrArg Terms.ownerGithubId hup.terms
        exact ⟨hrules.call, howner ▸ hrules.owner, hrules.accepted⟩
    · exact .inr ⟨[], op, later, rfl, by rwa [List.append_nil]⟩

omit [Unicode] in
/-- Stop-work and the requests of a runner leave the limits of the engagement. -/
theorem terms_for_owner_stopped : ∃ e',
    (@after Unicode.ascii exampleRuntime (exampleSetup ++ [
      byRunner (.job .pending),
      bySession (.engagement (.engageStopWork "e1")),
      byRunner (.job (.status "j1"))]) .empty).engagements.get? "e1" = some e' ∧
      e'.targetLimit = some 10 := by
  let _ := Unicode.ascii
  have hstored : ((after exampleRuntime exampleSetup .empty).engagements.get? "e1").map
      Engagement.targetLimit = some (some 10) := by decide +kernel
  obtain ⟨e, he, hlimit⟩ := Option.map_eq_some_iff.mp hstored
  rcases terms_for_owner exampleRuntime exampleSetup [
      byRunner (.job .pending),
      bySession (.engagement (.engageStopWork "e1")),
      byRunner (.job (.status "j1"))] he with
    ⟨e', he', hup⟩ | ⟨before, op, rest, hlater, hrules⟩
  · exact ⟨e', he', (congrArg Terms.targetLimit hup.terms).trans hlimit⟩
  · -- none of the three rules an engagement
    obtain ⟨c, hcall, hc⟩ := hrules.call
    have hmem : op ∈ [
        byRunner (.job .pending),
        bySession (.engagement (.engageStopWork "e1")),
        byRunner (.job (.status "j1"))] := by
      rw [hlater]
      exact List.mem_append_right _ (List.mem_cons_self ..)
    simp only [List.mem_cons, List.not_mem_nil, or_false] at hmem
    rcases hmem with rfl | rfl | rfl
    · cases hcall
    · obtain rfl := Call.engagement.inj hcall
      cases hc
    · cases hcall

end VardrMap
