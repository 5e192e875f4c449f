import VardrMap.Tenancy

/-!
# Requests and the engagements that they change

Every accepted request is one about an engagement that its caller can reach, and it changes
nothing that is kept of any other. A listing is about all of the caller's engagements, and a
new engagement is about none.
-/
namespace VardrMap
open Lib

variable [Unicode] {rt : Runtime} {request : HttpRequest} {clocks : Clocks} {db db' : Db}
  {reply : Reply} {p : Platform}

/-- The caller of an accepted request can reach the engagement that it is about, and what is
kept of any other engagement stays. -/
structure Within (identity : Identity) (request : HttpRequest) (db db' : Db) (programId : String) :
    Prop where
  reached : ∃ user, getCurrentUser identity db request = .ok user ∧
    db.reaches user.githubId programId = true
  others : ∀ id, programId ≠ id → db'.holding id = db.holding id

/-! ## The engagement routes -/

section
variable {programId : String}

theorem updateEngagement_within {u : EngagementUpdate}
    (h : updateEngagement p request programId u db = .ok (db', reply)) :
    Within p.identity request db db' programId := by
  obtain ⟨user, huser, h⟩ := bind_eq_ok h
  obtain ⟨e, he, h⟩ := bind_eq_ok h
  obtain ⟨rfl, -⟩ := Prod.mk.inj (Except.ok.inj h)
  obtain ⟨hreach, he⟩ := ownEngagement_reaches he
  obtain rfl : e.id = programId := Table.key_of_get? he
  refine ⟨⟨user, huser, hreach⟩, fun id hid => holding_putEngagement ?_⟩
  rwa [(update_amends he u).id_eq]

omit [Unicode] in
theorem bump_id (e : Engagement) (changed : Bool) : (e.bump changed).id = e.id := by
  unfold Engagement.bump
  split <;> rfl

theorem idleEngagement_reaches {e : Engagement}
    (h : idleEngagement p request programId db = .ok e) :
    (∃ user, getCurrentUser p.identity db request = .ok user ∧
      db.reaches user.githubId programId = true) ∧ e.id = programId := by
  obtain ⟨user, huser, h⟩ := bind_eq_ok h
  obtain ⟨_, -, h⟩ := bind_eq_ok h
  obtain ⟨e', he, h⟩ := bind_eq_ok h
  obtain ⟨_, -, h⟩ := bind_eq_ok h
  obtain rfl := Except.ok.inj h
  obtain ⟨hreach, he⟩ := ownEngagement_reaches he
  exact ⟨⟨user, huser, hreach⟩, Table.key_of_get? he⟩

theorem configureDuration_within {limit : Option ℕ}
    (h : configureDuration p request programId limit db = .ok (db', reply)) :
    Within p.identity request db db' programId := by
  obtain ⟨e, he, h⟩ := bind_eq_ok h
  obtain ⟨_, -, h⟩ := bind_eq_ok h
  obtain ⟨rfl, -⟩ := Prod.mk.inj (Except.ok.inj h)
  obtain ⟨hreach, rfl⟩ := idleEngagement_reaches he
  exact ⟨hreach, fun id hid => holding_putEngagement (by rwa [bump_id])⟩

theorem configureTargets_within {limit : Option ℕ}
    (h : configureTargets p request programId limit db = .ok (db', reply)) :
    Within p.identity request db db' programId := by
  obtain ⟨e, he, h⟩ := bind_eq_ok h
  obtain ⟨_, -, h⟩ := bind_eq_ok h
  obtain ⟨rfl, -⟩ := Prod.mk.inj (Except.ok.inj h)
  obtain ⟨hreach, rfl⟩ := idleEngagement_reaches he
  exact ⟨hreach, fun id hid => holding_putEngagement (by rwa [bump_id])⟩

theorem configureConcurrency_within {limit : Option ℕ}
    (h : configureConcurrency p request programId limit db = .ok (db', reply)) :
    Within p.identity request db db' programId := by
  obtain ⟨e, he, h⟩ := bind_eq_ok h
  obtain ⟨rfl, -⟩ := Prod.mk.inj (Except.ok.inj h)
  obtain ⟨hreach, rfl⟩ := idleEngagement_reaches he
  exact ⟨hreach, fun id hid => holding_putEngagement (by rwa [bump_id])⟩

omit [Unicode] in
/-- The rows of a dropped engagement are not those of another. -/
theorem holding_dropEngagement {id : String} (h : programId ≠ id) :
    (db.dropEngagement programId).holding id = db.holding id := by
  have hne : ∀ s : String, (s == id) = true → (s != programId) = true := fun s hs => by
    rw [beq_iff_eq.mp hs]
    simpa using Ne.symm h
  let db₁ := db.dropJobs fun j => j.programId != programId
  have hjobs : db₁.holding id = db.holding id :=
    holding_dropJobs fun j hj => hne _ (List.mem_filter.mp hj).2
  let db₂ : Db := { db₁ with engagements := db₁.engagements.filter fun e => e.id != programId }
  have hengagements : db₂.holding id = db₁.holding id :=
    holding_engagements (Table.get?_filter_eq fun e he =>
      hne e.id (beq_iff_eq.mpr (Table.key_of_get? he)))
  let db₃ : Db := { db₂ with members := db₂.members.filter fun m => m.programId != programId }
  have hmembers : db₃.holding id = db₂.holding id := by
    refine holding_members ((List.filter_filter ..).trans (List.filter_congr fun m _ => ?_))
    cases hm : m.programId == id with
    | false => rfl
    | true => simp [hne _ hm]
  let db₄ : Db := { db₃ with
    authorizations := db₃.authorizations.filter fun a => a.programId != programId }
  have hauthorizations : db₄.holding id = db₃.holding id :=
    holding_authorizations (Table.select_filter fun a _ ha => hne a.programId ha)
  let db₅ : Db := { db₄ with scopeItems := db₄.scopeItems.filter fun r => r.programId != programId }
  have hscope : db₅.holding id = db₄.holding id :=
    holding_scopeItems (Table.select_filter fun r _ hr => hne r.programId hr)
  let db₆ : Db := { db₅ with testCases := db₅.testCases.filter fun c => c.programId != programId }
  have hcases : db₆.holding id = db₅.holding id :=
    holding_testCases (Table.select_filter fun c _ hc => hne c.programId hc)
  let db₇ : Db := { db₆ with proposals := db₆.proposals.filter fun c => c.programId != programId }
  have hproposals : db₇.holding id = db₆.holding id :=
    holding_proposals (Table.select_filter fun c _ hc => hne c.programId hc)
  exact hproposals.trans (hcases.trans (hscope.trans (hauthorizations.trans
    (hmembers.trans (hengagements.trans hjobs)))))

theorem deleteEngagement_eq_ok (h : deleteEngagement p request programId db = .ok (db', reply)) :
    db' = db.dropEngagement programId := by
  obtain ⟨user, huser, h⟩ := bind_eq_ok h
  obtain ⟨e, he, h⟩ := bind_eq_ok h
  split at h
  · obtain ⟨_, -, h⟩ := bind_eq_ok h
    obtain ⟨_, -, h⟩ := bind_eq_ok h
    obtain ⟨_, -, h⟩ := bind_eq_ok h
    exact (Prod.mk.inj (Except.ok.inj h)).1.symm
  · obtain ⟨_, -, h⟩ := bind_eq_ok h
    obtain ⟨_, -, h⟩ := bind_eq_ok h
    exact (Prod.mk.inj (Except.ok.inj h)).1.symm

theorem deleteEngagement_within (h : deleteEngagement p request programId db = .ok (db', reply)) :
    Within p.identity request db db' programId := by
  obtain rfl := deleteEngagement_eq_ok h
  obtain ⟨user, huser, h⟩ := bind_eq_ok h
  obtain ⟨e, he, -⟩ := bind_eq_ok h
  exact ⟨⟨user, huser, (ownEngagement_reaches he).1⟩, fun id hid => holding_dropEngagement hid⟩

omit [Unicode] in
/-- Stop-work reaches the executions of its own engagement only. -/
theorem holding_halt {id : String} (h : programId ≠ id) :
    ({ db with executions := db.executions.map (db.halt programId) (halt_jobId db programId) } :
      Db).holding id = db.holding id := by
  refine congrArg (Holding.mk _ _ _ _ _ _ _) (files_congr (fun j hj => ?_) rfl)
  obtain ⟨hget, hprogram⟩ := mem_jobsOf.mp hj
  have hsame : (db.executions.map (db.halt programId) (halt_jobId db programId)).get? j.id =
      db.executions.get? j.id := by
    rw [Table.get?_map]
    cases hx : db.executions.get? j.id with
    | none => rfl
    | some x =>
      have hid : x.jobId = j.id := Table.key_of_get? hx
      simp [Db.halt, hid, hget, hprogram, Ne.symm h]
  simp only [Db.file, hsame]
  rfl

theorem engageStopWork_within
    (h : engageStopWork p clocks request programId db = .ok (db', reply)) :
    Within p.identity request db db' programId := by
  obtain ⟨user, huser, h⟩ := bind_eq_ok h
  obtain ⟨e, he, h⟩ := bind_eq_ok h
  obtain ⟨hreach, he⟩ := writableEngagement_reaches he
  obtain rfl : e.id = programId := Table.key_of_get? he
  dsimp only at h
  obtain ⟨rfl, -⟩ := Prod.mk.inj (Except.ok.inj h)
  have hkey : e.id = (e.halted (clocks.wall 0).instant).id := Table.key_of_get? (halted_key _ he)
  have hput : ∀ id, e.id ≠ id →
      (db.putEngagement (e.halted (clocks.wall 0).instant)).holding id = db.holding id :=
    fun id hid => holding_putEngagement (hkey ▸ hid)
  refine ⟨⟨user, huser, hreach⟩, fun id hid => ?_⟩
  let db₁ := db.putEngagement (e.halted (clocks.wall 0).instant)
  have hhalt : ({ db₁ with
      executions := db₁.executions.map (db₁.halt e.id) (halt_jobId db₁ e.id) } : Db).holding id =
      db₁.holding id := holding_halt hid
  exact hhalt.trans (hput id hid)

theorem releaseStopWork_within
    (h : releaseStopWork p request programId db = .ok (db', reply)) :
    Within p.identity request db db' programId := by
  obtain ⟨user, huser, h⟩ := bind_eq_ok h
  obtain ⟨e, he, h⟩ := bind_eq_ok h
  obtain ⟨rfl, -⟩ := Prod.mk.inj (Except.ok.inj h)
  obtain ⟨hreach, he⟩ := ownEngagement_reaches he
  obtain rfl : e.id = programId := Table.key_of_get? he
  exact ⟨⟨user, huser, hreach⟩, fun id hid => holding_putEngagement (by rwa [bump_id])⟩

end

/-! ## The records of an engagement -/

section
variable {programId : String}

/-- A scope row of an engagement whose revision was raised. -/
theorem holding_addScopeItem {e : Engagement} {item : ScopeItem} {id : String}
    (hid : e.id ≠ id) (hitem : item.programId = e.id)
    (h : (db.putEngagement e.advance).addScopeItem item = .ok db') :
    db'.holding id = db.holding id := by
  obtain ⟨scopeItems, -, hinsert, rfl⟩ := addScopeItem_eq_ok h
  exact (holding_scopeItems (Table.select_insert hinsert (by simpa [hitem] using hid))).trans
    (holding_putEngagement (e := e.advance) hid)

theorem addScopeItem_within {itemId scopeType value : String} {kind : Option String}
    (h : addScopeItem p request programId itemId scopeType value kind db = .ok (db', reply)) :
    Within p.identity request db db' programId := by
  obtain ⟨user, huser, h⟩ := bind_eq_ok h
  obtain ⟨e, he, h⟩ := bind_eq_ok h
  obtain ⟨db₁, hadd, h⟩ := bind_eq_ok h
  obtain ⟨rfl, -⟩ := Prod.mk.inj (Except.ok.inj h)
  obtain ⟨hreach, he⟩ := writableEngagement_reaches he
  obtain rfl : e.id = programId := Table.key_of_get? he
  exact ⟨⟨user, huser, hreach⟩, fun id hid => holding_addScopeItem hid rfl hadd⟩

theorem deleteScopeItem_within {scopeType itemId : String}
    (h : deleteScopeItem p request programId scopeType itemId db = .ok (db', reply)) :
    Within p.identity request db db' programId := by
  obtain ⟨user, huser, h⟩ := bind_eq_ok h
  obtain ⟨_, -, h⟩ := bind_eq_ok h
  obtain ⟨e, he, h⟩ := bind_eq_ok h
  obtain ⟨r, hr, h⟩ := bind_eq_ok h
  obtain ⟨rfl, -⟩ := Prod.mk.inj (Except.ok.inj h)
  obtain ⟨hreach, he⟩ := writableEngagement_reaches he
  obtain rfl : e.id = programId := Table.key_of_get? he
  obtain ⟨hget, hrow⟩ := Option.filter_eq_some_iff.mp (found_eq_ok hr)
  simp only [Bool.and_eq_true, beq_iff_eq] at hrow
  refine ⟨⟨user, huser, hreach⟩, fun id hid => ?_⟩
  refine (holding_scopeItems (Table.select_filter fun r' hr' hprogram => ?_)).trans
    (holding_putEngagement (e := e.advance) hid)
  -- the row under this identifier is one of the engagement
  have hne : r'.id ≠ itemId := fun hk => by
    obtain rfl : r' = r :=
      Table.eq_of_key hr' (Table.mem_of_get? hget) (hk.trans (Table.key_of_get? hget).symm)
    exact hid (hrow.1.symm.trans (beq_iff_eq.mp hprogram))
  simpa using hne

theorem importScope_within {rows : List ImportRow} {commit : Bool}
    (h : importScope p request programId rows commit db = .ok (db', reply)) :
    Within p.identity request db db' programId := by
  obtain ⟨user, huser, h⟩ := bind_eq_ok h
  obtain ⟨e, he, h⟩ := bind_eq_ok h
  obtain ⟨hreach, he⟩ := writableEngagement_reaches he
  obtain rfl : e.id = programId := Table.key_of_get? he
  refine ⟨⟨user, huser, hreach⟩, fun id hid => ?_⟩
  dsimp only at h
  split at h
  · obtain ⟨rfl, -⟩ := Prod.mk.inj (Except.ok.inj h)
    rfl
  · obtain ⟨db₁, hadd, h⟩ := bind_eq_ok h
    obtain ⟨rfl, -⟩ := Prod.mk.inj (Except.ok.inj h)
    obtain ⟨scopeItems, ids, -, hother, rfl⟩ := addRows_eq_ok hadd
    exact (holding_scopeItems (hother id hid.symm)).trans
      (holding_putEngagement (e := e.advance) hid)

theorem holding_addAuthorization {e : Engagement} {row : Authorization} {id : String}
    (hid : e.id ≠ id) (hrow : row.programId = e.id)
    (h : (db.putEngagement e.advance).addAuthorization row = .ok db') :
    db'.holding id = db.holding id := by
  obtain ⟨authorizations, -, hinsert, rfl⟩ := addAuthorization_eq_ok h
  exact (holding_authorizations (Table.select_insert hinsert (by simpa [hrow] using hid))).trans
    (holding_putEngagement (e := e.advance) hid)

theorem createAuthorization_within {c : AuthorizationCreate}
    (h : createAuthorization p request programId c db = .ok (db', reply)) :
    Within p.identity request db db' programId := by
  obtain ⟨user, huser, h⟩ := bind_eq_ok h
  obtain ⟨e, he, h⟩ := bind_eq_ok h
  obtain ⟨db₁, hadd, h⟩ := bind_eq_ok h
  obtain ⟨rfl, -⟩ := Prod.mk.inj (Except.ok.inj h)
  obtain ⟨hreach, he⟩ := writableEngagement_reaches he
  obtain rfl : e.id = programId := Table.key_of_get? he
  exact ⟨⟨user, huser, hreach⟩, fun id hid => holding_addAuthorization hid rfl hadd⟩

theorem updateAuthorization_within {authorizationId : String} {u : AuthorizationUpdate}
    (h : updateAuthorization p request programId authorizationId u db = .ok (db', reply)) :
    Within p.identity request db db' programId := by
  obtain ⟨user, huser, h⟩ := bind_eq_ok h
  obtain ⟨e, he, h⟩ := bind_eq_ok h
  obtain ⟨a, ha, h⟩ := bind_eq_ok h
  obtain ⟨rfl, -⟩ := Prod.mk.inj (Except.ok.inj h)
  obtain ⟨hreach, he⟩ := writableEngagement_reaches he
  obtain rfl : e.id = programId := Table.key_of_get? he
  obtain ⟨hget, hprogram⟩ := Option.filter_eq_some_iff.mp (found_eq_ok ha)
  obtain rfl : a.id = authorizationId := Table.key_of_get? hget
  refine ⟨⟨user, huser, hreach⟩, fun id hid => ?_⟩
  have hother : (a.programId == id) = false := by
    rw [eq_of_beq hprogram]
    simpa using hid
  refine (holding_authorizations ?_).trans (holding_putEngagement (e := e.bump (a.changedBy u)) ?_)
  · exact Table.select_put (r := a.update p u) hget hother hother
  · rwa [bump_id]

/-! ### Proposals -/

theorem createProposal_within {proposalId : String} {change : ProposedChange}
    (h : createProposal p request programId proposalId change db = .ok (db', reply)) :
    Within p.identity request db db' programId := by
  obtain ⟨user, huser, h⟩ := bind_eq_ok h
  obtain ⟨e, he, h⟩ := bind_eq_ok h
  obtain ⟨_, -, h⟩ := bind_eq_ok h
  obtain ⟨_, -, h⟩ := bind_eq_ok h
  obtain ⟨proposals, hinsert, h⟩ := bind_eq_ok h
  obtain ⟨rfl, -⟩ := Prod.mk.inj (Except.ok.inj h)
  obtain ⟨hreach, he⟩ := writableEngagement_reaches he
  obtain rfl : e.id = programId := Table.key_of_get? he
  exact ⟨⟨user, huser, hreach⟩, fun id hid =>
    holding_proposals (Table.select_insert (found_eq_ok hinsert) (by simpa using hid))⟩

theorem holding_applyProposal {e : Engagement} {newId applied id : String}
    {change : ProposedChange} (hid : e.id ≠ id)
    (h : applyProposal p db e newId change = .ok (db', applied)) :
    db'.holding id = db.holding id := by
  cases change with
  | scope =>
    obtain ⟨db₁, hadd, h⟩ := bind_eq_ok h
    obtain ⟨rfl, -⟩ := Prod.mk.inj (Except.ok.inj h)
    exact holding_addScopeItem hid rfl hadd
  | authorization =>
    obtain ⟨db₁, hadd, h⟩ := bind_eq_ok h
    obtain ⟨rfl, -⟩ := Prod.mk.inj (Except.ok.inj h)
    exact holding_addAuthorization hid rfl hadd
  | rateCeiling rate =>
    obtain ⟨rfl, -⟩ := Prod.mk.inj (Except.ok.inj h)
    exact holding_putEngagement hid

/-- A proposal of the engagement is resolved by somebody who can write to it. -/
theorem resolvableProposal_reaches {proposalId : String} {user : User} {e : Engagement}
    {c : AgentProposal}
    (h : resolvableProposal p request programId proposalId db = .ok (user, e, c)) :
    getCurrentUser p.identity db request = .ok user ∧
      db.reaches user.githubId programId = true ∧ e.id = programId ∧
      db.proposals.get? proposalId = some c ∧ c.programId = programId := by
  obtain ⟨user', huser, h⟩ := bind_eq_ok h
  obtain ⟨_, -, h⟩ := bind_eq_ok h
  obtain ⟨⟨e', c'⟩, hread, h⟩ := bind_eq_ok h
  obtain ⟨_, -, h⟩ := bind_eq_ok h
  obtain ⟨rfl, rfl, rfl⟩ : user' = user ∧ e' = e ∧ c' = c := by simpa [pure, Except.pure] using h
  obtain ⟨e, he, hread⟩ := bind_eq_ok hread
  obtain ⟨c, hc, hread⟩ := bind_eq_ok hread
  obtain ⟨rfl, rfl⟩ := Prod.mk.inj (Except.ok.inj hread)
  have hid : e.id = programId := Table.key_of_get? (getEngagement_eq_ok he)
  obtain ⟨hget, hprogram⟩ := Option.filter_eq_some_iff.mp (found_eq_ok hc)
  exact ⟨huser, getEngagement_reaches he, hid, hget, (beq_iff_eq.mp hprogram).trans hid⟩

omit [Unicode] in
theorem holding_putProposal {c : AgentProposal} {status : ProposalStatus} {applied id : String}
    {now : Instant} {user : User} (hget : db.proposals.get? c.id = some c)
    (hid : c.programId ≠ id) :
    (db.putProposal (c.resolve status applied now user)).holding id = db.holding id :=
  holding_proposals (Table.select_put (r := c.resolve status applied now user) hget
    (by simpa using hid) (by simpa [AgentProposal.resolve] using hid))

theorem approveProposal_within {proposalId newId : String}
    (h : approveProposal p clocks request programId proposalId newId db = .ok (db', reply)) :
    Within p.identity request db db' programId := by
  obtain ⟨user', e', c', db₁, applied, he, hc, -, happly, rfl⟩ := approveProposal_eq_ok h
  obtain ⟨⟨user, e, c⟩, hread, -⟩ := bind_eq_ok h
  obtain ⟨huser, hreach, -, hget, hprogram⟩ := resolvableProposal_reaches hread
  obtain rfl : c' = c := Option.some.inj (hc.symm.trans hget)
  obtain rfl : c'.id = proposalId := Table.key_of_get? hc
  obtain rfl : e'.id = programId := Table.key_of_get? he
  refine ⟨⟨user, huser, hreach⟩, fun id hid => ?_⟩
  have hstored : db₁.proposals.get? c'.id = some c' := by
    rwa [applyProposal_proposals happly]
  exact (holding_putProposal hstored (hprogram ▸ hid)).trans (holding_applyProposal hid happly)

theorem rejectProposal_within {proposalId : String}
    (h : rejectProposal p clocks request programId proposalId db = .ok (db', reply)) :
    Within p.identity request db db' programId := by
  obtain ⟨⟨user, e, c⟩, hread, h⟩ := bind_eq_ok h
  obtain ⟨_, -, h⟩ := bind_eq_ok h
  obtain ⟨rfl, -⟩ := Prod.mk.inj (Except.ok.inj h)
  obtain ⟨huser, hreach, -, hget, hprogram⟩ := resolvableProposal_reaches hread
  obtain rfl : c.id = proposalId := Table.key_of_get? hget
  exact ⟨⟨user, huser, hreach⟩, fun id hid => holding_putProposal hget (hprogram ▸ hid)⟩

/-! ### Test cases -/

theorem holding_addTestCase {createdAt : Instant} {c : TestCaseCreate} {id : String}
    (hid : programId ≠ id) (h : db.addTestCase p programId createdAt c = .ok db') :
    db'.holding id = db.holding id := by
  obtain ⟨spec, -, h⟩ := bind_eq_ok h
  obtain ⟨testCaseId, -, h⟩ := bind_eq_ok h
  obtain ⟨_, -, h⟩ := bind_eq_ok h
  obtain ⟨testCases, hinsert, h⟩ := bind_eq_ok h
  obtain rfl := Except.ok.inj h
  exact holding_testCases (Table.select_insert (found_eq_ok hinsert) (by simpa using hid))

theorem holding_addTestCases {createdAt : Instant} {cases : List TestCaseCreate} {id : String}
    (hid : programId ≠ id) (h : addTestCases p programId createdAt cases db = .ok db') :
    db'.holding id = db.holding id := by
  induction cases generalizing db with
  | nil =>
    obtain rfl := Except.ok.inj h
    rfl
  | cons c cases ih =>
    obtain ⟨db₁, hadd, h⟩ := bind_eq_ok h
    exact (ih h).trans (holding_addTestCase hid hadd)

theorem createTestCase_within {c : TestCaseCreate}
    (h : createTestCase p clocks request programId c db = .ok (db', reply)) :
    Within p.identity request db db' programId := by
  obtain ⟨user, huser, h⟩ := bind_eq_ok h
  obtain ⟨e, he, h⟩ := bind_eq_ok h
  obtain ⟨db₁, hadd, h⟩ := bind_eq_ok h
  obtain ⟨rfl, -⟩ := Prod.mk.inj (Except.ok.inj h)
  exact ⟨⟨user, huser, (writableEngagement_reaches he).1⟩,
    fun id hid => holding_addTestCase hid hadd⟩

theorem saveReviewedCases_within {cases : List TestCaseCreate}
    (h : saveReviewedCases p clocks request programId cases db = .ok (db', reply)) :
    Within p.identity request db db' programId := by
  obtain ⟨user, huser, h⟩ := bind_eq_ok h
  obtain ⟨e, he, h⟩ := bind_eq_ok h
  obtain ⟨db₁, hadd, h⟩ := bind_eq_ok h
  obtain ⟨rfl, -⟩ := Prod.mk.inj (Except.ok.inj h)
  exact ⟨⟨user, huser, (writableEngagement_reaches he).1⟩,
    fun id hid => holding_addTestCases hid hadd⟩

theorem updateTestCase_within {testCaseId : String} {name : Option String} {spec : Option Json}
    (h : updateTestCase p request programId testCaseId name spec db = .ok (db', reply)) :
    Within p.identity request db db' programId := by
  obtain ⟨user, huser, h⟩ := bind_eq_ok h
  obtain ⟨e, he, h⟩ := bind_eq_ok h
  obtain ⟨row, hrow, h⟩ := bind_eq_ok h
  obtain ⟨changed, hchanged, h⟩ := bind_eq_ok h
  obtain ⟨updated, hupdated, h⟩ := bind_eq_ok h
  obtain ⟨rfl, -⟩ := Prod.mk.inj (Except.ok.inj h)
  obtain ⟨hreach, he⟩ := writableEngagement_reaches he
  obtain rfl : e.id = programId := Table.key_of_get? he
  obtain ⟨hget, hprogram⟩ := caseOf_eq_ok hrow
  obtain ⟨hid, hsame, -⟩ := updatedCase_eq_ok hchanged hupdated
  refine ⟨⟨user, huser, hreach⟩, fun id hne => ?_⟩
  have hselect := Table.select_put (r := updated) (p := fun c => c.programId == id)
    (stored_key hget hid) (by simpa [hprogram] using hne) (by simpa [hsame, hprogram] using hne)
  refine (holding_testCases ?_).trans (holding_putEngagement (e := e.bump changed) ?_)
  · exact hselect
  · rwa [bump_id]

theorem deleteTestCase_within {testCaseId : String}
    (h : deleteTestCase p request programId testCaseId db = .ok (db', reply)) :
    Within p.identity request db db' programId := by
  obtain ⟨user, huser, h⟩ := bind_eq_ok h
  obtain ⟨e, he, h⟩ := bind_eq_ok h
  obtain ⟨row, hrow, h⟩ := bind_eq_ok h
  obtain ⟨rfl, -⟩ := Prod.mk.inj (Except.ok.inj h)
  obtain ⟨hreach, he⟩ := writableEngagement_reaches he
  obtain rfl : e.id = programId := Table.key_of_get? he
  obtain ⟨hget, hprogram⟩ := caseOf_eq_ok hrow
  refine ⟨⟨user, huser, hreach⟩, fun id hid => ?_⟩
  refine (holding_testCases (Table.select_filter fun c hc hother => ?_)).trans
    (holding_putEngagement (e := e.advance) hid)
  have hne : c.id ≠ row.id := fun hk => by
    obtain rfl : c = row := Table.eq_of_key hc (Table.mem_of_get? hget) hk
    exact hid (hprogram.symm.trans (beq_iff_eq.mp hother))
  simpa using hne

end

/-! ## The job routes -/

theorem enqueue_holding {j : ScanJob} {id : String} (hid : j.programId ≠ id)
    (h : enqueue db j = .ok db') : db'.holding id = db.holding id := by
  obtain ⟨-, jobs, hinsert, rfl⟩ := enqueue_eq_ok h
  exact holding_jobs (Table.select_insert hinsert (by simpa using hid))

theorem enqueueStages_holding {e : Engagement} {createdAt : Instant} {previous : Option String}
    {stages : List (JobCreate × Json)} {id : String} (hid : e.id ≠ id)
    (h : enqueueStages e createdAt previous stages db = .ok db') :
    db'.holding id = db.holding id := by
  induction stages generalizing previous db with
  | nil =>
    obtain rfl := Except.ok.inj h
    rfl
  | cons stage stages ih =>
    obtain ⟨db₁, hqueue, h⟩ := bind_eq_ok h
    exact (ih h).trans (enqueue_holding hid hqueue)

theorem createJob_within {programId : String} {c : JobCreate}
    (h : createJob p clocks request programId c db = .ok (db', reply)) :
    Within p.identity request db db' programId := by
  obtain ⟨user, huser, h⟩ := bind_eq_ok h
  obtain ⟨e, he, h⟩ := bind_eq_ok h
  obtain ⟨_, -, h⟩ := bind_eq_ok h
  obtain ⟨_, -, h⟩ := bind_eq_ok h
  obtain ⟨_, -, h⟩ := bind_eq_ok h
  obtain ⟨config, -, h⟩ := bind_eq_ok h
  dsimp only at h
  obtain ⟨_, -, h⟩ := bind_eq_ok h
  obtain ⟨warning, -, h⟩ := bind_eq_ok h
  obtain ⟨db₁, hqueue, h⟩ := bind_eq_ok h
  obtain ⟨rfl, -⟩ := Prod.mk.inj (Except.ok.inj h)
  obtain ⟨hreach, he⟩ := writableEngagement_reaches he
  obtain rfl : e.id = programId := Table.key_of_get? he
  exact ⟨⟨user, huser, hreach⟩, fun id hid => enqueue_holding hid hqueue⟩

theorem createPipeline_within {programId : String} {stages : List JobCreate}
    (h : createPipeline p clocks request programId stages db = .ok (db', reply)) :
    Within p.identity request db db' programId := by
  obtain ⟨user, huser, h⟩ := bind_eq_ok h
  obtain ⟨e, he, h⟩ := bind_eq_ok h
  obtain ⟨_, -, h⟩ := bind_eq_ok h
  obtain ⟨configs, -, h⟩ := bind_eq_ok h
  obtain ⟨db₁, hqueue, h⟩ := bind_eq_ok h
  obtain ⟨rfl, -⟩ := Prod.mk.inj (Except.ok.inj h)
  obtain ⟨hreach, he⟩ := writableEngagement_reaches he
  obtain rfl : e.id = programId := Table.key_of_get? he
  exact ⟨⟨user, huser, hreach⟩, fun id hid => enqueueStages_holding hid hqueue⟩

/-- A listing fails no job of an engagement that its caller cannot reach. -/
theorem pendingJobs_confined (h : pendingJobs p clocks request db = .ok (db', reply)) :
    ∃ user, getCurrentUser p.identity db request = .ok user ∧
      ∀ id, db.reaches user.githubId id = false → db'.holding id = db.holding id := by
  obtain ⟨user, huser, h⟩ := bind_eq_ok h
  dsimp only at h
  obtain ⟨listed, hlisted, h⟩ := bind_eq_ok h
  obtain ⟨rfl, -⟩ := Prod.mk.inj (Except.ok.inj h)
  refine ⟨user, huser, fun id hid => holding_jobs (Table.select_map (failListed_id _ _) fun j hj => ?_)⟩
  refine (failListed_cases _ _ j).imp_right fun ⟨message, hmem, hgive⟩ => ?_
  -- whoever is failed was listed, so the caller can reach its engagement
  obtain ⟨x, hx, hkey⟩ := List.mem_filterMap.mp hmem
  obtain ⟨m, -, hpair⟩ := Option.map_eq_some_iff.mp hkey
  obtain ⟨i, hi, hlisting⟩ := exists_of_mapM_eq_ok (raise_eq_ok hlisted) hx
  obtain ⟨l, -, hl⟩ := bind_eq_ok hlisting
  have hkey : i.id = j.id :=
    (congrArg Prod.fst (Except.ok.inj hl)).trans (congrArg Prod.fst hpair)
  obtain ⟨hi, hpending⟩ := List.mem_filter.mp hi
  obtain rfl : i = j := Table.eq_of_key hi hj hkey
  have hreach : db.reaches user.githubId i.programId = true := (Bool.and_eq_true_iff.mp hpending).2
  have hne : i.programId ≠ id := fun hprogram => by
    rw [hprogram, hid] at hreach
    cases hreach
  rw [hgive]
  exact ⟨by simpa using hne, by simpa [ScanJob.giveUp] using hne⟩

omit [Unicode] in
/-- An owned execution is that of a job whose engagement the caller can reach. -/
theorem owned_reaches {jobId : String} {user : User} {body : ControlRequest} {x : JobExecution}
    (h : owned db jobId user request body = .ok x) : db.executions.get? jobId = some x ∧
      ∃ j, db.jobs.get? jobId = some j ∧ db.reaches user.githubId j.programId = true := by
  obtain ⟨hx, j, hj⟩ := owned_eq_ok h
  exact ⟨hx, j, lockJob_reaches hj⟩

omit [Unicode] in
/-- The execution of a job of another engagement is replaced. -/
theorem holding_putExecution {x : JobExecution} {j : ScanJob} {id : String}
    (hj : db.jobs.get? x.jobId = some j) (hid : j.programId ≠ id) :
    (db.putExecution x).holding id = db.holding id :=
  holding_executions hj hid fun _ hk => Table.get?_put_ne hk

omit [Unicode] in
theorem holding_put {j j' : ScanJob} {k id : String} (hj : db.jobs.get? k = some j)
    (hid : j.programId ≠ id) (hk : j'.id = j.id) (hprogram : j'.programId = j.programId) :
    (db.putJob j').holding id = db.holding id :=
  holding_putJob hj hid (hk.trans (Table.key_of_get? hj)) hprogram

section
variable {jobId : String}

theorem updateJob_within {body : JobStatusUpdate}
    (h : updateJob p clocks request jobId body db = .ok (db', reply)) :
    ∃ j, db.jobs.get? jobId = some j ∧ Within p.identity request db db' j.programId := by
  have hcases := updateJob_eq_ok h
  obtain ⟨user, huser, h⟩ := bind_eq_ok h
  obtain ⟨j, hj, -⟩ := bind_eq_ok h
  obtain ⟨hj, hreach⟩ := lockJob_reaches hj
  refine ⟨j, hj, ⟨user, huser, hreach⟩, fun id hid => ?_⟩
  rcases hcases with rfl | ⟨i, j', hi, -, hpatched, -, rfl⟩ | ⟨x, hx, -, rfl⟩
  · rfl
  · obtain rfl := Option.some.inj (hj.symm.trans hi)
    obtain ⟨status, completedAt, errorMessage, assessment, rfl⟩ := hpatched.row
    exact holding_put hj hid rfl rfl
  · obtain rfl : x.jobId = jobId := Table.key_of_get? hx
    exact holding_putExecution hj hid

theorem claimJob_within {body : Option ClaimControl} {token : String}
    (h : claimJob p clocks request jobId body token db = .ok (db', reply)) :
    ∃ j, db.jobs.get? jobId = some j ∧ Within p.identity request db db' j.programId := by
  obtain ⟨e, e', j, running, c, executions, capability, warning, hclaims, -, -, rfl⟩ :=
    claimJob_eq_ok h
  obtain ⟨user, huser, h⟩ := bind_eq_ok h
  obtain ⟨i, hi, -⟩ := bind_eq_ok h
  obtain ⟨hi, hreach⟩ := lockJob_reaches hi
  obtain rfl := hclaims.jobId
  obtain rfl := Option.some.inj (hi.symm.trans hclaims.admits.job)
  refine ⟨i, hi, ⟨user, huser, hreach⟩, fun id hid => ?_⟩
  have he : e.id = i.programId := Table.key_of_get? hclaims.admits.engagement
  obtain ⟨startedAt, caseSnapshot, rfl⟩ := hclaims.running
  let db₁ := db.putEngagement e'
  have hengagement : db₁.holding id = db.holding id :=
    holding_putEngagement (by rw [hclaims.admits.charged]; exact he ▸ hid)
  let db₂ : Db := { db₁ with executions }
  have hexecutions : db₂.holding id = db₁.holding id := by
    rcases hclaims.executions with rfl | ⟨x, hstarts, hinsert⟩
    · rfl
    · have hi₁ : db₁.jobs.get? i.id = some i := hi
      exact holding_executions hi₁ hid fun k hk =>
        Table.get?_insert_ne hinsert fun hx => hk (hstarts.jobId.symm.trans hx)
  have hi₂ : db₂.jobs.get? i.id = some i := hi
  have hjobs : (db₂.putJob { i with
      status := .running, startedAt := some startedAt, caseSnapshot }).holding id =
      db₂.holding id := holding_put hi₂ hid rfl rfl
  exact hjobs.trans (hexecutions.trans hengagement)

/-- Nothing is changed for a caller who only reads. -/
theorem Within.refl {identity : Identity} {user : User} {programId : String}
    (huser : getCurrentUser identity db request = .ok user)
    (hreach : db.reaches user.githubId programId = true) :
    Within identity request db db programId :=
  ⟨⟨user, huser, hreach⟩, fun _ _ => rfl⟩

theorem executionStatus_within
    (h : executionStatus p clocks request jobId db = .ok (db', reply)) :
    ∃ j, db.jobs.get? jobId = some j ∧ Within p.identity request db db' j.programId := by
  obtain rfl := executionStatus_eq_ok h
  obtain ⟨user, huser, h⟩ := bind_eq_ok h
  obtain ⟨j, hj, -⟩ := bind_eq_ok h
  obtain ⟨hj, hreach⟩ := lockJob_reaches hj
  exact ⟨j, hj, .refl huser hreach⟩

theorem refreshExecution_within {body : ControlRequest}
    (h : refreshExecution p clocks request jobId body db = .ok (db', reply)) :
    ∃ j, db.jobs.get? jobId = some j ∧ Within p.identity request db db' j.programId := by
  obtain ⟨x, j, e, hcontrols, hcases⟩ := refreshExecution_eq_ok h
  obtain ⟨user, huser, h⟩ := bind_eq_ok h
  obtain ⟨x', hx', -⟩ := bind_eq_ok h
  obtain ⟨-, i, hi, hreach⟩ := owned_reaches hx'
  obtain rfl := Option.some.inj (hi.symm.trans hcontrols.job)
  obtain rfl : x.jobId = jobId := Table.key_of_get? hcontrols.execution
  refine ⟨i, hi, ⟨user, huser, hreach⟩, fun id hid => ?_⟩
  rcases hcases with ⟨-, -, -, -, rfl⟩ | ⟨-, rfl⟩
  · exact holding_putExecution hi hid
  · obtain ⟨state, expiresAt, hrow⟩ :=
      (observed_held db x e.stopWorkAt.isSome (clocks.control 0)).row
    rw [hrow]
    exact holding_putExecution hi hid

theorem finishExecution_within {body : ControlRequest} {f : Finish} {reply : Except Refusal Reply}
    (h : finishExecution p clocks request jobId body f db = .ok (db', reply)) :
    ∃ j, db.jobs.get? jobId = some j ∧ Within p.identity request db db' j.programId := by
  obtain ⟨x, j, e, hcontrols, hfinishes⟩ := finishExecution_eq_ok h
  obtain ⟨user, huser, h⟩ := bind_eq_ok h
  obtain ⟨x', hx', -⟩ := bind_eq_ok h
  obtain ⟨-, i, hi, hreach⟩ := owned_reaches hx'
  obtain rfl := Option.some.inj (hi.symm.trans hcontrols.job)
  obtain rfl : x.jobId = jobId := Table.key_of_get? hcontrols.execution
  refine ⟨i, hi, ⟨user, huser, hreach⟩, fun id hid => ?_⟩
  cases hfinishes with
  | again => rfl
  | late => exact holding_putExecution hi hid
  | uncertain => exact holding_putExecution hi hid
  | @ended o now =>
    let db₁ := db.putExecution (x.finish o)
    have hexecutions : db₁.holding id = db.holding id := holding_putExecution hi hid
    have hi₁ : db₁.jobs.get? x.jobId = some i := hi
    have hjobs : (db₁.putJob (i.finish o now o.errorMessage)).holding id = db₁.holding id :=
      holding_put hi₁ hid rfl rfl
    exact hjobs.trans hexecutions

theorem deleteJob_within (h : deleteJob p request jobId db = .ok (db', reply)) :
    ∃ j, db.jobs.get? jobId = some j ∧ Within p.identity request db db' j.programId := by
  obtain ⟨-, rfl⟩ := deleteJob_eq_ok h
  obtain ⟨user, huser, h⟩ := bind_eq_ok h
  obtain ⟨_, -, h⟩ := bind_eq_ok h
  obtain ⟨j, hj, -⟩ := bind_eq_ok h
  obtain ⟨hj, hreach⟩ := lockJob_reaches hj
  refine ⟨j, hj, ⟨user, huser, hreach⟩, fun id hid => holding_dropJobs fun i hi => ?_⟩
  simpa using (ne_of_jobsOf hj hid hi).symm

theorem uploadJobResult_within {upload : GateUpload}
    (h : uploadJobResult p request jobId upload db = .ok (db', reply)) :
    ∃ j, db.jobs.get? jobId = some j ∧ Within p.identity request db db' j.programId := by
  obtain ⟨i, hi, -, hcases⟩ := uploadJobResult_eq_ok h
  obtain ⟨user, huser, h⟩ := bind_eq_ok h
  obtain ⟨j, hj, -⟩ := bind_eq_ok h
  obtain ⟨hj, hreach⟩ := lockJob_reaches hj
  obtain rfl := Option.some.inj (hi.symm.trans hj)
  obtain rfl : i.id = jobId := Table.key_of_get? hi
  refine ⟨i, hi, ⟨user, huser, hreach⟩, fun id hid => ?_⟩
  rcases hcases with rfl | ⟨assessment, receipt, receipts, hreceipt, hinsert, rfl⟩
  · rfl
  · let db₁ : Db := { db with receipts }
    have hreceipts : db₁.holding id = db.holding id :=
      holding_receipts hi hid fun k hk =>
        Table.get?_insert_ne hinsert fun hr => hk (hreceipt.symm.trans hr)
    have hi₁ : db₁.jobs.get? i.id = some i := hi
    have hjobs : (db₁.putJob { i with assessment }).holding id = db₁.holding id :=
      holding_put hi₁ hid rfl rfl
    exact hjobs.trans hreceipts

end

end VardrMap
