import VardrMap.Engagements

/-!
# Scope, authorizations, proposals and test cases

The records that a projection reads besides the engagement. Whoever adds, changes or removes
one raises the authority revision of the engagement in the same transaction; only a test
case under a new identifier leaves it alone.
-/
namespace VardrMap
open Lib

variable [Unicode]

/-! ## Scope -/

/-- The database with a scope row added under a new identifier. -/
def Db.addScopeItem (db : Db) (item : ScopeItem) : Except Refusal Db := do
  mint db item.id
  let scopeItems ← found (db.scopeItems.insert item) .integrity
  return { db.minted item.id with scopeItems }

/-- `add_in_scope_item` and `add_out_scope_item`. -/
def addScopeItem (p : Platform) (request : HttpRequest) (programId id scopeType value : String)
    (kind : Option String) (db : Db) : Commit := do
  let user ← getCurrentUser p.identity db request
  let engagement ← writableEngagement db programId user
  let db ← (db.putEngagement engagement.advance).addScopeItem
    ⟨id, programId, scopeType, value, kind⟩
  return (db, .stored)

/-- `add_in_scope_item`. -/
def addInScopeItem (p : Platform) (request : HttpRequest) (programId id value : String)
    (kind : Option String) (db : Db) : Commit :=
  addScopeItem p request programId id "in" value kind db

/-- `add_out_scope_item`. -/
def addOutScopeItem (p : Platform) (request : HttpRequest) (programId id value : String)
    (kind : Option String) (db : Db) : Commit :=
  addScopeItem p request programId id "out" value kind db

/-- `delete_scope_item`. -/
def deleteScopeItem (p : Platform) (request : HttpRequest)
    (programId scopeType itemId : String) (db : Db) : Commit := do
  let user ← getCurrentUser p.identity db request
  ensure (scopeType == "in" || scopeType == "out") (.http 400 "Invalid scope type")
  let engagement ← writableEngagement db programId user
  let _ ← found ((db.scopeItems.get? itemId).filter fun r =>
    r.programId == programId && r.scopeType == scopeType) (.http 404 "Scope item not found")
  return ({ db.putEngagement engagement.advance with
    scopeItems := db.scopeItems.filter fun r => r.id != itemId }, .stored)

/-- A row that an import has read, with the identifier it will be stored under. -/
structure ImportRow where
  id : String
  scopeType : String
  value : String
  kind : Option String

/-- The rows of an import that are neither in scope yet nor repeated. -/
def newRows (seen : List (String × String)) : List ImportRow → List ImportRow
  | [] => []
  | row :: rows =>
    if seen.contains (row.scopeType, row.value) then newRows seen rows
    else row :: newRows ((row.scopeType, row.value) :: seen) rows

/-- Add the rows of an import one after the other. -/
def addRows (programId : String) : List ImportRow → Db → Except Refusal Db
  | [], db => .ok db
  | row :: rows, db => do
    let db ← db.addScopeItem ⟨row.id, programId, row.scopeType, row.value, row.kind⟩
    addRows programId rows db

/-- `import_scope` of parsed rows: without `commit` it is a preview. -/
def importScope (p : Platform) (request : HttpRequest) (programId : String)
    (rows : List ImportRow) (commit : Bool) (db : Db) : Commit := do
  let user ← getCurrentUser p.identity db request
  let engagement ← writableEngagement db programId user
  let existing := (db.scopeItems.rows.filter fun r => r.programId == programId).map fun r =>
    (r.scopeType, r.value)
  let fresh := newRows existing rows
  if !commit || fresh.isEmpty then return (db, .stored)
  let db ← addRows programId fresh (db.putEngagement engagement.advance)
  return (db, .stored)

/-! ## Authorizations -/

/-- A new authorization record. -/
structure AuthorizationCreate where
  id : String
  permits : String
  authorizedBy : String
  reference : String
  authorizedAt : Option DateTime
  windowStart : Option DateTime
  windowEnd : Option DateTime

/-- The stored row of a new authorization. -/
def AuthorizationCreate.row (c : AuthorizationCreate) (p : Platform) (programId : String) :
    Authorization where
  id := c.id
  programId
  permits := c.permits
  authorizedBy := c.authorizedBy
  authorizedAt := c.authorizedAt.map p.storedDate
  reference := c.reference
  windowStart := c.windowStart.map p.storedDate
  windowEnd := c.windowEnd.map p.storedDate
  status := "active"

/-- The database with an authorization added under a new identifier. -/
def Db.addAuthorization (db : Db) (row : Authorization) : Except Refusal Db := do
  mint db row.id
  let authorizations ← found (db.authorizations.insert row) .integrity
  return { db.minted row.id with authorizations }

/-- `create_authorization`. -/
def createAuthorization (p : Platform) (request : HttpRequest) (programId : String)
    (c : AuthorizationCreate) (db : Db) : Commit := do
  let user ← getCurrentUser p.identity db request
  let engagement ← writableEngagement db programId user
  let db ← (db.putEngagement engagement.advance).addAuthorization (c.row p programId)
  return (db, .stored)

/-- The columns that an update of an authorization sets. -/
structure AuthorizationUpdate where
  permits : Option String
  authorizedBy : Option String
  authorizedAt : Option (Option DateTime)
  reference : Option String
  windowStart : Option (Option DateTime)
  windowEnd : Option (Option DateTime)
  status : Option String

/-- The authorization with an update applied. -/
def Authorization.update (p : Platform) (a : Authorization) (u : AuthorizationUpdate) :
    Authorization :=
  { a with
    permits := assign (· == ·) a.permits u.permits
    authorizedBy := assign (· == ·) a.authorizedBy u.authorizedBy
    authorizedAt := assignDate p a.authorizedAt u.authorizedAt
    reference := assign (· == ·) a.reference u.reference
    windowStart := assignDate p a.windowStart u.windowStart
    windowEnd := assignDate p a.windowEnd u.windowEnd
    status := assign (· == ·) a.status u.status }

/-- A column other than the notes is changed. -/
def Authorization.changedBy (a : Authorization) (u : AuthorizationUpdate) : Bool :=
  differs (· == ·) a.permits u.permits || differs (· == ·) a.authorizedBy u.authorizedBy ||
    differs sameDate a.authorizedAt u.authorizedAt ||
    differs (· == ·) a.reference u.reference ||
    differs sameDate a.windowStart u.windowStart || differs sameDate a.windowEnd u.windowEnd ||
    differs (· == ·) a.status u.status

/-- `update_authorization`. -/
def updateAuthorization (p : Platform) (request : HttpRequest)
    (programId authorizationId : String) (u : AuthorizationUpdate) (db : Db) : Commit := do
  let user ← getCurrentUser p.identity db request
  let engagement ← writableEngagement db programId user
  let auth ← found ((db.authorizations.get? authorizationId).filter fun a =>
    a.programId == programId) (.http 404 "Authorization not found")
  return ({ db.putEngagement (engagement.bump (auth.changedBy u)) with
    authorizations := db.authorizations.put (auth.update p u) }, .stored)

/-! ## Proposals -/

/-- `create_proposal`: inert until it is approved. -/
def createProposal (p : Platform) (request : HttpRequest) (programId id : String)
    (change : ProposedChange) (db : Db) : Commit := do
  let user ← getCurrentUser p.identity db request
  let engagement ← writableEngagement db programId user
  ensure ((db.proposals.count fun c => c.programId == engagement.id && c.status == .pending) < 100)
    (.http 409 "100 proposals already await review; resolve some first")
  mint db id
  let proposals ← found (db.proposals.insert {
    id, programId := engagement.id, change, status := .pending, appliedResourceId := ""
    resolvedAt := none, resolvedBy := "" }) .integrity
  return ({ db.minted id with proposals }, .stored)

/-- `_apply`: the revision is raised, whatever the kind. A change that creates a row gives its
identifier. -/
def applyProposal (p : Platform) (db : Db) (engagement : Engagement) (newId : String) :
    ProposedChange → Except Refusal (Db × String)
  | .scope scopeType value kind => do
    let db ← (db.putEngagement engagement.advance).addScopeItem
      ⟨newId, engagement.id, scopeType, value, kind⟩
    return (db, newId)
  | .authorization permits authorizedBy reference authorizedAt windowStart windowEnd => do
    let db ← (db.putEngagement engagement.advance).addAuthorization
      (AuthorizationCreate.row
        ⟨newId, permits, authorizedBy, reference, authorizedAt, windowStart, windowEnd⟩ p
        engagement.id)
    return (db, newId)
  | .rateCeiling rate =>
    .ok (db.putEngagement { engagement.advance with maxRequestRate := some rate }, "")

/-- The text of a status. -/
def ProposalStatus.text : ProposalStatus → String
  | pending => "pending"
  | approved => "approved"
  | rejected => "rejected"

omit [Unicode] in
/-- `_proposal_or_404`. -/
def proposalOr404 (programId proposalId : String) (user : User) (db : Db) :
    Except Refusal (Engagement × AgentProposal) := do
  let engagement ← getEngagement db programId user
  let proposal ← found ((db.proposals.get? proposalId).filter fun c =>
    c.programId == engagement.id) (.http 404 "Proposal not found")
  return (engagement, proposal)

/-- A proposal that a full-scope caller may resolve. -/
def resolvableProposal (p : Platform) (request : HttpRequest) (programId proposalId : String)
    (db : Db) : Except Refusal (User × Engagement × AgentProposal) := do
  let user ← getCurrentUser p.identity db request
  requireFullScope user
  let (engagement, proposal) ← proposalOr404 programId proposalId user db
  requireWrite db engagement user
  return (user, engagement, proposal)

omit [Unicode] in
/-- A proposal is resolved only while it is pending. -/
def AgentProposal.requirePending (proposal : AgentProposal) : Except Refusal Unit :=
  ensure (proposal.status == .pending)
    (.http 409 s!"proposal is already {proposal.status.text}")

omit [Unicode] in
/-- The proposal with its resolution. -/
def AgentProposal.resolve (proposal : AgentProposal) (status : ProposalStatus) (applied : String)
    (now : Instant) (user : User) : AgentProposal :=
  { proposal with
    status
    appliedResourceId := applied
    resolvedAt := some now
    resolvedBy := user.githubId }

/-- The database with a proposal replaced. -/
def Db.putProposal (db : Db) (c : AgentProposal) : Db :=
  { db with proposals := db.proposals.put c }

/-- `approve_proposal`. -/
def approveProposal (p : Platform) (clocks : Clocks) (request : HttpRequest)
    (programId proposalId newId : String) (db : Db) : Commit := do
  let (user, engagement, _) ← resolvableProposal p request programId proposalId db
  let engagement ← found (db.engagements.get? engagement.id) .noRow
  let proposal ← found (db.proposals.get? proposalId) .noRow
  proposal.requirePending
  let (db, applied) ← applyProposal p db engagement newId proposal.change
  let approved := proposal.resolve .approved applied (clocks.wall 0).instant user
  return (db.putProposal approved, .stored)

/-- `reject_proposal`: what was never applied stays without a created row. -/
def rejectProposal (p : Platform) (clocks : Clocks) (request : HttpRequest)
    (programId proposalId : String) (db : Db) : Commit := do
  let (user, _, proposal) ← resolvableProposal p request programId proposalId db
  proposal.requirePending
  let rejected := proposal.resolve .rejected proposal.appliedResourceId (clocks.wall 0).instant user
  return (db.putProposal rejected, .stored)

/-! ### What a resolution leaves -/

theorem addScopeItem_eq_ok {db db' : Db} {item : ScopeItem} (h : db.addScopeItem item = .ok db') :
    ∃ scopeItems, db.ids.contains item.id = false ∧ db.scopeItems.insert item = some scopeItems ∧
      db' = { db.minted item.id with scopeItems } := by
  obtain ⟨_, hmint, h⟩ := bind_eq_ok h
  obtain ⟨scopeItems, hinsert, h⟩ := bind_eq_ok h
  have hmint := ensure_eq_ok hmint
  simp only [Bool.and_eq_true, Bool.not_eq_true'] at hmint
  exact ⟨scopeItems, hmint.1, found_eq_ok hinsert, (Except.ok.inj h).symm⟩

theorem addAuthorization_eq_ok {db db' : Db} {row : Authorization}
    (h : db.addAuthorization row = .ok db') :
    ∃ authorizations, db.ids.contains row.id = false ∧
      db.authorizations.insert row = some authorizations ∧
      db' = { db.minted row.id with authorizations } := by
  obtain ⟨_, hmint, h⟩ := bind_eq_ok h
  obtain ⟨authorizations, hinsert, h⟩ := bind_eq_ok h
  have hmint := ensure_eq_ok hmint
  simp only [Bool.and_eq_true, Bool.not_eq_true'] at hmint
  exact ⟨authorizations, hmint.1, found_eq_ok hinsert, (Except.ok.inj h).symm⟩

theorem applyProposal_proposals {p : Platform} {db db' : Db} {e : Engagement} {newId applied : String}
    {change : ProposedChange} (h : applyProposal p db e newId change = .ok (db', applied)) :
    db'.proposals = db.proposals := by
  cases change with
  | scope =>
    obtain ⟨db₁, hadd, h⟩ := bind_eq_ok h
    obtain ⟨scopeItems, -, -, rfl⟩ := addScopeItem_eq_ok hadd
    obtain ⟨rfl, -⟩ := Prod.mk.inj (Except.ok.inj h)
    rfl
  | authorization =>
    obtain ⟨db₁, hadd, h⟩ := bind_eq_ok h
    obtain ⟨authorizations, -, -, rfl⟩ := addAuthorization_eq_ok hadd
    obtain ⟨rfl, -⟩ := Prod.mk.inj (Except.ok.inj h)
    rfl
  | rateCeiling =>
    obtain ⟨rfl, -⟩ := Prod.mk.inj (Except.ok.inj h)
    rfl

omit [Unicode] in
/-- What is stored under the identifier of a resolved proposal. -/
theorem get?_putProposal {db : Db} {id applied : String} {c : AgentProposal}
    {status : ProposalStatus} {now : Instant} {user : User} (h : db.proposals.get? id = some c) :
    (db.putProposal (c.resolve status applied now user)).proposals.get? id =
      some (c.resolve status applied now user) := by
  obtain rfl : c.id = id := Table.key_of_get? h
  exact Table.get?_put_self (r := c.resolve status applied now user) h

theorem resolvableProposal_eq_ok {p : Platform} {request : HttpRequest}
    {programId proposalId : String} {db : Db} {user : User} {e : Engagement} {c : AgentProposal}
    (h : resolvableProposal p request programId proposalId db = .ok (user, e, c)) :
    db.engagements.get? programId = some e ∧ db.proposals.get? proposalId = some c := by
  obtain ⟨user', -, h⟩ := bind_eq_ok h
  obtain ⟨_, -, h⟩ := bind_eq_ok h
  obtain ⟨⟨e', c'⟩, hread, h⟩ := bind_eq_ok h
  obtain ⟨_, -, h⟩ := bind_eq_ok h
  obtain ⟨rfl, rfl, rfl⟩ : user' = user ∧ e' = e ∧ c' = c := by simpa [pure, Except.pure] using h
  obtain ⟨e, he, hread⟩ := bind_eq_ok hread
  obtain ⟨c, hc, hread⟩ := bind_eq_ok hread
  obtain ⟨rfl, rfl⟩ := Prod.mk.inj (Except.ok.inj hread)
  exact ⟨getEngagement_eq_ok he, (Option.filter_eq_some_iff.mp (found_eq_ok hc)).1⟩

omit [Unicode] in
theorem requirePending_eq_ok {c : AgentProposal} {u : Unit} (h : c.requirePending = .ok u) :
    c.status = .pending := by
  simpa using ensure_eq_ok h

/-- An approval applies the change of the pending proposal, once, and marks it. -/
theorem approveProposal_eq_ok {p : Platform} {clocks : Clocks} {request : HttpRequest}
    {programId proposalId newId : String} {db db' : Db} {reply : Reply}
    (h : approveProposal p clocks request programId proposalId newId db = .ok (db', reply)) :
    ∃ user e c db₁ applied, db.engagements.get? programId = some e ∧
      db.proposals.get? proposalId = some c ∧ c.status = .pending ∧
      applyProposal p db e newId c.change = .ok (db₁, applied) ∧
      db' = db₁.putProposal (c.resolve .approved applied (clocks.wall 0).instant user) := by
  obtain ⟨⟨user, e₀, c₀⟩, hread, h⟩ := bind_eq_ok h
  obtain ⟨he₀, -⟩ := resolvableProposal_eq_ok hread
  obtain ⟨e, he, h⟩ := bind_eq_ok h
  obtain ⟨c, hc, h⟩ := bind_eq_ok h
  obtain ⟨_, hpending, h⟩ := bind_eq_ok h
  obtain ⟨⟨db₁, applied⟩, hdb₁, h⟩ := bind_eq_ok h
  obtain ⟨rfl, -⟩ := Prod.mk.inj (Except.ok.inj h)
  have hid : e₀.id = programId := Table.key_of_get? he₀
  exact ⟨user, e, c, db₁, applied, hid ▸ found_eq_ok he, found_eq_ok hc,
    requirePending_eq_ok hpending, hdb₁, rfl⟩

/-- A rejection only marks the pending proposal. -/
theorem rejectProposal_eq_ok {p : Platform} {clocks : Clocks} {request : HttpRequest}
    {programId proposalId : String} {db db' : Db} {reply : Reply}
    (h : rejectProposal p clocks request programId proposalId db = .ok (db', reply)) :
    ∃ user c, db.proposals.get? proposalId = some c ∧ c.status = .pending ∧
      db' = db.putProposal
        (c.resolve .rejected c.appliedResourceId (clocks.wall 0).instant user) := by
  obtain ⟨⟨user, e, c⟩, hread, h⟩ := bind_eq_ok h
  obtain ⟨_, hpending, h⟩ := bind_eq_ok h
  obtain ⟨rfl, -⟩ := Prod.mk.inj (Except.ok.inj h)
  exact ⟨user, c, (resolvableProposal_eq_ok hread).2, requirePending_eq_ok hpending, rfl⟩

/-! ## Test cases -/

/-- A new test case. -/
structure TestCaseCreate where
  id : String
  name : String
  spec : Json

/-- `str(spec.get("id") or "")[:200]`. -/
def specId (spec : Json) : Except Exn String := do
  return String.ofList (((← spec.get "id").toStrOr "").toList.take 200)

/-- Add a validated case under a new identifier. -/
def Db.addTestCase (p : Platform) (db : Db) (programId : String) (createdAt : Instant)
    (c : TestCaseCreate) : Except Refusal Db := do
  let spec ← p.validateSpec c.spec
  let testCaseId ← raise (specId spec)
  mint db c.id
  let testCases ← found (db.testCases.insert ⟨c.id, programId, c.name, testCaseId, spec, createdAt⟩)
    .integrity
  return { db.minted c.id with testCases }

/-- `create_test_case`. -/
def createTestCase (p : Platform) (clocks : Clocks) (request : HttpRequest) (programId : String)
    (c : TestCaseCreate) (db : Db) : Commit := do
  let user ← getCurrentUser p.identity db request
  let _ ← writableEngagement db programId user
  return (← db.addTestCase p programId (clocks.wall 0).instant c, .stored)

/-- Add reviewed cases one after the other. -/
def addTestCases (p : Platform) (programId : String) (createdAt : Instant) :
    List TestCaseCreate → Db → Except Refusal Db
  | [], db => .ok db
  | c :: cs, db => do
    let db ← db.addTestCase p programId createdAt c
    addTestCases p programId createdAt cs db

/-- `save_reviewed_cases`; its further checks on each case are the validator's. -/
def saveReviewedCases (p : Platform) (clocks : Clocks) (request : HttpRequest)
    (programId : String) (cases : List TestCaseCreate) (db : Db) : Commit := do
  let user ← getCurrentUser p.identity db request
  let _ ← writableEngagement db programId user
  return (← addTestCases p programId (clocks.wall 0).instant cases db, .stored)

/-- The case of an engagement. -/
def caseOf (db : Db) (programId testCaseId : String) : Except Refusal AuthorizationTestCase :=
  found ((db.testCases.get? testCaseId).filter fun c => c.programId == programId)
    (.http 404 "Test case not found")

/-- The case with another specification, which is written only when it differs. -/
def updatedCase (p : Platform) (row : AuthorizationTestCase) (name : Option String) :
    Option Json → Except Refusal AuthorizationTestCase
  | none => .ok { row with name := name.getD row.name }
  | some document => do
    let spec ← p.validateSpec document
    let testCaseId ← raise (specId spec)
    return { row with
      name := name.getD row.name
      testCaseId
      spec := if Json.pyEq row.spec spec then row.spec else spec }

/-- The specification of an update differs from the stored one. -/
def specDiffers (p : Platform) (row : AuthorizationTestCase) : Option Json → Except Refusal Bool
  | none => .ok false
  | some document => do return !Json.pyEq row.spec (← p.validateSpec document)

/-- `update_test_case`. -/
def updateTestCase (p : Platform) (request : HttpRequest) (programId testCaseId : String)
    (name : Option String) (spec : Option Json) (db : Db) : Commit := do
  let user ← getCurrentUser p.identity db request
  let engagement ← writableEngagement db programId user
  let row ← caseOf db programId testCaseId
  let changed ← specDiffers p row spec
  let updated ← updatedCase p row name spec
  return ({ db.putEngagement (engagement.bump changed) with
    testCases := db.testCases.put updated }, .stored)

/-- `delete_test_case`. -/
def deleteTestCase (p : Platform) (request : HttpRequest) (programId testCaseId : String)
    (db : Db) : Commit := do
  let user ← getCurrentUser p.identity db request
  let engagement ← writableEngagement db programId user
  let row ← caseOf db programId testCaseId
  return ({ db.putEngagement engagement.advance with
    testCases := db.testCases.filter fun c => c.id != row.id }, .stored)

end VardrMap
