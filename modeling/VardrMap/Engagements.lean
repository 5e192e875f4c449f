import VardrMap.Jobs

/-!
# Engagements

An engagement carries the facts its jobs run under: type, status and dates, the limits of
the three ledgers, and the stop-work switch. Each write takes the lock of the engagement and
raises its authority revision when it changes one of these facts.
-/
namespace VardrMap
open Lib

variable [Unicode]

/-- `setattr` of a column, which writes nothing when the value equals the stored one. -/
def assign {α : Type} (same : α → α → Bool) (stored : α) : Option α → α
  | none => stored
  | some value => if same stored value then stored else value

/-- The assigned value differs from the stored one. -/
def differs {α : Type} (same : α → α → Bool) (stored : α) (value : Option α) : Bool :=
  value.any fun v => !same stored v

/-- Equality of nullable dates as values. -/
def sameDate : Option DateTime → Option DateTime → Bool
  | none, none => true
  | some a, some b => a.pyEq b
  | _, _ => false

/-- `setattr` of a date column. -/
def assignDate (p : Platform) (stored : Option DateTime) (value : Option (Option DateTime)) :
    Option DateTime :=
  if differs sameDate stored value then (value.getD none).map p.storedDate else stored

/-- An engagement whose revision is raised when something changed. -/
def Engagement.bump (e : Engagement) (changed : Bool) : Engagement :=
  if changed then { e with managedAuthorityRevision := e.managedAuthorityRevision + 1 } else e

/-- `managed_authority.advance`. -/
def Engagement.advance (e : Engagement) : Engagement := e.bump true

/-! ## The engagement itself -/

/-- A new engagement, in the caller's own organization. -/
structure EngagementCreate where
  id : String
  orgId : String
  engagementType : String
  engagementStatus : String
  startsAt : Option DateTime
  endsAt : Option DateTime
  maxRequestRate : Option ℤ

/-- `create_engagement`. -/
def createEngagement (p : Platform) (request : HttpRequest) (c : EngagementCreate) (db : Db) :
    Commit := do
  let user ← getCurrentUser p.identity db request
  mint db c.id
  let engagements ← found (db.engagements.insert {
    id := c.id
    ownerGithubId := user.githubId
    orgId := some c.orgId
    engagementType := some c.engagementType
    engagementStatus := some c.engagementStatus
    startsAt := c.startsAt.map p.storedDate
    endsAt := c.endsAt.map p.storedDate
    stopWorkAt := none
    maxRequestRate := c.maxRequestRate
    concurrencyLimit := none
    targetLimit := none
    targetsSpent := 0
    durationLimit := none
    durationAllocated := 0
    managedAuthorityRevision := 0 }) .integrity
  let own : OrganizationMember := ⟨c.orgId, user.githubId, "owner"⟩
  let orgMembers := if (orgRole db c.orgId user.githubId).isSome then db.orgMembers
    else db.orgMembers ++ [own]
  return ({ db.minted c.id with engagements, orgMembers }, .stored)

/-- The columns that an update sets. -/
structure EngagementUpdate where
  engagementType : Option (Option String)
  engagementStatus : Option (Option String)
  startsAt : Option (Option DateTime)
  endsAt : Option (Option DateTime)
  maxRequestRate : Option (Option ℤ)

/-- The engagement with an update applied. -/
def Engagement.update (p : Platform) (e : Engagement) (u : EngagementUpdate) : Engagement :=
  { e with
    engagementType := assign (· == ·) e.engagementType u.engagementType
    engagementStatus := assign (· == ·) e.engagementStatus u.engagementStatus
    startsAt := assignDate p e.startsAt u.startsAt
    endsAt := assignDate p e.endsAt u.endsAt
    maxRequestRate := assign (· == ·) e.maxRequestRate u.maxRequestRate }.bump
  (differs (· == ·) e.engagementType u.engagementType ||
    differs (· == ·) e.engagementStatus u.engagementStatus ||
    differs sameDate e.startsAt u.startsAt || differs sameDate e.endsAt u.endsAt ||
    differs (· == ·) e.maxRequestRate u.maxRequestRate)

/-- The engagement, for a caller who owns it. -/
def ownEngagement (db : Db) (programId : String) (user : User) : Except Refusal Engagement := do
  let engagement ← getEngagement db programId user
  requireOwner engagement user
  return engagement

/-- The database with an engagement replaced. -/
def Db.putEngagement (db : Db) (e : Engagement) : Db :=
  { db with engagements := db.engagements.put e }

/-- `update_engagement`. -/
def updateEngagement (p : Platform) (request : HttpRequest) (programId : String)
    (u : EngagementUpdate) (db : Db) : Commit := do
  let user ← getCurrentUser p.identity db request
  let engagement ← ownEngagement db programId user
  return (db.putEngagement (engagement.update p u), .stored)

/-- The rows of an engagement go with it. -/
def Db.dropEngagement (db : Db) (id : String) : Db :=
  { db.dropJobs (fun j => j.programId != id) with
    engagements := db.engagements.filter fun e => e.id != id
    members := db.members.filter fun m => m.programId != id
    authorizations := db.authorizations.filter fun a => a.programId != id
    scopeItems := db.scopeItems.filter fun r => r.programId != id
    testCases := db.testCases.filter fun c => c.programId != id
    proposals := db.proposals.filter fun c => c.programId != id }

/-- `delete_engagement`: accounting that was charged is never deleted. -/
def deleteEngagement (p : Platform) (request : HttpRequest) (programId : String) (db : Db) :
    Commit := do
  let user ← getCurrentUser p.identity db request
  let engagement ← ownEngagement db programId user
  if engagement.concurrencyLimit.isSome || db.reserved programId != 0 then
    requireIdle db programId
  ensure (engagement.targetsSpent == 0) (.http 409 "spent target accounting cannot be deleted")
  ensure (engagement.durationAllocated == 0)
    (.http 409 "allocated duration accounting cannot be deleted")
  return (db.dropEngagement programId, .stored)

/-! ## Limits -/

/-- An engagement that its owner may give new limits: no work is running or unresolved. -/
def idleEngagement (p : Platform) (request : HttpRequest) (programId : String) (db : Db) :
    Except Refusal Engagement := do
  let user ← getCurrentUser p.identity db request
  requireFullScope user
  let engagement ← ownEngagement db programId user
  requireIdle db programId
  return engagement

/-- A limit that does not undercut what has been used. -/
def covers (limit : Option ℕ) (used : ℕ) : Bool :=
  match limit with
  | none => used == 0
  | some n => used ≤ n

/-- `configure_duration`. -/
def configureDuration (p : Platform) (request : HttpRequest) (programId : String)
    (limit : Option ℕ) (db : Db) : Commit := do
  let engagement ← idleEngagement p request programId db
  ensure (covers limit engagement.durationAllocated)
    (.http 409 "allocated duration cannot be reset or disabled")
  return (db.putEngagement ({ engagement with durationLimit := limit }.bump
    (engagement.durationLimit != limit)), .stored)

/-- `configure_targets`. -/
def configureTargets (p : Platform) (request : HttpRequest) (programId : String)
    (limit : Option ℕ) (db : Db) : Commit := do
  let engagement ← idleEngagement p request programId db
  ensure (covers limit engagement.targetsSpent)
    (.http 409 "spent target allowance cannot be reset or disabled")
  return (db.putEngagement ({ engagement with targetLimit := limit }.bump
    (engagement.targetLimit != limit)), .stored)

/-- `configure_concurrency`. -/
def configureConcurrency (p : Platform) (request : HttpRequest) (programId : String)
    (limit : Option ℕ) (db : Db) : Commit := do
  let engagement ← idleEngagement p request programId db
  return (db.putEngagement ({ engagement with concurrencyLimit := limit }.bump
    (engagement.concurrencyLimit != limit)), .stored)

/-! ## Stop-work -/

/-- An execution whose cancellation is requested. -/
def JobExecution.requestCancel (x : JobExecution) : JobExecution :=
  if x.state == .active then { x with state := .cancelRequested } else x

/-- An execution as the stop of an engagement leaves it. -/
def Db.halt (db : Db) (programId : String) (x : JobExecution) : JobExecution :=
  if (db.jobs.get? x.jobId).any fun j => j.programId == programId then x.requestCancel else x

omit [Unicode] in
theorem halt_jobId (db : Db) (programId : String) (x : JobExecution) :
    (db.halt programId x).jobId = x.jobId := by
  unfold Db.halt JobExecution.requestCancel
  split <;> [split; skip] <;> rfl

/-- `engage_stop_work`: the brake is on, and every active execution is asked to stop. -/
def engageStopWork (p : Platform) (clocks : Clocks) (request : HttpRequest) (programId : String)
    (db : Db) : Commit := do
  let user ← getCurrentUser p.identity db request
  let engagement ← writableEngagement db programId user
  let stopped := if engagement.stopWorkAt.isNone then
      { engagement with stopWorkAt := some (clocks.wall 0).instant }.advance
    else engagement
  return ({ db with
    engagements := db.engagements.put stopped
    executions := db.executions.map (db.halt programId) (halt_jobId db programId) }, .stored)

/-- `release_stop_work`. -/
def releaseStopWork (p : Platform) (request : HttpRequest) (programId : String) (db : Db) :
    Commit := do
  let user ← getCurrentUser p.identity db request
  let engagement ← ownEngagement db programId user
  return (db.putEngagement ({ engagement with stopWorkAt := none }.bump
    engagement.stopWorkAt.isSome), .stored)

end VardrMap
