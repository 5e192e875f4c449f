import VardrMap.Models

/-!
# Callers and their access

Who calls is resolved from the request: an API key by its digest, a browser session and a
signed token by the runtime. What a caller may do on an engagement follows from ownership,
organization membership and invitation, of which the highest role wins.
-/
namespace VardrMap
open Lib

/-- The parts of a request that identify its caller. -/
structure HttpRequest where
  authorization : Option String
  sessionCookie : Option String

structure User where
  githubId : String
  scope : String
  authMethod : Option String
  deriving DecidableEq

/-- What identifies callers besides the stored API keys. -/
structure Identity where
  configured : Bool
  resolveSession : HttpRequest → Except Refusal User
  resolveJwt : String → Except Refusal User

def bearerPrefix : Text := "Bearer ".toList

def apiKeyPrefix : Text := "vmap_".toList

/-- `request.headers.get("authorization", "")`. -/
def HttpRequest.header (request : HttpRequest) : Text := (request.authorization.getD "").toList

/-- The request carries an API key. -/
def HttpRequest.hasApiKey (request : HttpRequest) : Bool :=
  (bearerPrefix ++ apiKeyPrefix).isPrefixOf request.header

/-- `_resolve_api_key`. -/
def resolveApiKey (db : Db) (token : Text) : Except Refusal User :=
  match db.apiKeys.rows.find? fun k => k.keyHash == Sha256.ofText token with
  | some key => .ok ⟨key.githubId, if key.scope.isEmpty then "full" else key.scope, none⟩
  | none => .error (.http 401 "Unauthorized")

variable [Unicode]

/-- `get_current_user`. -/
def getCurrentUser (identity : Identity) (db : Db) (request : HttpRequest) :
    Except Refusal User :=
  if !identity.configured then .error (.http 500 "Server auth not configured")
  else if request.header.isEmpty && request.sessionCookie.isSome then
    identity.resolveSession request
  else if !bearerPrefix.isPrefixOf request.header then .error (.http 401 "Unauthorized")
  else
    let token := Text.strip (request.header.drop bearerPrefix.length)
    if apiKeyPrefix.isPrefixOf token then resolveApiKey db token
    else identity.resolveJwt (String.ofList token)

/-! ## Roles -/

/-- `ROLE_RANK`, 0 for an unknown role. -/
def roleRank (role : String) : ℕ :=
  if role == "owner" then 3 else if role == "admin" then 2 else if role == "member" then 1 else 0

/-- `org_role`: the first membership row decides. -/
def orgRole (db : Db) (orgId : Option String) (githubId : String) : Option String :=
  match orgId with
  | none => none
  | some org =>
    if org.isEmpty then none
    else (db.orgMembers.find? fun m => m.orgId == org && m.githubId == githubId).map
      OrganizationMember.role

/-- The role of an invitation. -/
def memberRole (db : Db) (engagementId githubId : String) : Option String :=
  (db.members.find? fun m => m.programId == engagementId && m.memberGithubId == githubId).map
    fun m => if m.role.isEmpty then "member" else m.role

/-- The higher of two roles, the first when they rank the same. -/
def higherRole (a b : Option String) : Option String :=
  match a.filter fun r => !r.isEmpty, b with
  | some r, some s => if roleRank r < roleRank s then some s else some r
  | some r, none => some r
  | none, b => b

/-- `engagement_access`. -/
def engagementAccess (db : Db) (engagement : Engagement) (githubId : String) : Option String :=
  if engagement.ownerGithubId == githubId then some "owner"
  else higherRole (orgRole db engagement.orgId githubId) (memberRole db engagement.id githubId)

/-- An engagement that `accessible_engagement_ids` lists. -/
def accessible (db : Db) (githubId : String) (engagement : Engagement) : Bool :=
  engagement.ownerGithubId == githubId ||
    engagement.orgId.any (fun o => db.orgMembers.any fun m =>
      m.githubId == githubId && m.orgId == o) ||
    db.members.any fun m => m.memberGithubId == githubId && m.programId == engagement.id

/-- `get_engagement_or_404`. -/
def getEngagement (db : Db) (programId : String) (user : User) : Except Refusal Engagement :=
  match db.engagements.get? programId with
  | some e =>
    if (engagementAccess db e user.githubId).isSome then .ok e
    else .error (.http 404 "Engagement not found")
  | none => .error (.http 404 "Engagement not found")

/-- `require_engagement_owner`. -/
def requireOwner (engagement : Engagement) (user : User) : Except Refusal Unit :=
  ensure (engagement.ownerGithubId == user.githubId)
    (.http 403 "This action requires engagement ownership")

/-- `require_member_write`. -/
def requireWrite (db : Db) (engagement : Engagement) (user : User) : Except Refusal Unit :=
  ensure (engagementAccess db engagement user.githubId != some "viewer")
    (.http 403 "Viewers cannot make changes to this engagement")

/-- `require_full_scope`. -/
def requireFullScope (user : User) : Except Refusal Unit :=
  ensure (user.scope != "runner")
    (.http 403 "This endpoint requires a full-access API key (scope=full)")

/-- An engagement the caller may write to. -/
def writableEngagement (db : Db) (programId : String) (user : User) :
    Except Refusal Engagement := do
  let engagement ← getEngagement db programId user
  requireWrite db engagement user
  return engagement

omit [Unicode] in
theorem getEngagement_eq_ok {db : Db} {programId : String} {user : User} {e : Engagement}
    (h : getEngagement db programId user = .ok e) : db.engagements.get? programId = some e := by
  unfold getEngagement at h
  split at h
  · rename_i e' he
    split at h
    · rw [he, Except.ok.inj h]
    · simp at h
  · simp at h

omit [Unicode] in
theorem writableEngagement_eq_ok {db : Db} {programId : String} {user : User} {e : Engagement}
    (h : writableEngagement db programId user = .ok e) :
    db.engagements.get? programId = some e := by
  unfold writableEngagement at h
  obtain ⟨e', he, h⟩ := bind_eq_ok h
  obtain ⟨-, -, h⟩ := bind_eq_ok h
  rw [← Except.ok.inj h]
  exact getEngagement_eq_ok he

/-! ## New identifiers -/

/-- `new_uuid`: an identifier without white space that was never handed out before. -/
def mint (db : Db) (id : String) : Except Refusal Unit :=
  ensure (!db.ids.contains id && Text.strip id.toList == id.toList) .integrity

/-- The identifier is handed out. -/
def Db.minted (db : Db) (id : String) : Db := { db with ids := id :: db.ids }

end VardrMap
