import VardrMap.Tenancy.Owners

/-!
# The administration of access

Owners invite members and remove them, callers make API keys and revoke them, and everybody has
a personal organization from the first use on. These requests write the tables that the other
requests read their callers from, so a run of both is a run of the others with provisions in
between: whatever holds of every reachable database holds here.
-/
namespace VardrMap
open Lib

/-! ## Members -/

/-- The role of a new member. -/
inductive MemberRole where
  | member
  | viewer
  deriving DecidableEq

def MemberRole.text : MemberRole → String
  | member => "member"
  | viewer => "viewer"

/-- `_MAX_MEMBERS`. -/
def maxMembers : ℕ := 20

/-- The keys that a caller may have: `_MAX_KEYS_PER_USER`. -/
def maxKeys : ℕ := 10

/-- The scope of a new key. -/
inductive KeyScope where
  | full
  | runner

def KeyScope.text : KeyScope → String
  | full => "full"
  | runner => "runner"

/-- What an accepted request of the administration did, and who asked for it. -/
inductive AccessEvent where
  | invited (actor programId githubId : String) (role : MemberRole)
  | removed (actor programId githubId : String)
  | issued (key : ApiKey)
  | revoked (key : ApiKey)

/-- Whether a row is the membership of a user on an engagement. -/
def EngagementMember.of (programId githubId : String) (m : EngagementMember) : Bool :=
  m.programId == programId && m.memberGithubId == githubId

section
variable [Unicode]

/-- `add_member`. -/
def addMember (p : Platform) (request : HttpRequest) (programId githubId : String)
    (role : MemberRole) (db : Db) : Except Refusal (Db × AccessEvent) := do
  let user ← getCurrentUser p.identity db request
  requireFullScope user
  let engagement ← getEngagement db programId user
  requireOwner engagement user
  ensure (githubId != user.githubId) (.http 400 "Cannot add the engagement owner as a member")
  ensure (!db.members.any (EngagementMember.of programId githubId))
    (.http 409 "User is already a member")
  ensure (db.members.countP (fun m => m.programId == programId) < maxMembers)
    (.http 400 s!"Maximum {maxMembers} members per engagement")
  return ({ db with members := db.members ++ [⟨programId, githubId, role.text⟩] },
    .invited user.githubId programId githubId role)

/-- `remove_member`. -/
def removeMember (p : Platform) (request : HttpRequest) (programId githubId : String) (db : Db) :
    Except Refusal (Db × AccessEvent) := do
  let user ← getCurrentUser p.identity db request
  requireFullScope user
  let engagement ← getEngagement db programId user
  requireOwner engagement user
  ensure (db.members.any (EngagementMember.of programId githubId)) (.http 404 "Member not found")
  return ({ db with members := db.members.filter fun m => !m.of programId githubId },
    .removed user.githubId programId githubId)

/-! ## Keys -/

/-- `create_api_key`, with the random part of its token. -/
def createApiKey (p : Platform) (request : HttpRequest) (id : String) (random : Text)
    (scope : KeyScope) (db : Db) : Except Refusal (Db × AccessEvent) := do
  let user ← getCurrentUser p.identity db request
  requireFullScope user
  ensure (db.apiKeys.count (fun k => k.githubId == user.githubId) < maxKeys)
    (.http 400 s!"Maximum {maxKeys} API keys allowed")
  let key : ApiKey :=
    ⟨id, user.githubId, Sha256.ofText (apiKeyPrefix ++ random), scope.text⟩
  -- the digest of a key is unique
  ensure (!db.apiKeys.rows.any fun k => k.keyHash == key.keyHash) .integrity
  let apiKeys ← found (db.apiKeys.insert key) .integrity
  return ({ db with apiKeys }, .issued key)

/-- `revoke_api_key`. -/
def revokeApiKey (p : Platform) (request : HttpRequest) (id : String) (db : Db) :
    Except Refusal (Db × AccessEvent) := do
  let user ← getCurrentUser p.identity db request
  requireFullScope user
  let key ← found ((db.apiKeys.get? id).filter fun k => k.githubId == user.githubId)
    (.http 404 "API key not found")
  return ({ db with apiKeys := db.apiKeys.filter fun k => k.id != key.id }, .revoked key)

end

/-! ## The server with its administration -/

/-- The database, and the personal organization of each user. -/
structure Realm where
  db : Db
  orgs : List (String × String)

def Realm.initial : Realm := ⟨.empty, []⟩

/-- `personal_org`: the organization of a user, made on first use. -/
def personalOrg (githubId newId : String) (r : Realm) : Except Refusal (Realm × String) :=
  match r.orgs.lookup githubId with
  | some org => .ok (r, org)
  | none => do
    ensure (!r.orgs.any fun o => o.2 == newId) .integrity
    return ({
      db := { r.db with orgMembers := r.db.orgMembers ++ [⟨newId, githubId, "owner"⟩] }
      orgs := (githubId, newId) :: r.orgs }, newId)

/-- The requests that the administration has no part in. -/
def Call.served : Call → Bool
  | .provision _ | .engagement (.create _) => false
  | _ => true

namespace Realm

/-- What comes to the server. -/
inductive Input where
  | request (op : Op) (served : op.call.served = true)
  | create (request : HttpRequest) (c : EngagementCreate) (newOrg : String)
  | signUp (githubId newOrg : String)
  | addMember (request : HttpRequest) (programId githubId : String) (role : MemberRole)
  | removeMember (request : HttpRequest) (programId githubId : String)
  | createKey (request : HttpRequest) (id : String) (random : Text) (scope : KeyScope)
  | revokeKey (request : HttpRequest) (id : String)
  | enroll (enrollments : Table ManagedEnrollment)

variable [Unicode]

/-- Commit a request of the administration, or roll it back. -/
def commit (r : Realm) : Except Refusal (Db × AccessEvent) → Realm × List AccessEvent
  | .ok (db, event) => ({ r with db }, [event])
  | .error _ => (r, [])

/-- `create_engagement`, in the caller's own organization. -/
def createIn (rt : Runtime) (request : HttpRequest) (c : EngagementCreate) (newOrg : String)
    (r : Realm) : Except Refusal Realm := do
  let user ← getCurrentUser rt.identity r.db request
  requireFullScope user
  let (r, org) ← personalOrg user.githubId newOrg r
  let (db, _) ← createEngagement rt.toPlatform request { c with orgId := org } r.db
  return { r with db }

/-- One input. -/
def step (rt : Runtime) (r : Realm) : Input → Realm × List AccessEvent
  | .request op _ => ({ r with db := (exec rt op r.db).1 }, [])
  | .create request c newOrg =>
    match createIn rt request c newOrg r with
    | .ok r => (r, [])
    | .error _ => (r, [])
  | .signUp githubId newOrg =>
    match personalOrg githubId newOrg r with
    | .ok (r, _) => (r, [])
    | .error _ => (r, [])
  | .addMember request programId githubId role =>
    r.commit (VardrMap.addMember rt.toPlatform request programId githubId role r.db)
  | .removeMember request programId githubId =>
    r.commit (VardrMap.removeMember rt.toPlatform request programId githubId r.db)
  | .createKey request id random scope =>
    r.commit (createApiKey rt.toPlatform request id random scope r.db)
  | .revokeKey request id => r.commit (revokeApiKey rt.toPlatform request id r.db)
  | .enroll enrollments => ({ r with db := { r.db with enrollments } }, [])

/-- The state after a run from the start, and what the administration did. -/
def run (rt : Runtime) (inputs : List Input) : Realm × List AccessEvent :=
  inputs.foldl (fun s i => ((step rt s.1 i).1, s.2 ++ (step rt s.1 i).2)) (initial, [])

theorem run_concat (rt : Runtime) (inputs : List Input) (i : Input) :
    run rt (inputs ++ [i]) = ((step rt (run rt inputs).1 i).1,
      (run rt inputs).2 ++ (step rt (run rt inputs).1 i).2) := by
  unfold run
  rw [List.foldl_append]
  rfl

end Realm

/-! ## What one input changes -/

section
variable [Unicode] {rt : Runtime} {db db' : Db} {p : Platform} {request : HttpRequest}
  {programId githubId : String}

omit [Unicode] in
theorem requireFullScope_eq_ok {user : User} {u : Unit} (h : requireFullScope user = .ok u) :
    user.scope ≠ "runner" := by
  simpa using ensure_eq_ok h

/-- What an accepted invitation adds. -/
theorem addMember_eq_ok {role : MemberRole} {event : AccessEvent}
    (h : addMember p request programId githubId role db = .ok (db', event)) :
    ∃ user e, getCurrentUser p.identity db request = .ok user ∧ user.scope ≠ "runner" ∧
      db.engagements.get? programId = some e ∧ user.githubId = e.ownerGithubId ∧
      githubId ≠ user.githubId ∧ db.members.find? (EngagementMember.of programId githubId) = none ∧
      db.members.countP (fun m => m.programId == programId) < maxMembers ∧
      db' = { db with members := db.members ++ [⟨programId, githubId, role.text⟩] } ∧
      event = .invited user.githubId programId githubId role := by
  obtain ⟨user, huser, h⟩ := bind_eq_ok h
  obtain ⟨_, hscope, h⟩ := bind_eq_ok h
  obtain ⟨e, he, h⟩ := bind_eq_ok h
  obtain ⟨_, howner, h⟩ := bind_eq_ok h
  obtain ⟨_, hself, h⟩ := bind_eq_ok h
  obtain ⟨_, hnew, h⟩ := bind_eq_ok h
  obtain ⟨_, hroom, h⟩ := bind_eq_ok h
  obtain ⟨rfl, rfl⟩ := Prod.mk.inj (Except.ok.inj h)
  refine ⟨user, e, huser, requireFullScope_eq_ok hscope, getEngagement_eq_ok he, ?_, ?_, ?_, ?_,
    rfl, rfl⟩
  · exact (beq_iff_eq.mp (ensure_eq_ok howner)).symm
  · simpa using ensure_eq_ok hself
  · have hnew := ensure_eq_ok hnew
    rw [List.find?_eq_none]
    simpa using hnew
  · simpa using ensure_eq_ok hroom

theorem removeMember_eq_ok {event : AccessEvent}
    (h : removeMember p request programId githubId db = .ok (db', event)) :
    ∃ user e, getCurrentUser p.identity db request = .ok user ∧ user.scope ≠ "runner" ∧
      db.engagements.get? programId = some e ∧ user.githubId = e.ownerGithubId ∧
      db' = { db with members := db.members.filter fun m => !m.of programId githubId } ∧
      event = .removed user.githubId programId githubId := by
  obtain ⟨user, huser, h⟩ := bind_eq_ok h
  obtain ⟨_, hscope, h⟩ := bind_eq_ok h
  obtain ⟨e, he, h⟩ := bind_eq_ok h
  obtain ⟨_, howner, h⟩ := bind_eq_ok h
  obtain ⟨_, -, h⟩ := bind_eq_ok h
  obtain ⟨rfl, rfl⟩ := Prod.mk.inj (Except.ok.inj h)
  exact ⟨user, e, huser, requireFullScope_eq_ok hscope, getEngagement_eq_ok he,
    (beq_iff_eq.mp (ensure_eq_ok howner)).symm, rfl, rfl⟩

theorem createApiKey_eq_ok {id : String} {random : Text} {scope : KeyScope} {event : AccessEvent}
    (h : createApiKey p request id random scope db = .ok (db', event)) :
    ∃ user key apiKeys, getCurrentUser p.identity db request = .ok user ∧ user.scope ≠ "runner" ∧
      key = ⟨id, user.githubId, Sha256.ofText (apiKeyPrefix ++ random), scope.text⟩ ∧
      db.apiKeys.count (fun k => k.githubId == user.githubId) < maxKeys ∧
      (∀ k ∈ db.apiKeys.rows, k.keyHash ≠ key.keyHash) ∧ db.apiKeys.insert key = some apiKeys ∧
      db' = { db with apiKeys } ∧ event = .issued key := by
  obtain ⟨user, huser, h⟩ := bind_eq_ok h
  obtain ⟨_, hscope, h⟩ := bind_eq_ok h
  obtain ⟨_, hroom, h⟩ := bind_eq_ok h
  dsimp only at h
  obtain ⟨_, hunique, h⟩ := bind_eq_ok h
  obtain ⟨apiKeys, hinsert, h⟩ := bind_eq_ok h
  obtain ⟨rfl, rfl⟩ := Prod.mk.inj (Except.ok.inj h)
  refine ⟨user, _, apiKeys, huser, requireFullScope_eq_ok hscope, rfl, ?_, ?_,
    found_eq_ok hinsert, rfl, rfl⟩
  · simpa using ensure_eq_ok hroom
  · simpa using ensure_eq_ok hunique

theorem revokeApiKey_eq_ok {id : String} {event : AccessEvent}
    (h : revokeApiKey p request id db = .ok (db', event)) :
    ∃ user key, getCurrentUser p.identity db request = .ok user ∧ user.scope ≠ "runner" ∧
      db.apiKeys.get? id = some key ∧ key.githubId = user.githubId ∧
      db' = { db with apiKeys := db.apiKeys.filter fun k => k.id != key.id } ∧
      event = .revoked key := by
  obtain ⟨user, huser, h⟩ := bind_eq_ok h
  obtain ⟨_, hscope, h⟩ := bind_eq_ok h
  obtain ⟨key, hkey, h⟩ := bind_eq_ok h
  obtain ⟨rfl, rfl⟩ := Prod.mk.inj (Except.ok.inj h)
  obtain ⟨hget, howner⟩ := Option.filter_eq_some_iff.mp (found_eq_ok hkey)
  exact ⟨user, key, huser, requireFullScope_eq_ok hscope, hget, beq_iff_eq.mp howner, rfl, rfl⟩

omit [Unicode] in
/-- A personal organization is there already, or it is a new one with its user as the owner. -/
theorem personalOrg_eq_ok {newId org : String} {r r' : Realm}
    (h : personalOrg githubId newId r = .ok (r', org)) :
    (githubId, org) ∈ r'.orgs ∧ (r' = r ∨ org = newId ∧ r.orgs.lookup githubId = none ∧
      (∀ o ∈ r.orgs, o.2 ≠ newId) ∧ r' = {
        db := { r.db with orgMembers := r.db.orgMembers ++ [⟨newId, githubId, "owner"⟩] }
        orgs := (githubId, newId) :: r.orgs }) := by
  unfold personalOrg at h
  split at h
  · rename_i org' horg
    obtain ⟨rfl, rfl⟩ := Prod.mk.inj (Except.ok.inj h)
    obtain ⟨before, rest, hr, -⟩ := List.lookup_eq_some_iff.mp horg
    exact ⟨by simp [hr], .inl rfl⟩
  · rename_i hnone
    obtain ⟨_, hnew, h⟩ := bind_eq_ok h
    obtain ⟨rfl, rfl⟩ := Prod.mk.inj (Except.ok.inj h)
    have hnew := ensure_eq_ok hnew
    exact ⟨List.mem_cons_self .., .inr ⟨rfl, hnone, by simpa using hnew, rfl⟩⟩

end

end VardrMap
