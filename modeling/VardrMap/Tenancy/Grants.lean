import VardrMap.Tenancy.Access

/-!
# What is granted

Access over whole runs. A run of the server with its administration reaches databases that the
server alone reaches, given provisions; the rows that grant access are the accepted requests of
the administration and nothing else.
-/
namespace VardrMap
open Lib

variable [Unicode] {rt : Runtime} {db db' : Db} {r : Realm}

/-! ## A run of the server -/

theorem Reachable.provision (h : Reachable rt db) (p : Provision) : Reachable rt { db with
    members := p.members
    orgMembers := p.orgMembers
    apiKeys := p.apiKeys
    enrollments := p.enrollments } :=
  h.step ⟨⟨none, none⟩, exampleClocks, .provision p⟩

theorem Reachable.create (h : Reachable rt db) {request : HttpRequest} {c : EngagementCreate}
    {reply : Reply} (hcreate : createEngagement rt.toPlatform request c db = .ok (db', reply)) :
    Reachable rt db' := by
  have hstep := h.step ⟨request, exampleClocks, .engagement (.create c)⟩
  have hexec : (exec rt ⟨request, exampleClocks, .engagement (.create c)⟩ db).1 = db' :=
    congrArg (fun commit => (settle db commit).1) hcreate
  rwa [hexec] at hstep

theorem Reachable.personalOrg (h : Reachable rt r.db) {r' : Realm} {githubId newId org : String}
    (horg : personalOrg githubId newId r = .ok (r', org)) : Reachable rt r'.db := by
  obtain ⟨-, rfl | ⟨-, -, -, rfl⟩⟩ := personalOrg_eq_ok horg
  · exact h
  · exact h.provision ⟨r.db.members, _, r.db.apiKeys, r.db.enrollments⟩

theorem createIn_eq_ok {request : HttpRequest} {c : EngagementCreate} {newOrg : String}
    {r' : Realm} (h : Realm.createIn rt request c newOrg r = .ok r') :
    ∃ user r₁ org db' reply, getCurrentUser rt.identity r.db request = .ok user ∧
      personalOrg user.githubId newOrg r = .ok (r₁, org) ∧
      createEngagement rt.toPlatform request { c with orgId := org } r₁.db = .ok (db', reply) ∧
      r' = { r₁ with db := db' } := by
  obtain ⟨user, huser, h⟩ := bind_eq_ok h
  obtain ⟨_, -, h⟩ := bind_eq_ok h
  obtain ⟨⟨r₁, org⟩, horg, h⟩ := bind_eq_ok h
  obtain ⟨⟨db', reply⟩, hcreate, h⟩ := bind_eq_ok h
  exact ⟨user, r₁, org, db', reply, huser, horg, hcreate, (Except.ok.inj h).symm⟩

omit [Unicode] in
/-- What a committed request of the administration does. -/
theorem commit_cases (r : Realm) (result : Except Refusal (Db × AccessEvent)) :
    r.commit result = (r, []) ∨ ∃ db event, result = .ok (db, event) ∧
      r.commit result = ({ r with db }, [event]) := by
  cases result with
  | error e => exact .inl rfl
  | ok c => exact .inr ⟨c.1, c.2, rfl, rfl⟩

/-- Each input takes the database where the server alone can take it. -/
theorem Reachable.realm_step (h : Reachable rt r.db) (i : Realm.Input) :
    Reachable rt (r.step rt i).1.db := by
  cases i with
  | request op served => exact h.step op
  | create request c newOrg =>
    simp only [Realm.step]
    split
    · rename_i r' hcreate
      obtain ⟨user, r₁, org, db', reply, -, horg, hmade, rfl⟩ := createIn_eq_ok hcreate
      exact (h.personalOrg horg).create hmade
    · exact h
  | signUp githubId newOrg =>
    simp only [Realm.step]
    split
    · rename_i r' org horg
      exact h.personalOrg horg
    · exact h
  | addMember request programId githubId role =>
    rcases commit_cases r (addMember rt.toPlatform request programId githubId role r.db) with
      hsame | ⟨db', event, hok, hdone⟩
    · exact congrArg (fun s : Realm × List AccessEvent => s.1.db) hsame ▸ h
    · obtain ⟨-, -, -, -, -, -, -, -, -, rfl, -⟩ := addMember_eq_ok hok
      have hdb := congrArg (fun s : Realm × List AccessEvent => s.1.db) hdone
      exact hdb ▸ h.provision ⟨_, r.db.orgMembers, r.db.apiKeys, r.db.enrollments⟩
  | removeMember request programId githubId =>
    rcases commit_cases r (removeMember rt.toPlatform request programId githubId r.db) with
      hsame | ⟨db', event, hok, hdone⟩
    · exact congrArg (fun s : Realm × List AccessEvent => s.1.db) hsame ▸ h
    · obtain ⟨-, -, -, -, -, -, rfl, -⟩ := removeMember_eq_ok hok
      have hdb := congrArg (fun s : Realm × List AccessEvent => s.1.db) hdone
      exact hdb ▸ h.provision ⟨_, r.db.orgMembers, r.db.apiKeys, r.db.enrollments⟩
  | createKey request id random scope =>
    rcases commit_cases r (createApiKey rt.toPlatform request id random scope r.db) with
      hsame | ⟨db', event, hok, hdone⟩
    · exact congrArg (fun s : Realm × List AccessEvent => s.1.db) hsame ▸ h
    · obtain ⟨_, _, apiKeys, -, -, -, -, -, -, rfl, -⟩ := createApiKey_eq_ok hok
      have hdb := congrArg (fun s : Realm × List AccessEvent => s.1.db) hdone
      exact hdb ▸ h.provision ⟨r.db.members, r.db.orgMembers, _, r.db.enrollments⟩
  | revokeKey request id =>
    rcases commit_cases r (revokeApiKey rt.toPlatform request id r.db) with
      hsame | ⟨db', event, hok, hdone⟩
    · exact congrArg (fun s : Realm × List AccessEvent => s.1.db) hsame ▸ h
    · obtain ⟨_, key, -, -, -, -, rfl, -⟩ := revokeApiKey_eq_ok hok
      have hdb := congrArg (fun s : Realm × List AccessEvent => s.1.db) hdone
      exact hdb ▸ h.provision ⟨r.db.members, r.db.orgMembers, _, r.db.enrollments⟩
  | enroll enrollments =>
    exact h.provision ⟨r.db.members, r.db.orgMembers, r.db.apiKeys, enrollments⟩

/-- Whatever holds of every database that the server reaches holds under its administration. -/
theorem realm_reachable (rt : Runtime) (inputs : List Realm.Input) :
    Reachable rt (Realm.run rt inputs).1.db := by
  induction inputs using List.reverseRecOn with
  | nil => exact .empty rt
  | append_singleton inputs i ih =>
    rw [Realm.run_concat]
    exact ih.realm_step i

/-! ## What one input does -/

/-- The owner and the organization of an engagement stay. -/
def Engagement.Stays (e e' : Engagement) : Prop :=
  e'.ownerGithubId = e.ownerGithubId ∧ e'.orgId = e.orgId

/-- The engagements stay in place, and nobody gets or loses a grant. -/
structure Db.Settled (db db' : Db) : Prop where
  engagements : db.engagements.Rewrites Engagement.Stays db'.engagements
  members : db'.members = db.members
  orgMembers : db'.orgMembers = db.orgMembers

omit [Unicode] in
theorem Db.Upholds.settled (h : db.Upholds db') : db.Settled db' where
  engagements := h.engagements.mono fun hup =>
    ⟨congrArg Terms.ownerGithubId hup.terms, congrArg Terms.orgId hup.terms⟩
  members := h.members
  orgMembers := h.orgMembers

omit [Unicode] in
theorem Db.Settled.refl (db : Db) : db.Settled db where
  engagements := .refl (fun _ => ⟨rfl, rfl⟩) _
  members := rfl
  orgMembers := rfl

omit [Unicode] in
theorem bump_stays (e : Engagement) (changed : Bool) : e.Stays (e.bump changed) := by
  unfold Engagement.bump
  split <;> exact ⟨rfl, rfl⟩

omit [Unicode] in
theorem settled_put {e e' : Engagement} (he : db.engagements.get? e.id = some e)
    (hid : e'.id = e.id) (hstays : e.Stays e') : db.Settled (db.putEngagement e') where
  engagements := .put (stored_key he hid) hstays fun _ => ⟨rfl, rfl⟩
  members := rfl
  orgMembers := rfl

theorem idleEngagement_stored {p : Platform} {request : HttpRequest} {programId : String}
    {e : Engagement} (h : idleEngagement p request programId db = .ok e) :
    db.engagements.get? e.id = some e := by
  obtain ⟨user, -, hown⟩ := idleEngagement_owner h
  have he := (ownEngagement_reaches hown).2
  rwa [show e.id = programId from Table.key_of_get? he]

/-- What its owner asks of an engagement leaves it in place, or deletes it. -/
theorem rules_settled {request : HttpRequest} {clocks : Clocks} {e : EngagementOp} {id : String}
    {reply : Reply} (hrules : e.rules? = some id)
    (h : e.run rt request clocks db = .ok (db', reply)) :
    db.Settled db' ∨ db' = db.dropEngagement id := by
  cases e with
  | update programId u =>
    obtain ⟨user, -, h⟩ := bind_eq_ok h
    obtain ⟨e, he, h⟩ := bind_eq_ok h
    obtain ⟨rfl, -⟩ := Prod.mk.inj (Except.ok.inj h)
    obtain ⟨-, he⟩ := ownEngagement_reaches he
    obtain rfl : e.id = programId := Table.key_of_get? he
    exact .inl (settled_put he (update_amends he u).id_eq (bump_stays _ _))
  | delete programId =>
    obtain rfl := Option.some.inj hrules
    exact .inr (deleteEngagement_eq_ok h)
  | configureDuration programId limit =>
    obtain ⟨e, he, h⟩ := bind_eq_ok h
    obtain ⟨_, -, h⟩ := bind_eq_ok h
    obtain ⟨rfl, -⟩ := Prod.mk.inj (Except.ok.inj h)
    exact .inl (settled_put (idleEngagement_stored he) (bump_id _ _) (bump_stays _ _))
  | configureTargets programId limit =>
    obtain ⟨e, he, h⟩ := bind_eq_ok h
    obtain ⟨_, -, h⟩ := bind_eq_ok h
    obtain ⟨rfl, -⟩ := Prod.mk.inj (Except.ok.inj h)
    exact .inl (settled_put (idleEngagement_stored he) (bump_id _ _) (bump_stays _ _))
  | configureConcurrency programId limit =>
    obtain ⟨e, he, h⟩ := bind_eq_ok h
    obtain ⟨rfl, -⟩ := Prod.mk.inj (Except.ok.inj h)
    exact .inl (settled_put (idleEngagement_stored he) (bump_id _ _) (bump_stays _ _))
  | releaseStopWork programId =>
    obtain ⟨user, -, h⟩ := bind_eq_ok h
    obtain ⟨e, he, h⟩ := bind_eq_ok h
    obtain ⟨rfl, -⟩ := Prod.mk.inj (Except.ok.inj h)
    obtain ⟨-, he⟩ := ownEngagement_reaches he
    obtain rfl : e.id = programId := Table.key_of_get? he
    exact .inl (settled_put he (bump_id _ _) (bump_stays _ _))
  | _ => cases hrules

/-- The other requests grant nothing: each leaves engagements and grants in place, or it deletes
an engagement. -/
theorem served_cases {op : Op} (served : op.call.served = true) :
    db.Settled (exec rt op db).1 ∨ ∃ id, (exec rt op db).1 = db.dropEngagement id := by
  obtain ⟨request, clocks, call⟩ := op
  cases call with
  | engagement e =>
    change db.Settled (settle db (e.run rt request clocks db)).1 ∨
      ∃ id, (settle db (e.run rt request clocks db)).1 = _
    cases hcommit : e.run rt request clocks db with
    | error refusal => exact .inl (.refl db)
    | ok committed =>
      obtain ⟨db', reply⟩ := committed
      cases hrules : e.rules? with
      | some id => exact (rules_settled hrules hcommit).imp_right fun hdrop => ⟨id, hdrop⟩
      | none =>
        refine .inl (engagementOp_upholds hrules (fun c hc => ?_) hcommit).settled
        rw [hc] at served
        cases served
  | job j =>
    have hjob : db.Upholds (j.run rt request clocks db).1 := jobOp_upholds rfl
    exact .inl hjob.settled
  | managed m =>
    change db.Settled (m.run rt request clocks db).1 ∨ ∃ id, (m.run rt request clocks db).1 = _
    rcases managedOp_cases rt request clocks m db with
      ⟨observed, refusal, hrun⟩ | ⟨-, observed, db', reply, hbody, hrun⟩
    · rw [hrun]
      have hsame : db.Upholds { db with observed } := upholds_of_engagements rfl rfl rfl
      exact .inl hsame.settled
    · rw [hrun]
      have hsame : db.Upholds { db with observed } := upholds_of_engagements rfl rfl rfl
      exact .inl (hsame.trans (body_upholds hbody)).settled
  | provision p => cases served

/-- What can happen to grants. -/
inductive Realm.Does : Realm → List AccessEvent → Realm → Prop
  | settled {r : Realm} {db' : Db} (settled : r.db.Settled db')
      (keys : db'.apiKeys = r.db.apiKeys) (known : r.db.ids ⊆ db'.ids) :
      Does r [] { r with db := db' }
  | deleted {r : Realm} (id : String) : Does r [] { r with db := r.db.dropEngagement id }
  | founded {r : Realm} (githubId newId : String) (fresh : ∀ o ∈ r.orgs, o.2 ≠ newId) :
      Does r [] {
        db := { r.db with orgMembers := r.db.orgMembers ++ [⟨newId, githubId, "owner"⟩] }
        orgs := (githubId, newId) :: r.orgs }
  | engaged {r : Realm} {e : Engagement} {org : String} {engagements : Table Engagement}
      {orgMembers : List OrganizationMember} (fresh : e.id ∉ r.db.ids) (placed : e.orgId = some org)
      (own : (e.ownerGithubId, org) ∈ r.orgs)
      (inserted : r.db.engagements.insert e = some engagements)
      (rows : ∀ m ∈ orgMembers, m ∈ r.db.orgMembers ∨ m.githubId = e.ownerGithubId ∧ m.orgId = org) :
      Does r [] { r with db := { r.db.minted e.id with engagements, orgMembers } }
  | invited {r : Realm} {e : Engagement} {programId githubId : String} (role : MemberRole)
      (stored : r.db.engagements.get? programId = some e) (other : githubId ≠ e.ownerGithubId)
      (new : r.db.members.find? (EngagementMember.of programId githubId) = none)
      (room : r.db.members.countP (fun m => m.programId == programId) < maxMembers) :
      Does r [.invited e.ownerGithubId programId githubId role] { r with db := { r.db with
        members := r.db.members ++ [⟨programId, githubId, role.text⟩] } }
  | removed {r : Realm} {e : Engagement} {programId : String} (githubId : String)
      (stored : r.db.engagements.get? programId = some e) :
      Does r [.removed e.ownerGithubId programId githubId] { r with db := { r.db with
        members := r.db.members.filter fun m => !m.of programId githubId } }
  | issued {r : Realm} {key : ApiKey} {apiKeys : Table ApiKey}
      (room : r.db.apiKeys.count (fun k => k.githubId == key.githubId) < maxKeys)
      (unique : ∀ k ∈ r.db.apiKeys.rows, k.keyHash ≠ key.keyHash)
      (inserted : r.db.apiKeys.insert key = some apiKeys) :
      Does r [.issued key] { r with db := { r.db with apiKeys } }
  | revoked {r : Realm} {key : ApiKey} (stored : r.db.apiKeys.get? key.id = some key) :
      Does r [.revoked key] { r with db := { r.db with
        apiKeys := r.db.apiKeys.filter fun k => k.id != key.id } }

section
omit [Unicode]

theorem personalOrg_does {r' : Realm} {githubId newId org : String}
    (h : personalOrg githubId newId r = .ok (r', org)) : Lib.Run Realm.Does r [] r' := by
  obtain ⟨-, rfl | ⟨-, -, hfresh, rfl⟩⟩ := personalOrg_eq_ok h
  · exact .refl _
  · exact .single (.founded githubId newId hfresh)

/-- Nothing happens to grants. -/
theorem Realm.Does.same (r : Realm) : Realm.Does r [] r := .settled (.refl r.db) rfl fun _ => id

end

theorem createEngagement_does {request : HttpRequest} {c : EngagementCreate} {user : User}
    {reply : Reply} (huser : getCurrentUser rt.identity r.db request = .ok user)
    (own : (user.githubId, c.orgId) ∈ r.orgs)
    (h : createEngagement rt.toPlatform request c r.db = .ok (db', reply)) :
    Realm.Does r [] { r with db := db' } := by
  obtain ⟨user', huser', h⟩ := bind_eq_ok h
  obtain rfl : user' = user := Except.ok.inj (huser'.symm.trans huser)
  obtain ⟨_, hmint, h⟩ := bind_eq_ok h
  obtain ⟨engagements, hinsert, h⟩ := bind_eq_ok h
  dsimp only at h
  obtain ⟨rfl, -⟩ := Prod.mk.inj (Except.ok.inj h)
  refine .engaged (mint_eq_ok hmint).1 rfl own (found_eq_ok hinsert) fun m hm => ?_
  split at hm
  · exact .inl hm
  · rcases List.mem_append.mp hm with hm | hm
    · exact .inl hm
    · rw [List.mem_singleton.mp hm]
      exact .inr ⟨rfl, rfl⟩

/-- Finding the personal organization of a caller leaves who is calling. -/
theorem personalOrg_user {r' : Realm} {githubId newId org : String} {request : HttpRequest}
    (h : personalOrg githubId newId r = .ok (r', org)) :
    getCurrentUser rt.identity r'.db request = getCurrentUser rt.identity r.db request := by
  obtain ⟨-, rfl | ⟨-, -, -, rfl⟩⟩ := personalOrg_eq_ok h
  · rfl
  · exact getCurrentUser_congr rfl _ _

theorem step_does (rt : Runtime) (r : Realm) (i : Realm.Input) :
    Lib.Run Realm.Does r (r.step rt i).2 (r.step rt i).1 := by
  cases i with
  | request op served =>
    have hcases : r.db.Settled (exec rt op r.db).1 ∨
        ∃ id, (exec rt op r.db).1 = r.db.dropEngagement id := served_cases served
    rcases hcases with hsettled | ⟨id, hdrop⟩
    · refine .single (.settled hsettled (exec_apiKeys fun p hp => ?_) fun id hid => ?_)
      · rw [hp] at served
        cases served
      · exact known_after hid [op]
    · have hdeleted : Realm.Does r [] { r with db := (exec rt op r.db).1 } := by
        rw [hdrop]
        exact .deleted id
      exact .single hdeleted
  | create request c newOrg =>
    simp only [Realm.step]
    split
    · rename_i r' hcreate
      obtain ⟨user, r₁, org, db', reply, huser, horg, hmade, rfl⟩ := createIn_eq_ok hcreate
      have huser₁ : getCurrentUser rt.identity r₁.db request = .ok user :=
        (personalOrg_user horg).trans huser
      have hown : (user.githubId, org) ∈ r₁.orgs := (personalOrg_eq_ok horg).1
      exact (personalOrg_does horg).trans (.single (createEngagement_does huser₁ hown hmade))
    · exact .refl _
  | signUp githubId newOrg =>
    simp only [Realm.step]
    split
    · rename_i r' org horg
      exact personalOrg_does horg
    · exact .refl _
  | addMember request programId githubId role =>
    simp only [Realm.step]
    rcases commit_cases r (addMember rt.toPlatform request programId githubId role r.db) with
      hsame | ⟨db', event, hok, hdone⟩
    · exact hsame ▸ .refl _
    · obtain ⟨user, e, -, -, he, howner, hother, hnew, hroom, rfl, rfl⟩ := addMember_eq_ok hok
      rw [hdone, howner]
      exact .single (.invited role he (howner ▸ hother) hnew hroom)
  | removeMember request programId githubId =>
    simp only [Realm.step]
    rcases commit_cases r (removeMember rt.toPlatform request programId githubId r.db) with
      hsame | ⟨db', event, hok, hdone⟩
    · exact hsame ▸ .refl _
    · obtain ⟨user, e, -, -, he, howner, rfl, rfl⟩ := removeMember_eq_ok hok
      rw [hdone, howner]
      exact .single (.removed githubId he)
  | createKey request id random scope =>
    simp only [Realm.step]
    rcases commit_cases r (createApiKey rt.toPlatform request id random scope r.db) with
      hsame | ⟨db', event, hok, hdone⟩
    · exact hsame ▸ .refl _
    · obtain ⟨user, key, apiKeys, -, -, hkey, hroom, hunique, hinsert, rfl, rfl⟩ :=
        createApiKey_eq_ok hok
      rw [hdone]
      have howner : key.githubId = user.githubId := congrArg ApiKey.githubId hkey
      exact .single (.issued (howner ▸ hroom) hunique hinsert)
  | revokeKey request id =>
    simp only [Realm.step]
    rcases commit_cases r (revokeApiKey rt.toPlatform request id r.db) with
      hsame | ⟨db', event, hok, hdone⟩
    · exact hsame ▸ .refl _
    · obtain ⟨user, key, -, -, hkey, -, rfl, rfl⟩ := revokeApiKey_eq_ok hok
      rw [hdone]
      exact .single (.revoked (stored_key hkey rfl))
  | enroll enrollments =>
    have hsame : r.db.Settled { r.db with enrollments } :=
      ⟨.refl (fun _ => ⟨rfl, rfl⟩) _, rfl, rfl⟩
    exact .single (.settled hsame rfl fun _ => id)

theorem run_does (rt : Runtime) (inputs : List Realm.Input) :
    Lib.Run Realm.Does .initial (Realm.run rt inputs).2 (Realm.run rt inputs).1 := by
  induction inputs using List.reverseRecOn with
  | nil => exact .refl _
  | append_singleton inputs i ih =>
    rw [Realm.run_concat]
    exact ih.trans (step_does rt _ i)

/-- What holds at the start and of whatever can happen holds after every run. -/
theorem run_invariant (inv : List AccessEvent → Realm → Prop) (hstart : inv [] .initial)
    (hstep : ∀ {es fs : List AccessEvent} {r r' : Realm}, inv es r → Realm.Does r fs r' →
      inv (es ++ fs) r') (rt : Runtime) (inputs : List Realm.Input) :
    inv (Realm.run rt inputs).2 (Realm.run rt inputs).1 :=
  (run_does rt inputs).traceInvariant inv hstep hstart

end VardrMap
