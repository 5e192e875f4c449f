import VardrMap.Tenancy.Grants

/-!
# Invitations and keys

What the requests of the administration amount to. A user reaches an engagement by owning it or
by an invitation of its owner that still stands, in the role of that invitation; a token speaks
for whoever asked for its key, until the key is revoked.
-/
namespace VardrMap
open Lib

variable [Unicode] {rt : Runtime} {r r' : Realm} {es fs : List AccessEvent}

/-! ## Organizations -/

/-- Every organization belongs to one user: its only member, and the owner of its engagements. -/
structure Realm.Personal (r : Realm) : Prop where
  distinct : (r.orgs.map Prod.snd).Nodup
  members : ∀ m ∈ r.db.orgMembers, (m.githubId, m.orgId) ∈ r.orgs
  placed : ∀ id e, r.db.engagements.get? id = some e →
    ∃ org, e.orgId = some org ∧ (e.ownerGithubId, org) ∈ r.orgs

section
omit [Unicode]

theorem Realm.Personal.initial : Realm.initial.Personal where
  distinct := List.nodup_nil
  members := fun _ hm => by cases hm
  placed := fun _ _ he => by cases he

theorem Realm.Personal.step (hr : r.Personal) (h : Realm.Does r es r') : r'.Personal := by
  cases h with
  | settled settled =>
    refine ⟨hr.distinct, fun m hm => hr.members m (settled.orgMembers ▸ hm), fun id e he => ?_⟩
    obtain ⟨old, hold, howner, horg⟩ := settled.engagements.backward he
    rw [howner, horg]
    exact hr.placed id old hold
  | deleted id =>
    refine ⟨hr.distinct, hr.members, fun k e he => ?_⟩
    have he : (r.db.engagements.filter fun e => e.id != id).get? k = some e := he
    rw [Table.get?_filter, Option.filter_eq_some_iff] at he
    exact hr.placed k e he.1
  | founded githubId newId fresh =>
    refine ⟨?_, fun m hm => ?_, fun id e he => ?_⟩
    · refine List.nodup_cons.mpr ⟨fun hmem => ?_, hr.distinct⟩
      obtain ⟨o, ho, hsame⟩ := List.mem_map.mp hmem
      exact fresh o ho hsame
    · rcases List.mem_append.mp hm with hm | hm
      · exact List.mem_cons_of_mem _ (hr.members m hm)
      · rw [List.mem_singleton.mp hm]
        exact List.mem_cons_self ..
    · obtain ⟨org, horg, hown⟩ := hr.placed id e he
      exact ⟨org, horg, List.mem_cons_of_mem _ hown⟩
  | @engaged e org engagements orgMembers fresh placed own inserted rows =>
    refine ⟨hr.distinct, fun m hm => ?_, fun id e' he' => ?_⟩
    · rcases rows m hm with hm | ⟨howner, horg⟩
      · exact hr.members m hm
      · rw [howner, horg]
        exact own
    · rcases Table.of_get?_insert inserted he' with ⟨rfl, rfl⟩ | he'
      · exact ⟨org, placed, own⟩
      · exact hr.placed id e' he'
  | invited | removed | issued | revoked => exact ⟨hr.distinct, hr.members, hr.placed⟩

/-- Organizations grant nothing beyond ownership. -/
theorem Realm.Personal.orgRole (hr : r.Personal) {id githubId : String} {e : Engagement}
    (he : r.db.engagements.get? id = some e) (hother : e.ownerGithubId ≠ githubId) :
    VardrMap.orgRole r.db e.orgId githubId = none := by
  obtain ⟨org, horg, hown⟩ := hr.placed id e he
  unfold VardrMap.orgRole
  rw [horg]
  dsimp only
  split
  · rfl
  · rw [Option.map_eq_none_iff, List.find?_eq_none]
    intro m hm hmatch
    simp only [Bool.and_eq_true, beq_iff_eq] at hmatch
    have hrow := hr.members m hm
    rw [hmatch.1] at hrow
    have hsame := List.inj_on_of_nodup_map hr.distinct hown hrow rfl
    exact hother ((congrArg Prod.fst hsame).trans hmatch.2)

end

/-! ## Invitations -/

/-- The role of the invitation that stands after what the administration did. -/
def standing (programId githubId : String) (es : List AccessEvent) : Option MemberRole :=
  es.foldl (fun role e => match e with
    | .invited _ id user r => if id = programId ∧ user = githubId then some r else role
    | .removed _ id user => if id = programId ∧ user = githubId then none else role
    | _ => role) none

section
variable {programId githubId : String}
omit [Unicode]

theorem standing_nil : standing programId githubId [] = none := rfl

theorem standing_invited (es : List AccessEvent) (actor id user : String) (role : MemberRole) :
    standing programId githubId (es ++ [.invited actor id user role]) =
      if id = programId ∧ user = githubId then some role
      else standing programId githubId es := by
  unfold standing
  rw [List.foldl_append]
  rfl

theorem standing_removed (es : List AccessEvent) (actor id user : String) :
    standing programId githubId (es ++ [.removed actor id user]) =
      if id = programId ∧ user = githubId then none else standing programId githubId es := by
  unfold standing
  rw [List.foldl_append]
  rfl

theorem standing_issued (es : List AccessEvent) (key : ApiKey) :
    standing programId githubId (es ++ [.issued key]) = standing programId githubId es := by
  unfold standing
  rw [List.foldl_append]
  rfl

theorem standing_revoked (es : List AccessEvent) (key : ApiKey) :
    standing programId githubId (es ++ [.revoked key]) = standing programId githubId es := by
  unfold standing
  rw [List.foldl_append]
  rfl

/-- The invitation that stands is one that was accepted, with no removal after it. -/
theorem standing_eq_some {role : MemberRole} (h : standing programId githubId es = some role) :
    ∃ before actor after, es = before ++ .invited actor programId githubId role :: after ∧
      ∀ actor', .removed actor' programId githubId ∉ after := by
  induction es using List.reverseRecOn with
  | nil => cases h
  | append_singleton es e ih =>
    have hkeep : standing programId githubId es = some role →
        (∀ actor', e ≠ .removed actor' programId githubId) →
        ∃ before actor after, es ++ [e] =
          before ++ .invited actor programId githubId role :: after ∧
          ∀ actor', .removed actor' programId githubId ∉ after := fun hes he => by
      obtain ⟨before, actor, after, rfl, hafter⟩ := ih hes
      refine ⟨before, actor, after ++ [e], by simp, fun actor' hmem => ?_⟩
      rcases List.mem_append.mp hmem with hmem | hmem
      · exact hafter actor' hmem
      · exact he actor' (List.mem_singleton.mp hmem).symm
    cases e with
    | invited actor id user r =>
      rw [standing_invited] at h
      split at h
      · rename_i hsame
        obtain ⟨rfl, rfl⟩ := hsame
        obtain rfl := Option.some.inj h
        exact ⟨es, actor, [], rfl, nofun⟩
      · exact hkeep h nofun
    | removed actor id user =>
      rw [standing_removed] at h
      split at h
      · cases h
      · rename_i hother
        exact hkeep h fun actor' hsame => hother ((AccessEvent.removed.inj hsame).2)
    | issued key =>
      rw [standing_issued] at h
      exact hkeep h nofun
    | revoked key =>
      rw [standing_revoked] at h
      exact hkeep h nofun

end

/-! ## Members -/

/-- The engagement that an event is about, and who asked. -/
def AccessEvent.about : AccessEvent → Option (String × String)
  | invited actor id _ _ | removed actor id _ => some (actor, id)
  | issued _ | revoked _ => none

/-- The members of the stored engagements are those whose invitation stands, and only owners
asked for invitations and removals. -/
structure Realm.Granted (r : Realm) (es : List AccessEvent) : Prop where
  known : ∀ id e, r.db.engagements.get? id = some e → id ∈ r.db.ids
  members : ∀ m ∈ r.db.members, m.programId ∈ r.db.ids
  actors : ∀ ev ∈ es, ∀ actor id, ev.about = some (actor, id) →
    id ∈ r.db.ids ∧ ∀ e, r.db.engagements.get? id = some e → actor = e.ownerGithubId
  roles : ∀ id e, r.db.engagements.get? id = some e → ∀ githubId,
    memberRole r.db id githubId = (standing id githubId es).map MemberRole.text

section
variable {programId githubId : String}
omit [Unicode]

theorem memberRole_congr {db db' : Db}
    (h : db'.members.find? (EngagementMember.of programId githubId) =
      db.members.find? (EngagementMember.of programId githubId)) :
    memberRole db' programId githubId = memberRole db programId githubId :=
  congrArg (Option.map fun m : EngagementMember => if m.role.isEmpty then "member" else m.role) h

theorem of_eq_true {m : EngagementMember} :
    m.of programId githubId = true ↔ m.programId = programId ∧ m.memberGithubId = githubId := by
  simp [EngagementMember.of]

/-- Membership rows that are not those of a user do not matter to him. -/
theorem find?_filter_of {l : List EngagementMember} {keep : EngagementMember → Bool}
    (h : ∀ m, m.of programId githubId = true → keep m = true) :
    (l.filter keep).find? (EngagementMember.of programId githubId) =
      l.find? (EngagementMember.of programId githubId) := by
  rw [List.find?_filter]
  refine congrArg (List.find? · l) (funext fun m => ?_)
  cases hm : m.of programId githubId with
  | false => simp
  | true => simp [h m hm]

theorem standing_of_fresh {r : Realm} (hr : r.Granted es) (hid : programId ∉ r.db.ids) :
    standing programId githubId es = none := by
  cases hs : standing programId githubId es with
  | none => rfl
  | some role =>
    obtain ⟨before, actor, after, rfl, -⟩ := standing_eq_some hs
    have hmem : AccessEvent.invited actor programId githubId role ∈
        before ++ .invited actor programId githubId role :: after := by simp
    exact absurd (hr.actors _ hmem actor programId rfl).1 hid

theorem Realm.Granted.initial : Realm.initial.Granted [] where
  known := fun _ _ he => by cases he
  members := fun _ hm => by cases hm
  actors := fun _ hev => by cases hev
  roles := fun _ _ he => by cases he

/-- Who asked stays known while engagements stay in place. -/
theorem Realm.Granted.actors_of {r r' : Realm} (hr : r.Granted es) (hids : r.db.ids ⊆ r'.db.ids)
    (hback : ∀ id e', r'.db.engagements.get? id = some e' → id ∈ r.db.ids →
      ∃ e, r.db.engagements.get? id = some e ∧ e'.ownerGithubId = e.ownerGithubId) :
    ∀ ev ∈ es, ∀ actor id, ev.about = some (actor, id) →
      id ∈ r'.db.ids ∧ ∀ e, r'.db.engagements.get? id = some e → actor = e.ownerGithubId := by
  intro ev hev actor id habout
  obtain ⟨hid, hactor⟩ := hr.actors ev hev actor id habout
  refine ⟨hids hid, fun e' he' => ?_⟩
  obtain ⟨e, he, howner⟩ := hback id e' he' hid
  exact (hactor e he).trans howner.symm

/-- An event about a stored engagement, asked for by its owner. -/
theorem Realm.Granted.actors_concat {r : Realm} (hr : r.Granted es) {id : String} {e : Engagement}
    {ev : AccessEvent} (he : r.db.engagements.get? id = some e)
    (habout : ev.about = some (e.ownerGithubId, id)) :
    ∀ ev' ∈ es ++ [ev], ∀ actor id, ev'.about = some (actor, id) →
      id ∈ r.db.ids ∧ ∀ e, r.db.engagements.get? id = some e → actor = e.ownerGithubId := by
  intro ev' hev actor k hk
  rcases List.mem_append.mp hev with hev | hev
  · exact hr.actors ev' hev actor k hk
  · obtain rfl := List.mem_singleton.mp hev
    obtain ⟨rfl, rfl⟩ := Prod.mk.inj (Option.some.inj (habout.symm.trans hk))
    exact ⟨hr.known id e he, fun e' he' => by rw [Option.some.inj (he.symm.trans he')]⟩

theorem Realm.Granted.step {r r' : Realm} (hr : r.Granted es) (h : Realm.Does r fs r') :
    r'.Granted (es ++ fs) := by
  cases h with
  | settled settled keys known =>
    rw [List.append_nil]
    refine ⟨fun id e he => ?_, fun m hm => ?_, hr.actors_of known fun id e' he' _ => ?_,
      fun id e' he' u => ?_⟩
    · obtain ⟨old, hold, -⟩ := settled.engagements.backward he
      exact known (hr.known id old hold)
    · exact known (hr.members m (settled.members ▸ hm))
    · obtain ⟨e, he, howner, -⟩ := settled.engagements.backward he'
      exact ⟨e, he, howner⟩
    · obtain ⟨e, he, -⟩ := settled.engagements.backward he'
      rw [← hr.roles id e he u]
      exact memberRole_congr (congrArg _ settled.members)
  | deleted k =>
    rw [List.append_nil]
    have hstored : ∀ {id e}, (r.db.dropEngagement k).engagements.get? id = some e →
        r.db.engagements.get? id = some e ∧ id ≠ k := fun {id e} he => by
      have he : (r.db.engagements.filter fun e => e.id != k).get? id = some e := he
      rw [Table.get?_filter, Option.filter_eq_some_iff] at he
      have hkey : e.id = id := Table.key_of_get? he.1
      exact ⟨he.1, by simpa [hkey] using he.2⟩
    refine ⟨fun id e he => hr.known id e (hstored he).1, fun m hm => ?_,
      hr.actors_of (List.Subset.refl _) fun id e' he' _ => ⟨e', (hstored he').1, rfl⟩,
      fun id e he u => ?_⟩
    · exact hr.members m (List.mem_of_mem_filter hm)
    · obtain ⟨he, hne⟩ := hstored he
      rw [← hr.roles id e he u]
      refine memberRole_congr (find?_filter_of fun m hm => ?_)
      rw [(of_eq_true.mp hm).1]
      simpa using hne
  | founded githubId newId fresh =>
    rw [List.append_nil]
    exact ⟨hr.known, hr.members, hr.actors, hr.roles⟩
  | @engaged e org engagements orgMembers fresh placed own inserted rows =>
    rw [List.append_nil]
    have hids : r.db.ids ⊆ e.id :: r.db.ids := List.subset_cons_self _ _
    refine ⟨fun id e' he' => ?_, fun m hm => hids (hr.members m hm),
      hr.actors_of hids fun id e' he' hid => ?_, fun id e' he' u => ?_⟩
    · rcases Table.of_get?_insert inserted he' with ⟨rfl, rfl⟩ | he'
      · exact List.mem_cons_self ..
      · exact hids (hr.known id e' he')
    · rcases Table.of_get?_insert inserted he' with ⟨rfl, rfl⟩ | he'
      · exact absurd hid fresh
      · exact ⟨e', he', rfl⟩
    · rcases Table.of_get?_insert inserted he' with ⟨rfl, rfl⟩ | he'
      · -- nothing was granted under an identifier before it is handed out
        have hnone : memberRole r.db e'.id u = none := by
          unfold memberRole
          rw [Option.map_eq_none_iff, List.find?_eq_none]
          intro m hm hmatch
          simp only [Bool.and_eq_true, beq_iff_eq] at hmatch
          exact fresh (hmatch.1 ▸ hr.members m hm)
        exact hnone.trans (congrArg (Option.map _) (standing_of_fresh hr fresh)).symm
      · exact hr.roles id e' he' u
  | @invited e id user role stored other new room =>
    refine ⟨hr.known, fun m hm => ?_, hr.actors_concat stored rfl, fun id' e' he' u => ?_⟩
    · rcases List.mem_append.mp hm with hm | hm
      · exact hr.members m hm
      · rw [List.mem_singleton.mp hm]
        exact hr.known id e stored
    · rw [standing_invited]
      change Option.map _ ((r.db.members ++ [(⟨id, user, role.text⟩ : EngagementMember)]).find?
        (EngagementMember.of id' u)) = _
      rw [List.find?_append]
      split
      · rename_i hsame
        obtain ⟨rfl, rfl⟩ := hsame
        rw [new]
        cases role <;> simp [EngagementMember.of, MemberRole.text]
      · rename_i hother
        have hnew : EngagementMember.of id' u ⟨id, user, role.text⟩ = false := by
          simpa [EngagementMember.of] using hother
        rw [List.find?_cons_of_neg (by simp [hnew]), List.find?_nil, Option.or_none]
        exact hr.roles id' e' he' u
  | @removed e id user stored =>
    refine ⟨hr.known, fun m hm => hr.members m (List.mem_of_mem_filter hm),
      hr.actors_concat stored rfl, fun id' e' he' u => ?_⟩
    rw [standing_removed]
    change Option.map _
      ((r.db.members.filter fun m => !m.of id user).find? (EngagementMember.of id' u)) = _
    split
    · rename_i hsame
      obtain ⟨rfl, rfl⟩ := hsame
      rw [List.find?_filter]
      simp
    · rename_i hother
      rw [find?_filter_of fun m hm => ?_]
      · exact hr.roles id' e' he' u
      · rw [Bool.not_eq_true', Bool.eq_false_iff]
        intro hsame
        obtain ⟨hid, huser⟩ := of_eq_true.mp hsame
        obtain ⟨hid', huser'⟩ := of_eq_true.mp hm
        exact hother ⟨hid.symm.trans hid', huser.symm.trans huser'⟩
  | issued | revoked =>
    refine ⟨hr.known, hr.members, fun ev hev actor id habout => ?_, fun id e he u => ?_⟩
    · rcases List.mem_append.mp hev with hev | hev
      · exact hr.actors ev hev actor id habout
      · rw [List.mem_singleton.mp hev] at habout
        cases habout
    · first | rw [standing_issued] | rw [standing_revoked]
      exact hr.roles id e he u

end

/-! ## Who asked -/

/-- What an input of the administration does when it is accepted, and for whom. -/
inductive Realm.Input.Asks : Realm.Input → HttpRequest → User → AccessEvent → Prop
  | invite (request : HttpRequest) (user : User) (programId githubId : String)
      (role : MemberRole) : Asks (.addMember request programId githubId role) request user
        (.invited user.githubId programId githubId role)
  | remove (request : HttpRequest) (user : User) (programId githubId : String) :
      Asks (.removeMember request programId githubId) request user
        (.removed user.githubId programId githubId)
  | issue (request : HttpRequest) (user : User) (id : String) (random : Text)
      (scope : KeyScope) : Asks (.createKey request id random scope) request user
        (.issued ⟨id, user.githubId, Sha256.ofText (apiKeyPrefix ++ random), scope.text⟩)
  | revoke (request : HttpRequest) {user : User} {key : ApiKey}
      (own : key.githubId = user.githubId) :
      Asks (.revokeKey request key.id) request user (.revoked key)

/-- An input of a run that a caller with full scope asked for and the server accepted: what it
did, and what the administration did since. -/
structure Realm.Asked (rt : Runtime) (inputs : List Realm.Input) (user : User)
    (event : AccessEvent) (since : List AccessEvent) : Prop where
  input : ∃ earlier i later request, inputs = earlier ++ i :: later ∧
    (Realm.run rt inputs).2 = (Realm.run rt earlier).2 ++ event :: since ∧
    i.Asks request user event ∧
    getCurrentUser rt.identity (Realm.run rt earlier).1.db request = .ok user
  scope : user.scope ≠ "runner"

/-- An input does nothing to access, or what a caller with full scope asks by it. -/
theorem step_events (rt : Runtime) (r : Realm) (i : Realm.Input) :
    (r.step rt i).2 = [] ∨ ∃ request user event, i.Asks request user event ∧
      (r.step rt i).2 = [event] ∧ getCurrentUser rt.identity r.db request = .ok user ∧
      user.scope ≠ "runner" := by
  cases i with
  | request | enroll => exact .inl rfl
  | create | signUp =>
    simp only [Realm.step]
    split <;> exact .inl rfl
  | addMember request programId githubId role =>
    simp only [Realm.step]
    rcases commit_cases r (addMember rt.toPlatform request programId githubId role r.db) with
      hsame | ⟨db', event, hok, hdone⟩
    · exact .inl (congrArg Prod.snd hsame)
    · obtain ⟨user, -, huser, hscope, -, -, -, -, -, -, rfl⟩ := addMember_eq_ok hok
      exact .inr ⟨request, user, _, .invite .., congrArg Prod.snd hdone, huser, hscope⟩
  | removeMember request programId githubId =>
    simp only [Realm.step]
    rcases commit_cases r (removeMember rt.toPlatform request programId githubId r.db) with
      hsame | ⟨db', event, hok, hdone⟩
    · exact .inl (congrArg Prod.snd hsame)
    · obtain ⟨user, -, huser, hscope, -, -, -, rfl⟩ := removeMember_eq_ok hok
      exact .inr ⟨request, user, _, .remove .., congrArg Prod.snd hdone, huser, hscope⟩
  | createKey request id random scope =>
    simp only [Realm.step]
    rcases commit_cases r (createApiKey rt.toPlatform request id random scope r.db) with
      hsame | ⟨db', event, hok, hdone⟩
    · exact .inl (congrArg Prod.snd hsame)
    · obtain ⟨user, key, -, huser, hscope, rfl, -, -, -, -, rfl⟩ := createApiKey_eq_ok hok
      exact .inr ⟨request, user, _, .issue .., congrArg Prod.snd hdone, huser, hscope⟩
  | revokeKey request id =>
    simp only [Realm.step]
    rcases commit_cases r (revokeApiKey rt.toPlatform request id r.db) with
      hsame | ⟨db', event, hok, hdone⟩
    · exact .inl (congrArg Prod.snd hsame)
    · obtain ⟨user, key, huser, hscope, hkey, hown, -, rfl⟩ := revokeApiKey_eq_ok hok
      obtain rfl : key.id = id := Table.key_of_get? hkey
      exact .inr ⟨request, user, _, .revoke request hown, congrArg Prod.snd hdone, huser, hscope⟩

/-- Whatever the administration did in a run, a caller asked for it then. -/
theorem run_asked {inputs : List Realm.Input} {before since : List AccessEvent}
    {event : AccessEvent} (h : (Realm.run rt inputs).2 = before ++ event :: since) :
    ∃ user, Realm.Asked rt inputs user event since := by
  induction inputs using List.reverseRecOn generalizing since with
  | nil => simp [Realm.run] at h
  | append_singleton inputs i ih =>
    have hrun := congrArg Prod.snd (Realm.run_concat rt inputs i)
    dsimp only at hrun
    have hold : ∀ {since'}, (Realm.run rt inputs).2 = before ++ event :: since' →
        since = since' ++ ((Realm.run rt inputs).1.step rt i).2 →
        ∃ user, Realm.Asked rt (inputs ++ [i]) user event since := fun {since'} hes hsince => by
      obtain ⟨user, ⟨earlier, i', later, request, rfl, hevents, hasks, huser⟩, hscope⟩ := ih hes
      refine ⟨user, ⟨earlier, i', later ++ [i], request, by simp, ?_, hasks, huser⟩, hscope⟩
      rw [hrun, hevents, hsince]
      simp
    rw [hrun] at h
    rcases step_events rt (Realm.run rt inputs).1 i with
      hnone | ⟨request, user, new, hasks, hnew, huser, hscope⟩
    · rw [hnone, List.append_nil] at h
      exact hold h (by rw [hnone, List.append_nil])
    · rw [hnew] at h
      rcases List.eq_nil_or_concat since with rfl | ⟨since', last, rfl⟩
      · -- the event is the one of the last input
        obtain ⟨hes, hlast⟩ := List.append_inj' h rfl
        obtain rfl := List.singleton_inj.mp hlast
        refine ⟨user, ⟨inputs, i, [], request, rfl, ?_, hasks, huser⟩, hscope⟩
        rw [hrun, hnew]
      · rw [List.concat_eq_append] at h hold ⊢
        rw [← List.cons_append, ← List.append_assoc] at h
        obtain ⟨hes, hlast⟩ := List.append_inj' h rfl
        exact hold hes (by rw [hnew, hlast])

/-! ## Access -/

/-- The role of a user on an engagement, given what the administration did. -/
def grantedRole (e : Engagement) (githubId : String) (es : List AccessEvent) : Option String :=
  if e.ownerGithubId = githubId then some "owner"
  else (standing e.id githubId es).map MemberRole.text

theorem run_personal (rt : Runtime) (inputs : List Realm.Input) :
    (Realm.run rt inputs).1.Personal :=
  run_invariant (fun _ r => r.Personal) .initial (fun hr h => hr.step h) rt inputs

theorem run_granted (rt : Runtime) (inputs : List Realm.Input) :
    (Realm.run rt inputs).1.Granted (Realm.run rt inputs).2 :=
  run_invariant (fun es r => r.Granted es) .initial (fun hr h => hr.step h) rt inputs

section
omit [Unicode]

theorem memberRole_isSome (db : Db) (programId githubId : String) :
    (memberRole db programId githubId).isSome =
      db.members.any fun m => m.memberGithubId == githubId && m.programId == programId := by
  unfold memberRole
  rw [Option.isSome_map, Bool.eq_iff_iff, List.find?_isSome, List.any_eq_true]
  simp only [Bool.and_comm]

/-- A user reaches an engagement by owning it or by an invitation. -/
theorem Realm.Personal.accessible (hr : r.Personal) {id githubId : String} {e : Engagement}
    (he : r.db.engagements.get? id = some e) :
    VardrMap.accessible r.db githubId e =
      (e.ownerGithubId == githubId || (memberRole r.db e.id githubId).isSome) := by
  unfold VardrMap.accessible
  rw [← memberRole_isSome]
  obtain ⟨org, horg, hown⟩ := hr.placed id e he
  rw [horg, Option.any_some]
  cases hrow : r.db.orgMembers.any fun m => m.githubId == githubId && m.orgId == org with
  | false => rw [Bool.or_false]
  | true =>
    obtain ⟨m, hm, hmatch⟩ := List.any_eq_true.mp hrow
    simp only [Bool.and_eq_true, beq_iff_eq] at hmatch
    have hmember := hr.members m hm
    rw [hmatch.2] at hmember
    have hsame := List.inj_on_of_nodup_map hr.distinct hown hmember rfl
    have howner : e.ownerGithubId = githubId := (congrArg Prod.fst hsame).trans hmatch.1
    simp [howner]

end

/-- Access over all runs of the server and its administration. The role of a user on a stored
engagement is that of its owner, or that of the invitation that stands, or none; the lists show
the engagement to exactly those who have a role; and an invitation that stands was asked for by
the owner of the engagement, with no removal since. -/
theorem access_by_invitation (rt : Runtime) (inputs : List Realm.Input) {id : String}
    {e : Engagement} (he : (Realm.run rt inputs).1.db.engagements.get? id = some e)
    (githubId : String) :
    engagementAccess (Realm.run rt inputs).1.db e githubId =
        grantedRole e githubId (Realm.run rt inputs).2 ∧
      (Realm.run rt inputs).1.db.reaches githubId id =
        (grantedRole e githubId (Realm.run rt inputs).2).isSome ∧
      ∀ role, standing id githubId (Realm.run rt inputs).2 = some role →
        ∃ user since, user.githubId = e.ownerGithubId ∧
          Realm.Asked rt inputs user (.invited user.githubId id githubId role) since ∧
          ∀ actor, .removed actor id githubId ∉ since := by
  have hpersonal := run_personal rt inputs
  have hgranted := run_granted rt inputs
  obtain rfl : e.id = id := Table.key_of_get? he
  have hroles := hgranted.roles e.id e he githubId
  refine ⟨?_, ?_, fun role hrole => ?_⟩
  · unfold engagementAccess grantedRole
    by_cases howner : e.ownerGithubId = githubId
    · simp [howner]
    · rw [hpersonal.orgRole he howner, hroles]
      simp [howner, higherRole]
  · unfold Db.reaches grantedRole
    rw [he, Option.any_some, hpersonal.accessible he, hroles]
    by_cases howner : e.ownerGithubId = githubId
    · simp [howner]
    · simp [howner]
  · obtain ⟨before, actor, since, hevents, hsince⟩ := standing_eq_some hrole
    obtain ⟨user, hasked⟩ := run_asked hevents
    obtain ⟨earlier, i, later, request, hinputs, hrun, hasks, huser⟩ := hasked.input
    obtain rfl : actor = user.githubId := by
      cases hasks
      rfl
    have hmem : AccessEvent.invited user.githubId e.id githubId role ∈
        (Realm.run rt inputs).2 := by
      rw [hevents]
      exact List.mem_append_right _ (List.mem_cons_self ..)
    have hactor := (hgranted.actors _ hmem user.githubId e.id rfl).2 e he
    exact ⟨user, since, hactor, hasked, hsince⟩

/-- Its owner invites a viewer and a member to an engagement, and removes the member. -/
def invitedInputs : List Realm.Input :=
  let session : HttpRequest := ⟨none, some "owner"⟩
  [.create session ⟨"e1", "", "pentest", "active", none, none, none⟩ "o1",
    .addMember session "e1" "u2" .viewer,
    .addMember session "e1" "u3" .member,
    .removeMember session "e1" "u3"]

omit [Unicode] in
/-- The viewer has that role, and the removed member none. -/
theorem access_by_invitation_invited : ∃ e,
    engagementAccess (@Realm.run Unicode.ascii exampleRuntime invitedInputs).1.db e "u2" =
        some "viewer" ∧
      (@Realm.run Unicode.ascii exampleRuntime invitedInputs).1.db.reaches "u3" "e1" = false := by
  have hstored :
      ((@Realm.run Unicode.ascii exampleRuntime invitedInputs).1.db.engagements.get? "e1").map
        (fun e => (grantedRole e "u2" (@Realm.run Unicode.ascii exampleRuntime invitedInputs).2,
          grantedRole e "u3" (@Realm.run Unicode.ascii exampleRuntime invitedInputs).2)) =
        some (some "viewer", none) := by decide +kernel
  obtain ⟨e, he, hgranted⟩ := Option.map_eq_some_iff.mp hstored
  obtain ⟨hviewer, hremoved⟩ := Prod.mk.inj hgranted
  obtain ⟨haccess, -, -⟩ :=
    @access_by_invitation Unicode.ascii exampleRuntime invitedInputs _ _ he "u2"
  obtain ⟨-, hreaches, -⟩ :=
    @access_by_invitation Unicode.ascii exampleRuntime invitedInputs _ _ he "u3"
  rw [hremoved] at hreaches
  exact ⟨e, haccess.trans hviewer, hreaches⟩

end VardrMap
