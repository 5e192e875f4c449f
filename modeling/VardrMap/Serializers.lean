import VardrMap.Deps
import VardrMap.Lib.Dict
import Mathlib.Data.List.Dedup
import Mathlib.Data.List.Nodup

/-!
# One access rule, three readings

Whether a caller reaches an engagement, and with which role, is answered three times: for one
engagement by `engagementAccess`, for the lists of ids by `accessibleEngagementIds`, and for a
page of engagements by `resolveRoles`, which asks the database once for the whole page. Over
the memberships that the schema admits the three agree.
-/
namespace VardrMap
open Lib

/-! ## The bulk readings -/

/-- `accessible_engagement_ids`: owned, reached through an organization, invited; the first
mention of an id counts. -/
def accessibleEngagementIds (db : Db) (githubId : String) : List String :=
  let owned := (db.engagements.rows.filter fun e => e.ownerGithubId == githubId).map Engagement.id
  let orgIds := (db.orgMembers.filter fun m => m.githubId == githubId).map OrganizationMember.orgId
  let viaOrg :=
    if orgIds.isEmpty then []
    else (db.engagements.rows.filter fun e => e.orgId.any orgIds.contains).map Engagement.id
  let invited :=
    (db.members.filter fun m => m.memberGithubId == githubId).map EngagementMember.programId
  (owned ++ viaOrg ++ invited).foldl (fun seen x => if seen.contains x then seen else seen ++ [x]) []

/-- The role of highest rank, the first of them when several rank the same. -/
def topRole : List String → Option String
  | [] => none
  | role :: roles =>
    some (roles.foldl (fun top r => if roleRank top < roleRank r then r else top) role)

/-- The caller's role in each of these organizations. -/
def orgRoles (db : Db) (orgIds : List String) (githubId : String) : Dict String String :=
  .ofPairs ((db.orgMembers.filter fun m => orgIds.contains m.orgId && m.githubId == githubId).map
    fun m => (m.orgId, m.role))

/-- The caller's role by invitation on each of these engagements. -/
def memberRoles (db : Db) (ids : List String) (githubId : String) : Dict String String :=
  .ofPairs ((db.members.filter fun m =>
    ids.contains m.programId && m.memberGithubId == githubId).map
      fun m => (m.programId, if m.role.isEmpty then "member" else m.role))

/-- The organization of an engagement, when it names one. -/
def Engagement.org (e : Engagement) : Option String := e.orgId.filter fun o => !o.isEmpty

/-- The roles found for an engagement that the caller does not own. -/
def foundRoles (org member : Dict String String) (e : Engagement) : List String :=
  ((e.org.bind org).toList) ++ (member e.id).toList

/-- `_resolve_roles`: the role on each engagement of a page. -/
def resolveRoles (db : Db) (page : List Engagement) (githubId : String) : Dict String String :=
  let roles : Dict String (List String) := page.foldl (fun d e =>
    d.set e.id (if e.ownerGithubId == githubId then ["owner"] else [])) .empty
  let unowned := page.filter fun e => e.ownerGithubId != githubId
  let org := orgRoles db (unowned.filterMap Engagement.org) githubId
  let member := memberRoles db (unowned.map Engagement.id) githubId
  let roles : Dict String (List String) := unowned.foldl (fun d e =>
    d.set e.id ((d e.id).getD [] ++ foundRoles org member e)) roles
  fun id => (roles id).map fun found => (topRole found).getD "viewer"

/-! ## What the schema admits -/

/-- The memberships that the schema admits: one row for a person in an organization or on an
engagement, a role in each, and organizations under the identifiers they were created with. -/
structure Db.Memberships (db : Db) : Prop where
  org : db.orgMembers.Pairwise fun m n => ¬(m.orgId = n.orgId ∧ m.githubId = n.githubId)
  invited : db.members.Pairwise fun m n =>
    ¬(m.programId = n.programId ∧ m.memberGithubId = n.memberGithubId)
  orgRole : ∀ m ∈ db.orgMembers, m.role.isEmpty = false
  invitedRole : ∀ m ∈ db.members, m.role.isEmpty = false
  orgId : ∀ m ∈ db.orgMembers, m.orgId.isEmpty = false

/-- Of rows that differ in what is looked for, the first found is the only one. -/
theorem find?_eq_some_of_pairwise {α : Type} {l : List α} {p : α → Bool} {R : α → α → Prop}
    (hl : l.Pairwise R) (hR : ∀ a b, p a = true → p b = true → ¬R a b) {a : α} (ha : a ∈ l)
    (hp : p a = true) : l.find? p = some a := by
  induction hl with
  | nil => simp at ha
  | @cons b l hb _ ih =>
    rw [List.find?_cons]
    rcases List.mem_cons.mp ha with rfl | hal
    · simp [hp]
    · have hpb : p b = false := by
        cases hpb : p b with
        | false => rfl
        | true => exact absurd (hb a hal) (hR b a hpb hp)
      simp only [hpb]
      exact ih hal

namespace Db.Memberships
variable {db : Db} (h : db.Memberships) (githubId : String)
include h

theorem orgRole_eq_some {org : String} {m : OrganizationMember} (hm : m ∈ db.orgMembers)
    (ho : m.orgId = org) (hg : m.githubId = githubId) :
    VardrMap.orgRole db (some org) githubId = some m.role := by
  have hne : org.isEmpty = false := ho ▸ h.orgId m hm
  have hfind : db.orgMembers.find? (fun m => m.orgId == org && m.githubId == githubId) = some m :=
    find?_eq_some_of_pairwise h.org
      (fun a b ha hb => by
        simp only [Bool.and_eq_true, beq_iff_eq] at ha hb
        simp [ha.1, ha.2, hb.1, hb.2]) hm (by simp [ho, hg])
  simp [VardrMap.orgRole, hne, hfind]

theorem memberRole_eq_some {id : String} {m : EngagementMember} (hm : m ∈ db.members)
    (hi : m.programId = id) (hg : m.memberGithubId = githubId) :
    memberRole db id githubId = some m.role := by
  have hfind : db.members.find? (fun m => m.programId == id && m.memberGithubId == githubId) =
      some m := find?_eq_some_of_pairwise h.invited
    (fun a b ha hb => by
      simp only [Bool.and_eq_true, beq_iff_eq] at ha hb
      simp [ha.1, ha.2, hb.1, hb.2]) hm (by simp [hi, hg])
  rw [memberRole, hfind, Option.map_some, h.invitedRole m hm]
  rfl

omit h in
theorem orgRole_eq_none {org : String}
    (hno : ∀ m ∈ db.orgMembers, ¬(m.orgId = org ∧ m.githubId = githubId)) :
    VardrMap.orgRole db (some org) githubId = none := by
  have hfind : db.orgMembers.find? (fun m => m.orgId == org && m.githubId == githubId) = none :=
    List.find?_eq_none.mpr fun m hm hp => hno m hm (by simpa using hp)
  simp [VardrMap.orgRole, hfind]

omit h in
theorem memberRole_eq_none {id : String}
    (hno : ∀ m ∈ db.members, ¬(m.programId = id ∧ m.memberGithubId = githubId)) :
    memberRole db id githubId = none := by
  have hfind : db.members.find? (fun m => m.programId == id && m.memberGithubId == githubId) =
      none := List.find?_eq_none.mpr fun m hm hp => hno m hm (by simpa using hp)
  simp [memberRole, hfind]

/-- A batched role of an organization is the one that is looked up for it alone. -/
theorem orgRoles_eq {orgIds : List String} {org : String} (ho : org ∈ orgIds) :
    orgRoles db orgIds githubId org = VardrMap.orgRole db (some org) githubId := by
  by_cases hex : ∃ m ∈ db.orgMembers, m.orgId = org ∧ m.githubId = githubId
  · obtain ⟨m, hm, hmo, hmg⟩ := hex
    rw [h.orgRole_eq_some githubId hm hmo hmg]
    refine Dict.ofPairs_eq_some (List.mem_map.mpr ⟨m, ?_, by rw [hmo]⟩) fun role hrole => ?_
    · exact List.mem_filter.mpr ⟨hm, by simp [hmo, hmg, ho]⟩
    · obtain ⟨n, hn, hpair⟩ := List.mem_map.mp hrole
      obtain ⟨hno, rfl⟩ := Prod.mk.inj hpair
      obtain ⟨hn, hp⟩ := List.mem_filter.mp hn
      have hng : n.githubId = githubId := by simpa using And.right (by simpa using hp)
      have := h.orgRole_eq_some githubId hn hno hng
      rw [h.orgRole_eq_some githubId hm hmo hmg] at this
      exact (Option.some.inj this).symm
  · have hno : ∀ m ∈ db.orgMembers, ¬(m.orgId = org ∧ m.githubId = githubId) :=
      fun m hm hp => hex ⟨m, hm, hp⟩
    rw [orgRole_eq_none githubId hno]
    refine Dict.ofPairs_eq_none fun p hp hk => ?_
    obtain ⟨m, hm, rfl⟩ := List.mem_map.mp hp
    obtain ⟨hm, hp⟩ := List.mem_filter.mp hm
    exact hno m hm ⟨hk, by simpa using And.right (by simpa using hp)⟩

/-- A batched role by invitation is the one that is looked up for the engagement alone. -/
theorem memberRoles_eq {ids : List String} {id : String} (hid : id ∈ ids) :
    memberRoles db ids githubId id = memberRole db id githubId := by
  by_cases hex : ∃ m ∈ db.members, m.programId = id ∧ m.memberGithubId = githubId
  · obtain ⟨m, hm, hmi, hmg⟩ := hex
    rw [h.memberRole_eq_some githubId hm hmi hmg]
    refine Dict.ofPairs_eq_some (List.mem_map.mpr ⟨m, ?_, ?_⟩) fun role hrole => ?_
    · exact List.mem_filter.mpr ⟨hm, by simp [hmi, hmg, hid]⟩
    · simp [hmi, h.invitedRole m hm]
    · obtain ⟨n, hn, hpair⟩ := List.mem_map.mp hrole
      obtain ⟨hni, rfl⟩ := Prod.mk.inj hpair
      obtain ⟨hn, hp⟩ := List.mem_filter.mp hn
      have hng : n.memberGithubId = githubId := by simpa using And.right (by simpa using hp)
      have := h.memberRole_eq_some githubId hn hni hng
      rw [h.memberRole_eq_some githubId hm hmi hmg] at this
      simp [h.invitedRole n hn, Option.some.inj this]
  · have hno : ∀ m ∈ db.members, ¬(m.programId = id ∧ m.memberGithubId = githubId) :=
      fun m hm hp => hex ⟨m, hm, hp⟩
    rw [memberRole_eq_none githubId hno]
    refine Dict.ofPairs_eq_none fun p hp hk => ?_
    obtain ⟨m, hm, rfl⟩ := List.mem_map.mp hp
    obtain ⟨hm, hp⟩ := List.mem_filter.mp hm
    exact hno m hm ⟨hk, by simpa using And.right (by simpa using hp)⟩

/-- A stored role in an organization is not empty. -/
theorem orgRole_filter (orgId : Option String) :
    (VardrMap.orgRole db orgId githubId).filter (fun r => !r.isEmpty) =
      VardrMap.orgRole db orgId githubId := by
  have hrole : ∀ r ∈ VardrMap.orgRole db orgId githubId, r.isEmpty = false := by
    intro r hr
    cases orgId with
    | none => simp [VardrMap.orgRole] at hr
    | some org =>
      unfold VardrMap.orgRole at hr
      simp only at hr
      split at hr
      · simp at hr
      · obtain ⟨m, hm, rfl⟩ := Option.map_eq_some_iff.mp hr
        exact h.orgRole m (List.mem_of_find?_eq_some hm)
  cases hr : VardrMap.orgRole db orgId githubId with
  | none => rfl
  | some r => rw [Option.filter_some, hrole r hr, Bool.not_false, if_pos rfl]

end Db.Memberships

/-! ## The list of ids -/

theorem mem_foldl_seen {x : String} (l seen : List String) :
    x ∈ l.foldl (fun seen x => if seen.contains x then seen else seen ++ [x]) seen ↔
      x ∈ seen ∨ x ∈ l := by
  induction l generalizing seen with
  | nil => simp
  | cons y l ih =>
    rw [List.foldl_cons, ih]
    split
    · rename_i hy
      have hy : y ∈ seen := by simpa using hy
      refine ⟨fun h => h.imp_right (List.mem_cons_of_mem y), fun h => ?_⟩
      rcases h with h | h
      · exact .inl h
      · rcases List.mem_cons.mp h with rfl | h
        · exact .inl hy
        · exact .inr h
    · rw [List.mem_append, List.mem_singleton, List.mem_cons, or_assoc]

/-- The id of a stored engagement is listed among selected ones exactly when the engagement
itself is selected. -/
theorem mem_map_id_filter {db : Db} {e : Engagement} (he : e ∈ db.engagements.rows)
    (p : Engagement → Bool) :
    e.id ∈ (db.engagements.rows.filter p).map Engagement.id ↔ p e = true := by
  refine ⟨fun h => ?_, fun h => List.mem_map_of_mem (List.mem_filter.mpr ⟨he, h⟩)⟩
  obtain ⟨e', he', hid⟩ := List.mem_map.mp h
  obtain ⟨hmem, hp⟩ := List.mem_filter.mp he'
  rwa [← Table.eq_of_key hmem he hid]

theorem mem_accessibleEngagementIds {db : Db} {githubId : String} {e : Engagement}
    (he : e ∈ db.engagements.rows) :
    e.id ∈ accessibleEngagementIds db githubId ↔ accessible db githubId e = true := by
  unfold accessibleEngagementIds accessible
  simp only
  rw [mem_foldl_seen, List.mem_append, List.mem_append, mem_map_id_filter he]
  have horg : ∀ o : String, o ∈ (db.orgMembers.filter fun m => m.githubId == githubId).map
      OrganizationMember.orgId ↔
        (db.orgMembers.any fun m => m.githubId == githubId && m.orgId == o) = true := by
    intro o
    simp only [List.mem_map, List.mem_filter, List.any_eq_true, Bool.and_eq_true, beq_iff_eq,
      and_assoc]
  have hvia : e.id ∈ (if ((db.orgMembers.filter fun m => m.githubId == githubId).map
      OrganizationMember.orgId).isEmpty then [] else (db.engagements.rows.filter fun e =>
        e.orgId.any ((db.orgMembers.filter fun m => m.githubId == githubId).map
          OrganizationMember.orgId).contains).map Engagement.id) ↔
      e.orgId.any (fun o => db.orgMembers.any fun m =>
        m.githubId == githubId && m.orgId == o) = true := by
    split
    · rename_i hempty
      rw [List.isEmpty_iff] at hempty
      cases ho : e.orgId with
      | none => simp
      | some o =>
        rw [Option.any_some, ← horg o, hempty]
        simp
    · rw [mem_map_id_filter he]
      cases ho : e.orgId with
      | none => simp
      | some o =>
        rw [Option.any_some, Option.any_some, ← horg o]
        exact List.contains_iff_mem
  have hinvited : e.id ∈ (db.members.filter fun m => m.memberGithubId == githubId).map
      EngagementMember.programId ↔ (db.members.any fun m =>
        m.memberGithubId == githubId && m.programId == e.id) = true := by
    simp only [List.mem_map, List.mem_filter, List.any_eq_true, Bool.and_eq_true, beq_iff_eq,
      and_assoc]
  rw [hvia, hinvited, Bool.or_eq_true, Bool.or_eq_true]
  simp [or_assoc]

theorem higherRole_isSome {a b : Option String} (ha : a.filter (fun r => !r.isEmpty) = a) :
    (higherRole a b).isSome = (a.isSome || b.isSome) := by
  unfold higherRole
  rw [ha]
  cases a <;> cases b <;> simp
  split <;> rfl

theorem accessible_eq_isSome {db : Db} (h : db.Memberships) (githubId : String) (e : Engagement) :
    accessible db githubId e = (engagementAccess db e githubId).isSome := by
  unfold accessible engagementAccess
  by_cases hown : e.ownerGithubId = githubId
  · simp [hown]
  have horg : (e.orgId.any fun o => db.orgMembers.any fun m =>
      m.githubId == githubId && m.orgId == o) = (orgRole db e.orgId githubId).isSome := by
    cases e.orgId with
    | none => rfl
    | some o =>
      rw [Option.any_some]
      by_cases hex : ∃ m ∈ db.orgMembers, m.orgId = o ∧ m.githubId = githubId
      · obtain ⟨m, hm, hmo, hmg⟩ := hex
        rw [h.orgRole_eq_some githubId hm hmo hmg, Option.isSome_some, List.any_eq_true]
        exact ⟨m, hm, by simp [hmo, hmg]⟩
      · have hno : ∀ m ∈ db.orgMembers, ¬(m.orgId = o ∧ m.githubId = githubId) :=
          fun m hm hp => hex ⟨m, hm, hp⟩
        rw [Db.Memberships.orgRole_eq_none githubId hno, Option.isSome_none, List.any_eq_false]
        intro m hm hp
        simp only [Bool.and_eq_true, beq_iff_eq] at hp
        exact hno m hm ⟨hp.2, hp.1⟩
  have hinvited : (db.members.any fun m => m.memberGithubId == githubId && m.programId == e.id) =
      (memberRole db e.id githubId).isSome := by
    unfold memberRole
    rw [Option.isSome_map, Bool.eq_iff_iff, List.find?_isSome, List.any_eq_true]
    simp only [Bool.and_comm]
  simp only [beq_eq_false_iff_ne.mpr hown, Bool.false_or, horg, hinvited, Bool.false_eq_true,
    if_false]
  exact (higherRole_isSome (h.orgRole_filter githubId e.orgId)).symm

/-! ## The roles of a page -/

/-- A page of engagements: stored rows, each at most once. -/
structure Page (db : Db) where
  rows : List Engagement
  nodup : rows.Nodup
  stored : ∀ e ∈ rows, e ∈ db.engagements.rows

theorem Page.nodup_ids {db : Db} (page : Page db) : (page.rows.map Engagement.id).Nodup :=
  page.nodup.map_on fun _ he _ he' hid => Table.eq_of_key (page.stored _ he) (page.stored _ he') hid

theorem topRole_append {a b : Option String} (ha : a.filter (fun r => !r.isEmpty) = a) :
    topRole (a.toList ++ b.toList) = higherRole a b := by
  unfold higherRole
  rw [ha]
  cases a <;> cases b <;> simp [topRole]
  split <;> rfl

theorem resolveRoles_eq {db : Db} (h : db.Memberships) (page : Page db) (githubId : String)
    {e : Engagement} (he : e ∈ page.rows) :
    resolveRoles db page.rows githubId e.id =
      some ((engagementAccess db e githubId).getD "viewer") := by
  unfold resolveRoles
  generalize hunowned : page.rows.filter (fun e => e.ownerGithubId != githubId) = unowned
  -- what ownership leaves under the key of this engagement
  have hfirst := @Dict.foldl_set_of_mem String (List String) Engagement _ Engagement.id
    (fun _ e => if e.ownerGithubId == githubId then ["owner"] else []) page.rows page.nodup_ids e he
    Dict.empty
  by_cases hown : e.ownerGithubId = githubId
  · have hne : ∀ x ∈ unowned, x.id ≠ e.id := by
      intro x hx hid
      rw [← hunowned] at hx
      obtain ⟨hx, hp⟩ := List.mem_filter.mp hx
      rw [Table.eq_of_key (page.stored x hx) (page.stored e he) hid] at hp
      simp [hown] at hp
    rw [Dict.foldl_set_of_forall_ne hne, hfirst]
    simp [hown, topRole, engagementAccess]
  · have hmem : e ∈ unowned := by
      rw [← hunowned]
      exact List.mem_filter.mpr ⟨he, by simp [hown]⟩
    have hnodup : (unowned.map Engagement.id).Nodup := by
      rw [← hunowned]
      exact page.nodup_ids.sublist (List.filter_sublist.map _)
    have hsecond := fun d => @Dict.foldl_set_of_mem String (List String) Engagement _ Engagement.id
      (fun found e => found.getD [] ++ foundRoles (orgRoles db (unowned.filterMap Engagement.org)
        githubId) (memberRoles db (unowned.map Engagement.id) githubId) e) unowned hnodup e hmem d
    rw [hsecond, hfirst]
    have horg : (e.org.bind (orgRoles db (unowned.filterMap Engagement.org) githubId)) =
        orgRole db e.orgId githubId := by
      cases ho : e.orgId with
      | none =>
        have horg : e.org = none := by simp [Engagement.org, ho]
        rw [horg]
        rfl
      | some o =>
        by_cases hempty : o.isEmpty
        · have horg : e.org = none := by
            rw [Engagement.org, ho, Option.filter_some, hempty]
            rfl
          rw [horg, orgRole]
          simp only [hempty, if_true]
          rfl
        · have horg : e.org = some o := by simp [Engagement.org, ho, hempty]
          rw [horg, Option.bind_some]
          exact h.orgRoles_eq githubId (List.mem_filterMap.mpr ⟨e, hmem, horg⟩)
    have hfound : foundRoles (orgRoles db (unowned.filterMap Engagement.org) githubId)
        (memberRoles db (unowned.map Engagement.id) githubId) e =
          (orgRole db e.orgId githubId).toList ++ (memberRole db e.id githubId).toList := by
      unfold foundRoles
      rw [horg, h.memberRoles_eq githubId (List.mem_map_of_mem hmem)]
    simp only [beq_eq_false_iff_ne.mpr hown, Bool.false_eq_true, if_false, Option.getD_some,
      List.nil_append, Option.map_some, hfound]
    rw [topRole_append (h.orgRole_filter githubId e.orgId), engagementAccess,
      beq_eq_false_iff_ne.mpr hown]
    rfl

/-- The list of ids holds exactly the engagements with a role, and a page shows for each
engagement the role that a single check finds, viewer when it finds none. -/
theorem bulk_access_agrees {db : Db} (h : db.Memberships) (githubId : String) :
    (∀ e ∈ db.engagements.rows, e.id ∈ accessibleEngagementIds db githubId ↔
      (engagementAccess db e githubId).isSome = true) ∧
    ∀ page : Page db, ∀ e ∈ page.rows, resolveRoles db page.rows githubId e.id =
      some ((engagementAccess db e githubId).getD "viewer") := by
  refine ⟨fun e he => ?_, fun page e he => resolveRoles_eq h page githubId he⟩
  rw [mem_accessibleEngagementIds he, accessible_eq_isSome h]

/-- A viewer of the organization who was invited as a member. -/
def exampleMemberships : Db :=
  { Db.empty with
    engagements := ⟨[{
      id := "n1", ownerGithubId := "owner", orgId := some "o1", engagementType := none
      engagementStatus := none, startsAt := none, endsAt := none, stopWorkAt := none
      maxRequestRate := none, concurrencyLimit := none, targetLimit := none, targetsSpent := 0
      durationLimit := none, durationAllocated := 0, managedAuthorityRevision := 0 }], by decide⟩
    members := [⟨"n1", "guest", "member"⟩]
    orgMembers := [⟨"o1", "guest", "viewer"⟩] }

theorem bulk_access_agrees_example :
    (accessibleEngagementIds exampleMemberships "guest" = ["n1"]) ∧
      ∃ page : Page exampleMemberships, ∃ e ∈ page.rows,
        resolveRoles exampleMemberships page.rows "guest" e.id =
            some ((engagementAccess exampleMemberships e "guest").getD "viewer") ∧
          engagementAccess exampleMemberships e "guest" = some "member" := by
  have h : exampleMemberships.Memberships := by
    refine ⟨?_, ?_, ?_, ?_, ?_⟩ <;> simp [exampleMemberships]
  refine ⟨by decide, ⟨exampleMemberships.engagements.rows, by decide, fun _ he => he⟩, _,
    List.mem_cons_self .., ?_, by decide⟩
  exact (bulk_access_agrees h "guest").2 ⟨_, by decide, fun _ he => he⟩ _ (List.mem_cons_self ..)

end VardrMap
