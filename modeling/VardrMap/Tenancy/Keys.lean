import VardrMap.Tenancy.Invitations

/-!
# Keys

A token speaks for whoever asked for its key, in the scope of the key and until the key is
revoked; and what the administration hands out stays within its limits.
-/
namespace VardrMap
open Lib

variable [Unicode] {rt : Runtime} {r r' : Realm} {es fs : List AccessEvent} {key : ApiKey}

/-! ## Keys that are issued -/

/-- A key was issued and not revoked since. -/
def Live (key : ApiKey) (es : List AccessEvent) : Prop :=
  ∃ before since, es = before ++ .issued key :: since ∧
    ∀ k, .revoked k ∈ since → k.id ≠ key.id

section
omit [Unicode]

theorem not_live_nil (key : ApiKey) : ¬Live key [] := by
  rintro ⟨before, since, h, -⟩
  simp at h

theorem live_concat {event : AccessEvent} :
    Live key (es ++ [event]) ↔
      event = .issued key ∨ Live key es ∧ ∀ k, event = .revoked k → k.id ≠ key.id := by
  constructor
  · rintro ⟨before, since, h, hsince⟩
    rcases List.eq_nil_or_concat since with rfl | ⟨since', last, rfl⟩
    · obtain ⟨-, hlast⟩ := List.append_inj' h rfl
      exact .inl (List.singleton_inj.mp hlast)
    · rw [List.concat_eq_append] at h hsince
      rw [← List.cons_append, ← List.append_assoc] at h
      obtain ⟨rfl, hlast⟩ := List.append_inj' h rfl
      obtain rfl := List.singleton_inj.mp hlast
      refine .inr ⟨⟨before, since', rfl, fun k hk => ?_⟩, fun k hk => ?_⟩
      · exact hsince k (List.mem_append_left _ hk)
      · exact hsince k (List.mem_append_right _ (List.mem_singleton.mpr hk.symm))
  · rintro (rfl | ⟨⟨before, since, rfl, hsince⟩, hevent⟩)
    · exact ⟨es, [], rfl, fun k hk => by cases hk⟩
    · refine ⟨before, since ++ [event], by simp, fun k hk => ?_⟩
      rcases List.mem_append.mp hk with hk | hk
      · exact hsince k hk
      · exact hevent k (List.mem_singleton.mp hk).symm

/-- The stored keys are those issued and not revoked, each under a digest of its own. -/
structure Realm.Keyed (r : Realm) (es : List AccessEvent) : Prop where
  live : ∀ key, key ∈ r.db.apiKeys.rows ↔ Live key es
  digests : (r.db.apiKeys.rows.map ApiKey.keyHash).Nodup

theorem Realm.Keyed.initial : Realm.initial.Keyed [] where
  live := fun key => iff_of_false List.not_mem_nil (not_live_nil key)
  digests := List.nodup_nil

/-- An event that is no key's leaves the keys. -/
theorem Realm.Keyed.concat {event : AccessEvent} (hr : r.Keyed es)
    (hkeys : r'.db.apiKeys = r.db.apiKeys) (hissued : ∀ key, event ≠ .issued key)
    (hrevoked : ∀ key, event ≠ .revoked key) : r'.Keyed (es ++ [event]) where
  live := fun key => by
    rw [hkeys, live_concat, hr.live key]
    exact ⟨fun h => .inr ⟨h, fun k hk => absurd hk (hrevoked k)⟩,
      fun h => h.elim (fun hk => absurd hk (hissued key)) And.left⟩
  digests := hkeys ▸ hr.digests

theorem Realm.Keyed.step (hr : r.Keyed es) (h : Realm.Does r fs r') : r'.Keyed (es ++ fs) := by
  cases h with
  | settled settled keys =>
    rw [List.append_nil]
    exact ⟨fun key => keys ▸ hr.live key, keys ▸ hr.digests⟩
  | deleted | founded | engaged =>
    rw [List.append_nil]
    exact ⟨hr.live, hr.digests⟩
  | invited | removed => exact hr.concat rfl nofun nofun
  | @issued new apiKeys room unique inserted =>
    have hrows := Table.rows_of_insert inserted
    refine ⟨fun key => ?_, ?_⟩
    · rw [live_concat]
      change key ∈ apiKeys.rows ↔ _
      rw [hrows, List.mem_append, List.mem_singleton, hr.live key]
      refine ⟨fun h => ?_, fun h => ?_⟩
      · rcases h with hlive | rfl
        · exact .inr ⟨hlive, nofun⟩
        · exact .inl rfl
      · rcases h with hnew | ⟨hlive, -⟩
        · exact .inr (AccessEvent.issued.inj hnew).symm
        · exact .inl hlive
    · change (apiKeys.rows.map ApiKey.keyHash).Nodup
      rw [hrows, List.map_append, List.map_cons, List.map_nil, List.nodup_append_comm,
        List.singleton_append, List.nodup_cons]
      refine ⟨fun hmem => ?_, hr.digests⟩
      obtain ⟨k, hk, hsame⟩ := List.mem_map.mp hmem
      exact unique k hk hsame
  | @revoked old stored =>
    refine ⟨fun key => ?_, hr.digests.sublist (List.Sublist.map _ List.filter_sublist)⟩
    rw [live_concat]
    change key ∈ r.db.apiKeys.rows.filter (fun k => k.id != old.id) ↔ _
    rw [List.mem_filter, hr.live key, bne_iff_ne]
    refine ⟨fun ⟨hlive, hne⟩ => .inr ⟨hlive, fun k hk => ?_⟩, fun h => ?_⟩
    · rw [← AccessEvent.revoked.inj hk]
      exact hne.symm
    · rcases h with hissued | ⟨hlive, hother⟩
      · cases hissued
      · exact ⟨hlive, (hother old rfl).symm⟩

theorem find?_digest {l : List ApiKey} (hl : (l.map ApiKey.keyHash).Nodup) {digest : String} :
    l.find? (fun k => k.keyHash == digest) = some key ↔ key ∈ l ∧ key.keyHash = digest := by
  constructor
  · intro h
    have hdigest := List.find?_some h
    exact ⟨List.mem_of_find?_eq_some h, beq_iff_eq.mp hdigest⟩
  rintro ⟨hmem, rfl⟩
  cases hfound : l.find? fun k => k.keyHash == key.keyHash with
  | none =>
    rw [List.find?_eq_none] at hfound
    exact absurd BEq.rfl (hfound key hmem)
  | some k =>
    have hk := List.mem_of_find?_eq_some hfound
    have hsame := List.find?_some hfound
    rw [beq_iff_eq] at hsame
    rw [List.inj_on_of_nodup_map hl hk hmem hsame]

end

theorem run_keyed (rt : Runtime) (inputs : List Realm.Input) :
    (Realm.run rt inputs).1.Keyed (Realm.run rt inputs).2 :=
  run_invariant (fun es r => r.Keyed es) .initial (fun hr h => hr.step h) rt inputs

/-- An issued key is that of the user who asked, and it has a scope. -/
theorem Realm.Asked.issued {inputs : List Realm.Input} {user : User} {since : List AccessEvent}
    (h : Realm.Asked rt inputs user (.issued key) since) :
    key.githubId = user.githubId ∧ key.scope.isEmpty = false := by
  obtain ⟨earlier, i, later, request, -, -, hasks, -⟩ := h.input
  cases hasks with
  | issue request user id random scope =>
    refine ⟨rfl, ?_⟩
    cases scope <;> rfl

/-- Whom a token speaks for, over all runs of the server and its administration: a token is
accepted as a user exactly when its digest is that of a key that this user asked for, with full
scope, and that was not revoked since; it then carries the scope of the key. -/
theorem token_speaks (rt : Runtime) (inputs : List Realm.Input) (token : Text) (user : User) :
    resolveApiKey (Realm.run rt inputs).1.db token = .ok user ↔
      ∃ asker key since, Realm.Asked rt inputs asker (.issued key) since ∧
        key.githubId = asker.githubId ∧ key.keyHash = Sha256.ofText token ∧
        (∀ k, .revoked k ∈ since → k.id ≠ key.id) ∧ user = ⟨asker.githubId, key.scope, none⟩ := by
  have hkeyed := run_keyed rt inputs
  constructor
  · intro h
    unfold resolveApiKey at h
    split at h
    · rename_i key hfound
      obtain ⟨hmem, hdigest⟩ := (find?_digest hkeyed.digests).mp hfound
      obtain ⟨before, since, hevents, hsince⟩ := (hkeyed.live key).mp hmem
      obtain ⟨asker, hasked⟩ := run_asked hevents
      obtain ⟨howner, hscope⟩ := hasked.issued
      refine ⟨asker, key, since, hasked, howner, hdigest, hsince, ?_⟩
      rw [hscope, if_neg Bool.false_ne_true] at h
      rw [← howner]
      exact (Except.ok.inj h).symm
    · cases h
  · rintro ⟨asker, key, since, hasked, howner, hdigest, hsince, rfl⟩
    obtain ⟨earlier, _, _, _, -, hevents, -⟩ := hasked.input
    have hlive : Live key (Realm.run rt inputs).2 := ⟨_, since, hevents, hsince⟩
    have hfound := (find?_digest hkeyed.digests).mpr ⟨(hkeyed.live key).mpr hlive, hdigest⟩
    unfold resolveApiKey
    rw [hfound]
    dsimp only
    rw [hasked.issued.2, if_neg Bool.false_ne_true, howner]

/-! ## Limits -/

/-- What the administration hands out is limited, and nobody is invited by himself or twice. -/
structure Realm.Bounded (r : Realm) (es : List AccessEvent) : Prop where
  members : ∀ id, r.db.members.countP (fun m => m.programId == id) ≤ maxMembers
  once : (r.db.members.map fun m => (m.programId, m.memberGithubId)).Nodup
  others : ∀ actor id githubId role, .invited actor id githubId role ∈ es → githubId ≠ actor
  keys : ∀ githubId, r.db.apiKeys.count (fun k => k.githubId == githubId) ≤ maxKeys

section
omit [Unicode]

theorem Realm.Bounded.initial : Realm.initial.Bounded [] where
  members := fun _ => Nat.zero_le _
  once := List.nodup_nil
  others := fun _ _ _ _ h => absurd h List.not_mem_nil
  keys := fun _ => Nat.zero_le _

/-- Fewer members are within the limits as well. -/
theorem Realm.Bounded.sublist (hr : r.Bounded es)
    (hmembers : r'.db.members.Sublist r.db.members) (hkeys : r'.db.apiKeys = r.db.apiKeys) :
    r'.Bounded es where
  members := fun id => (hmembers.countP_le).trans (hr.members id)
  once := hr.once.sublist (hmembers.map _)
  others := hr.others
  keys := fun githubId => hkeys ▸ hr.keys githubId

/-- An event that invites nobody. -/
theorem Realm.Bounded.concat (hr : r.Bounded es) (event : AccessEvent)
    (hevent : ∀ actor id githubId role, event ≠ .invited actor id githubId role) :
    r.Bounded (es ++ [event]) where
  members := hr.members
  once := hr.once
  others := fun actor id githubId role h => by
    rcases List.mem_append.mp h with h | h
    · exact hr.others actor id githubId role h
    · exact absurd (List.mem_singleton.mp h).symm (hevent actor id githubId role)
  keys := hr.keys

theorem Realm.Bounded.step (hr : r.Bounded es) (h : Realm.Does r fs r') :
    r'.Bounded (es ++ fs) := by
  cases h with
  | settled settled keys =>
    rw [List.append_nil]
    exact hr.sublist (settled.members ▸ List.Sublist.refl _) keys
  | deleted id =>
    rw [List.append_nil]
    exact hr.sublist List.filter_sublist rfl
  | founded | engaged =>
    rw [List.append_nil]
    exact hr.sublist (List.Sublist.refl _) rfl
  | @invited e id user role stored other new room =>
    refine ⟨fun id' => ?_, ?_, fun actor id' githubId role' h => ?_, hr.keys⟩
    · change (r.db.members ++ [(⟨id, user, role.text⟩ : EngagementMember)]).countP _ ≤ _
      rw [List.countP_append, List.countP_singleton]
      split
      · rename_i hsame
        obtain rfl : id = id' := beq_iff_eq.mp hsame
        exact room
      · exact hr.members id'
    · change ((r.db.members ++ [(⟨id, user, role.text⟩ : EngagementMember)]).map _).Nodup
      rw [List.map_append, List.map_cons, List.map_nil, List.nodup_append_comm,
        List.singleton_append, List.nodup_cons]
      refine ⟨fun hmem => ?_, hr.once⟩
      obtain ⟨m, hm, hsame⟩ := List.mem_map.mp hmem
      rw [List.find?_eq_none] at new
      exact new m hm (of_eq_true.mpr (Prod.mk.inj hsame))
    · rcases List.mem_append.mp h with h | h
      · exact hr.others actor id' githubId role' h
      · obtain ⟨rfl, -, rfl, -⟩ := AccessEvent.invited.inj (List.mem_singleton.mp h)
        exact other
  | @removed e id githubId stored =>
    have hfewer := hr.concat (.removed e.ownerGithubId id githubId) nofun
    exact hfewer.sublist List.filter_sublist rfl
  | @issued new apiKeys room unique inserted =>
    have hissued := hr.concat (.issued new) nofun
    refine ⟨hissued.members, hissued.once, hissued.others, fun githubId => ?_⟩
    change apiKeys.count _ ≤ _
    rw [Table.count_insert inserted]
    split
    · rename_i hsame
      rw [← beq_iff_eq.mp hsame]
      exact room
    · exact hr.keys githubId
  | @revoked old stored =>
    have hrevoked := hr.concat (.revoked old) nofun
    refine ⟨hrevoked.members, hrevoked.once, hrevoked.others, fun githubId => ?_⟩
    exact (Table.count_filter_le ..).trans (hr.keys githubId)

end

/-- The limits of access, over all runs of the server and its administration: an engagement has
at most so many members, each once and never its owner, and a user so many keys, each under a
digest of its own. -/
theorem access_limited (rt : Runtime) (inputs : List Realm.Input) :
    (∀ id, (Realm.run rt inputs).1.db.members.countP (fun m => m.programId == id) ≤ maxMembers) ∧
      ((Realm.run rt inputs).1.db.members.map
        fun m => (m.programId, m.memberGithubId)).Nodup ∧
      (∀ m ∈ (Realm.run rt inputs).1.db.members, ∀ e,
        (Realm.run rt inputs).1.db.engagements.get? m.programId = some e →
          m.memberGithubId ≠ e.ownerGithubId) ∧
      (∀ githubId,
        (Realm.run rt inputs).1.db.apiKeys.count (fun k => k.githubId == githubId) ≤ maxKeys) ∧
      ((Realm.run rt inputs).1.db.apiKeys.rows.map ApiKey.keyHash).Nodup := by
  have hbounded : (Realm.run rt inputs).1.Bounded (Realm.run rt inputs).2 :=
    run_invariant (fun es r => r.Bounded es) .initial (fun hr h => hr.step h) rt inputs
  refine ⟨hbounded.members, hbounded.once, fun m hm e he howner => ?_, hbounded.keys,
    (run_keyed rt inputs).digests⟩
  have hgranted := run_granted rt inputs
  have hrole : (memberRole (Realm.run rt inputs).1.db m.programId m.memberGithubId).isSome := by
    rw [memberRole_isSome, List.any_eq_true]
    exact ⟨m, hm, by simp⟩
  rw [hgranted.roles m.programId e he, Option.isSome_map] at hrole
  obtain ⟨role, hrole⟩ := Option.isSome_iff_exists.mp hrole
  obtain ⟨before, actor, since, hevents, -⟩ := standing_eq_some hrole
  have hmem : AccessEvent.invited actor m.programId m.memberGithubId role ∈
      (Realm.run rt inputs).2 := by
    rw [hevents]
    exact List.mem_append_right _ (List.mem_cons_self ..)
  have hactor := (hgranted.actors _ hmem actor m.programId rfl).2 e he
  exact hbounded.others actor m.programId m.memberGithubId role hmem (howner.trans hactor.symm)

end VardrMap
