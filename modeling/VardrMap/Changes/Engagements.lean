import VardrMap.Changes

/-!
# Changes of the engagement routes

Each operation on an engagement or on its records as a sequence of changes. An operation
that writes a fact raises the revision in the same change.
-/
namespace VardrMap
open Lib

variable [Unicode] {rt : Runtime}

/-! ## Amended facts -/

/-- A raised revision allows any records of the engagement. -/
theorem Amends.advance {db : Db} {e : Engagement} {scopeItems : Table ScopeItem}
    {authorizations : Table Authorization} {testCases : Table AuthorizationTestCase}
    {ids : List String} (he : db.engagements.get? e.id = some e)
    (hscope : ∀ id, id ≠ e.id → (scopeItems.rows.filter fun r => r.programId == id) = db.scopeOf id)
    (hauth : ∀ id, id ≠ e.id →
      (authorizations.rows.filter fun a => a.programId == id) = db.authorizationsOf id)
    (hcases : ∀ id k, id ≠ e.id →
      ((testCases.get? k).filter fun c => c.programId == id).map AuthorizationTestCase.spec =
        db.specOf id k)
    (hknown : ∀ k c, testCases.get? k = some c → k ∈ ids ∨ ∃ c, db.testCases.get? k = some c) :
    Amends db { db with
      engagements := db.engagements.put e.advance, scopeItems, authorizations, testCases, ids } e
      e.advance where
  stored := he
  id_eq := rfl
  targetsSpent_eq := rfl
  durationAllocated_eq := rfl
  stopWork := .inl rfl
  targets_le := .inr rfl
  duration_le := .inr rfl
  idle := .inr rfl
  revision_le := Nat.le_succ _
  facts_eq := fun h => absurd h (Nat.succ_ne_self _)
  others := fun id hid => ⟨hscope id hid, hauth id hid⟩
  cases := fun id k _ hne => by
    by_cases hid : id = e.id
    · exact ⟨hid, Nat.lt_succ_self _⟩
    · exact absurd (hcases id k hid) hne
  cases_known := hknown

omit [Unicode] in
theorem bump_facts (db : Db) (e : Engagement) (changed : Bool) :
    db.facts (e.bump changed) = db.facts e := by
  unfold Engagement.bump
  split <;> rfl

omit [Unicode] in
/-- A bump changes the revision alone. -/
theorem bump_eq (e : Engagement) (changed : Bool) :
    ∃ n, e.bump changed = { e with managedAuthorityRevision := e.managedAuthorityRevision + n } ∧
      (changed = false ↔ n = 0) := by
  cases changed with
  | false => exact ⟨0, rfl, by simp⟩
  | true => exact ⟨1, rfl, by simp⟩

/-- A write of an engagement's columns, with a bump when a fact changes. -/
theorem Amends.bumped {db : Db} {e e' : Engagement} {changed : Bool}
    (he : db.engagements.get? e.id = some e) (hid : e'.id = e.id)
    (htargets : e'.targetsSpent = e.targetsSpent)
    (hduration : e'.durationAllocated = e.durationAllocated)
    (hrevision : e'.managedAuthorityRevision = e.managedAuthorityRevision)
    (hstop : e'.stopWorkAt = e.stopWorkAt ∨ e'.stopWorkAt = none)
    (htargets_le : e'.targetsSpent ≤ e'.targetLimit.getD 0 ∨ e'.targetLimit = e.targetLimit)
    (hduration_le : e'.durationAllocated ≤ e'.durationLimit.getD 0 ∨
      e'.durationLimit = e.durationLimit)
    (hidle : db.reserved e.id = 0 ∨ e'.concurrencyLimit = e.concurrencyLimit)
    (hsame : changed = false → db.facts e' = db.facts e) :
    Amends db { db with
      engagements := db.engagements.put (e'.bump changed), scopeItems := db.scopeItems
      authorizations := db.authorizations, testCases := db.testCases, ids := db.ids } e
      (e'.bump changed) := by
  have hfacts := bump_facts db e' changed
  obtain ⟨n, hn, hzero⟩ := bump_eq e' changed
  rw [hn] at hfacts ⊢
  exact {
    stored := he
    id_eq := hid
    targetsSpent_eq := htargets
    durationAllocated_eq := hduration
    stopWork := hstop
    targets_le := htargets_le
    duration_le := hduration_le
    idle := hidle
    revision_le := by
      change _ ≤ e'.managedAuthorityRevision + n
      omega
    facts_eq := fun h => by
      have h : e'.managedAuthorityRevision + n = e.managedAuthorityRevision := h
      exact hfacts.trans (hsame (hzero.mpr (by omega)))
    others := fun _ _ => ⟨rfl, rfl⟩
    cases := fun _ _ _ hne => absurd rfl hne
    cases_known := fun _ c h => .inr ⟨c, h⟩ }

/-- A write of an engagement's columns. -/
theorem amended_columns {db : Db} {e e' : Engagement}
    (h : Amends db { db with
      engagements := db.engagements.put e', scopeItems := db.scopeItems
      authorizations := db.authorizations, testCases := db.testCases, ids := db.ids } e e') :
    Changes rt db [] (db.putEngagement e') :=
  .single (.amended (List.Subset.refl _) h)

omit [Unicode] in
/-- What an assignment does not change, it leaves as it is stored. -/
theorem assign_of_not_differs {α : Type} {same : α → α → Bool} {stored : α} {value : Option α}
    (h : differs same stored value = false) : assign same stored value = stored := by
  cases value with
  | none => rfl
  | some v =>
    have hsame : same stored v = true := by simpa [differs] using h
    simp [assign, hsame]

/-- Changes of other tables only. -/
theorem changes_aside {db : Db} (members : List EngagementMember)
    (orgMembers : List OrganizationMember) (proposals : Table AgentProposal)
    {ids : List String} (observed : Option Instant) (known : db.ids ⊆ ids) :
    Changes rt db [] { db with members, orgMembers, proposals, ids, observed } :=
  .single (.aside members orgMembers proposals ids observed known)

theorem changes_observed (db : Db) (observed : Option Instant) :
    Changes rt db [] { db with observed } :=
  changes_aside db.members db.orgMembers db.proposals observed (List.Subset.refl _)

theorem changes_minted (db : Db) (id : String) : Changes rt db [] (db.minted id) :=
  changes_aside db.members db.orgMembers db.proposals db.observed
    (List.subset_cons_self id _)

theorem changes_proposals (db : Db) (proposals : Table AgentProposal) :
    Changes rt db [] { db with proposals } :=
  changes_aside db.members db.orgMembers proposals db.observed (List.Subset.refl _)

/-- Changes one after the other, without events. -/
theorem changes_trans {db₁ db₂ db₃ : Db} (h : Changes rt db₁ [] db₂)
    (h' : Changes rt db₂ [] db₃) : Changes rt db₁ [] db₃ := h.trans h'

/-! ## The engagement itself -/

omit [Unicode] in
theorem mint_eq_ok [Unicode] {db : Db} {id : String} {u : Unit} (h : mint db id = .ok u) :
    id ∉ db.ids ∧ Text.strip id.toList = id.toList := by
  have h := ensure_eq_ok h
  simpa using h

theorem createEngagement_changes {p : Platform} {request : HttpRequest} {c : EngagementCreate}
    {db db' : Db} {reply : Reply} (h : createEngagement p request c db = .ok (db', reply)) :
    Changes rt db [] db' := by
  obtain ⟨user, -, h⟩ := bind_eq_ok h
  obtain ⟨_, hmint, h⟩ := bind_eq_ok h
  obtain ⟨engagements, hinsert, h⟩ := bind_eq_ok h
  dsimp only at h
  obtain ⟨rfl, -⟩ := Prod.mk.inj (Except.ok.inj h)
  have hstored := found_eq_ok hinsert
  refine changes_trans (.single (.engaged (mint_eq_ok hmint).1 ⟨rfl, rfl⟩ hstored)) ?_
  exact changes_aside db.members _ db.proposals db.observed (List.Subset.refl _)

omit [Unicode] in
theorem ownEngagement_eq_ok {db : Db} {programId : String} {user : User} {e : Engagement}
    (h : ownEngagement db programId user = .ok e) : db.engagements.get? e.id = some e := by
  obtain ⟨e', he, h⟩ := bind_eq_ok h
  obtain ⟨_, -, h⟩ := bind_eq_ok h
  obtain rfl := Except.ok.inj h
  have he := getEngagement_eq_ok he
  have hid : e'.id = programId := Table.key_of_get? he
  rwa [hid]

omit [Unicode] in
theorem writableEngagement_stored {db : Db} {programId : String} {user : User} {e : Engagement}
    (h : writableEngagement db programId user = .ok e) :
    db.engagements.get? e.id = some e ∧ e.id = programId := by
  have he := writableEngagement_eq_ok h
  have hid : e.id = programId := Table.key_of_get? he
  exact ⟨hid ▸ he, hid⟩

theorem update_amends {p : Platform} {db : Db} {e : Engagement}
    (he : db.engagements.get? e.id = some e) (u : EngagementUpdate) :
    Amends db { db with
      engagements := db.engagements.put (e.update p u), scopeItems := db.scopeItems
      authorizations := db.authorizations, testCases := db.testCases, ids := db.ids } e
      (e.update p u) := by
  refine .bumped he rfl rfl rfl rfl (.inl rfl) (.inr rfl) (.inr rfl) (.inr rfl) fun hsame => ?_
  simp only [Bool.or_eq_false_iff] at hsame
  simp only [Db.facts, assign_of_not_differs hsame.1.1.1.1, assign_of_not_differs hsame.1.1.1.2]

theorem updateEngagement_changes {p : Platform} {request : HttpRequest} {programId : String}
    {u : EngagementUpdate} {db db' : Db} {reply : Reply}
    (h : updateEngagement p request programId u db = .ok (db', reply)) :
    Changes rt db [] db' := by
  obtain ⟨user, -, h⟩ := bind_eq_ok h
  obtain ⟨e, he, h⟩ := bind_eq_ok h
  obtain ⟨rfl, -⟩ := Prod.mk.inj (Except.ok.inj h)
  exact amended_columns (update_amends (ownEngagement_eq_ok he) u)

/-- The jobs of an engagement go first, then its own row and records. -/
theorem deleteEngagement_changes {p : Platform} {request : HttpRequest} {programId : String}
    {db db' : Db} {reply : Reply} (h : deleteEngagement p request programId db = .ok (db', reply)) :
    Changes rt db [] db' := by
  obtain ⟨user, -, h⟩ := bind_eq_ok h
  obtain ⟨e, -, h⟩ := bind_eq_ok h
  have hcommit : db' = db.dropEngagement programId := by
    split at h
    · obtain ⟨_, -, h⟩ := bind_eq_ok h
      obtain ⟨_, -, h⟩ := bind_eq_ok h
      obtain ⟨_, -, h⟩ := bind_eq_ok h
      exact (Prod.mk.inj (Except.ok.inj h)).1.symm
    · obtain ⟨_, -, h⟩ := bind_eq_ok h
      obtain ⟨_, -, h⟩ := bind_eq_ok h
      exact (Prod.mk.inj (Except.ok.inj h)).1.symm
  subst hcommit
  refine changes_trans (.single (.dropped fun j => j.programId != programId)) ?_
  refine changes_trans (.single (.disengaged programId fun k j hj => ?_)) ?_
  · have hj : ((db.jobs.filter fun j => j.programId != programId).get? k) = some j := hj
    rw [Table.get?_filter, Option.filter_eq_some_iff] at hj
    simpa using hj.2
  · exact changes_aside _ _ _ db.observed (List.Subset.refl _)

/-! ## Limits -/

theorem idleEngagement_eq_ok {p : Platform} {request : HttpRequest} {programId : String}
    {db : Db} {e : Engagement} (h : idleEngagement p request programId db = .ok e) :
    db.engagements.get? e.id = some e ∧ db.reserved e.id = 0 := by
  obtain ⟨user, -, h⟩ := bind_eq_ok h
  obtain ⟨_, -, h⟩ := bind_eq_ok h
  obtain ⟨e', he, h⟩ := bind_eq_ok h
  obtain ⟨_, hidle, h⟩ := bind_eq_ok h
  obtain rfl := Except.ok.inj h
  have hstored := ownEngagement_eq_ok he
  obtain ⟨e'', hget, h⟩ := bind_eq_ok he
  obtain ⟨_, -, h⟩ := bind_eq_ok h
  obtain rfl := Except.ok.inj h
  have hid : e''.id = programId := Table.key_of_get? (getEngagement_eq_ok hget)
  exact ⟨hstored, hid ▸ (requireIdle_eq_ok hidle).1⟩

omit [Unicode] in
theorem covers_le {limit : Option ℕ} {used : ℕ} (h : covers limit used = true) :
    used ≤ limit.getD 0 := by
  cases limit <;> simp_all [covers]

theorem configureDuration_changes {p : Platform} {request : HttpRequest} {programId : String}
    {limit : Option ℕ} {db db' : Db} {reply : Reply}
    (h : configureDuration p request programId limit db = .ok (db', reply)) :
    Changes rt db [] db' := by
  obtain ⟨e, he, h⟩ := bind_eq_ok h
  obtain ⟨_, hcovers, h⟩ := bind_eq_ok h
  obtain ⟨rfl, -⟩ := Prod.mk.inj (Except.ok.inj h)
  obtain ⟨hstored, hidle⟩ := idleEngagement_eq_ok he
  refine amended_columns (.bumped hstored rfl rfl rfl rfl (.inl rfl) (.inr rfl)
    (.inl (covers_le (ensure_eq_ok hcovers))) (.inl hidle) fun hsame => ?_)
  obtain rfl : e.durationLimit = limit := by simpa using hsame
  rfl

theorem configureTargets_changes {p : Platform} {request : HttpRequest} {programId : String}
    {limit : Option ℕ} {db db' : Db} {reply : Reply}
    (h : configureTargets p request programId limit db = .ok (db', reply)) :
    Changes rt db [] db' := by
  obtain ⟨e, he, h⟩ := bind_eq_ok h
  obtain ⟨_, hcovers, h⟩ := bind_eq_ok h
  obtain ⟨rfl, -⟩ := Prod.mk.inj (Except.ok.inj h)
  obtain ⟨hstored, hidle⟩ := idleEngagement_eq_ok he
  refine amended_columns (.bumped hstored rfl rfl rfl rfl (.inl rfl)
    (.inl (covers_le (ensure_eq_ok hcovers))) (.inr rfl) (.inl hidle) fun hsame => ?_)
  obtain rfl : e.targetLimit = limit := by simpa using hsame
  rfl

theorem configureConcurrency_changes {p : Platform} {request : HttpRequest} {programId : String}
    {limit : Option ℕ} {db db' : Db} {reply : Reply}
    (h : configureConcurrency p request programId limit db = .ok (db', reply)) :
    Changes rt db [] db' := by
  obtain ⟨e, he, h⟩ := bind_eq_ok h
  obtain ⟨rfl, -⟩ := Prod.mk.inj (Except.ok.inj h)
  obtain ⟨hstored, hidle⟩ := idleEngagement_eq_ok he
  refine amended_columns (.bumped hstored rfl rfl rfl rfl (.inl rfl) (.inr rfl) (.inr rfl)
    (.inl hidle) fun hsame => ?_)
  obtain rfl : e.concurrencyLimit = limit := by simpa using hsame
  rfl

/-! ## Stop-work -/

theorem engageStopWork_changes {p : Platform} {clocks : Clocks} {request : HttpRequest}
    {programId : String} {db db' : Db} {reply : Reply}
    (h : engageStopWork p clocks request programId db = .ok (db', reply)) :
    Changes rt db [] db' := by
  obtain ⟨user, -, h⟩ := bind_eq_ok h
  obtain ⟨e, he, h⟩ := bind_eq_ok h
  dsimp only at h
  obtain ⟨rfl, -⟩ := Prod.mk.inj (Except.ok.inj h)
  obtain ⟨hstored, rfl⟩ := writableEngagement_stored he
  exact .single (.halted (clocks.wall 0).instant hstored)

theorem releaseStopWork_changes {p : Platform} {request : HttpRequest} {programId : String}
    {db db' : Db} {reply : Reply} (h : releaseStopWork p request programId db = .ok (db', reply)) :
    Changes rt db [] db' := by
  obtain ⟨user, -, h⟩ := bind_eq_ok h
  obtain ⟨e, he, h⟩ := bind_eq_ok h
  obtain ⟨rfl, -⟩ := Prod.mk.inj (Except.ok.inj h)
  refine amended_columns (.bumped (ownEngagement_eq_ok he) rfl rfl rfl rfl (.inr rfl) (.inr rfl)
    (.inr rfl) (.inr rfl) fun hsame => ?_)
  have hnone : e.stopWorkAt = none := by simpa using hsame
  simp [Db.facts, hnone]

end VardrMap
