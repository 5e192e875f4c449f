import VardrMap.Changes.Engagements

/-!
# Changes of the records of an engagement

Scope rows, authorizations, applied proposals and test cases as sequences of changes. Each
raises the revision of its engagement, apart from a test case under a new identifier.
-/
namespace VardrMap
open Lib

variable [Unicode] {rt : Runtime}

/-! ## Raising the revision -/

theorem amended_scope {db : Db} {e : Engagement} {scopeItems : Table ScopeItem}
    {ids : List String} (he : db.engagements.get? e.id = some e) (known : db.ids ⊆ ids)
    (hscope : ∀ id, id ≠ e.id →
      (scopeItems.rows.filter fun r => r.programId == id) = db.scopeOf id) :
    Changes rt db [] { db.putEngagement e.advance with scopeItems, ids } :=
  .single (.amended known
    (.advance he hscope (fun _ _ => rfl) (fun _ _ _ => rfl) fun _ c h => .inr ⟨c, h⟩))

theorem amended_authorizations {db : Db} {e : Engagement}
    {authorizations : Table Authorization} {ids : List String}
    (he : db.engagements.get? e.id = some e) (known : db.ids ⊆ ids)
    (hauth : ∀ id, id ≠ e.id →
      (authorizations.rows.filter fun a => a.programId == id) = db.authorizationsOf id) :
    Changes rt db [] { db.putEngagement e.advance with authorizations, ids } :=
  .single (.amended known
    (.advance he (fun _ _ => rfl) hauth (fun _ _ _ => rfl) fun _ c h => .inr ⟨c, h⟩))

/-! ## Scope -/

/-- Added rows are rows of their engagement. -/
theorem addRows_eq_ok {programId : String} {rows : List ImportRow} {db db' : Db}
    (h : addRows programId rows db = .ok db') :
    ∃ scopeItems ids, db.ids ⊆ ids ∧
      (∀ id, id ≠ programId →
        (scopeItems.rows.filter fun r => r.programId == id) = db.scopeOf id) ∧
      db' = { db with scopeItems, ids } := by
  induction rows generalizing db with
  | nil =>
    obtain rfl := Except.ok.inj h
    exact ⟨db.scopeItems, db.ids, List.Subset.refl _, fun _ _ => rfl, rfl⟩
  | cons row rows ih =>
    obtain ⟨db₁, hadd, h⟩ := bind_eq_ok h
    obtain ⟨scopeItems₁, -, hinsert, rfl⟩ := addScopeItem_eq_ok hadd
    obtain ⟨scopeItems, ids, hknown, hother, rfl⟩ := ih h
    refine ⟨scopeItems, ids, fun id hid => hknown (List.mem_cons_of_mem _ hid), fun id hid => ?_, rfl⟩
    exact (hother id hid).trans (Table.select_insert hinsert (by simpa using Ne.symm hid))

theorem addScopeItem_changes {db db' : Db} {e : Engagement} {item : ScopeItem}
    (he : db.engagements.get? e.id = some e) (hitem : item.programId = e.id)
    (h : (db.putEngagement e.advance).addScopeItem item = .ok db') : Changes rt db [] db' := by
  obtain ⟨scopeItems, -, hinsert, rfl⟩ := addScopeItem_eq_ok h
  refine amended_scope (e := e) he (List.subset_cons_self _ _) fun id hid => ?_
  exact Table.select_insert hinsert (by simpa [hitem] using Ne.symm hid)

theorem addScope_changes {p : Platform} {request : HttpRequest}
    {programId id scopeType value : String} {kind : Option String} {db db' : Db} {reply : Reply}
    (h : addScopeItem p request programId id scopeType value kind db = .ok (db', reply)) :
    Changes rt db [] db' := by
  obtain ⟨user, -, h⟩ := bind_eq_ok h
  obtain ⟨e, he, h⟩ := bind_eq_ok h
  obtain ⟨db₁, hadd, h⟩ := bind_eq_ok h
  obtain ⟨rfl, -⟩ := Prod.mk.inj (Except.ok.inj h)
  obtain ⟨hstored, hid⟩ := writableEngagement_stored he
  exact addScopeItem_changes hstored hid.symm hadd

theorem deleteScopeItem_changes {p : Platform} {request : HttpRequest}
    {programId scopeType itemId : String} {db db' : Db} {reply : Reply}
    (h : deleteScopeItem p request programId scopeType itemId db = .ok (db', reply)) :
    Changes rt db [] db' := by
  obtain ⟨user, -, h⟩ := bind_eq_ok h
  obtain ⟨_, -, h⟩ := bind_eq_ok h
  obtain ⟨e, he, h⟩ := bind_eq_ok h
  obtain ⟨r, hr, h⟩ := bind_eq_ok h
  obtain ⟨rfl, -⟩ := Prod.mk.inj (Except.ok.inj h)
  obtain ⟨hstored, rfl⟩ := writableEngagement_stored he
  obtain ⟨hget, hprogram⟩ := Option.filter_eq_some_iff.mp (found_eq_ok hr)
  simp only [Bool.and_eq_true, beq_iff_eq] at hprogram
  refine amended_scope (e := e) hstored (List.Subset.refl _) fun id hid => ?_
  -- The row under the deleted identifier is one of this engagement.
  refine Table.select_filter fun r' hr' hid' => ?_
  have hne : r'.id ≠ itemId := fun hk => by
    obtain rfl : r' = r :=
      Table.eq_of_key hr' (Table.mem_of_get? hget) (hk.trans (Table.key_of_get? hget).symm)
    exact hid ((eq_of_beq hid').symm.trans hprogram.1)
  simpa using hne

theorem importScope_changes {p : Platform} {request : HttpRequest} {programId : String}
    {rows : List ImportRow} {commit : Bool} {db db' : Db} {reply : Reply}
    (h : importScope p request programId rows commit db = .ok (db', reply)) :
    Changes rt db [] db' := by
  obtain ⟨user, -, h⟩ := bind_eq_ok h
  obtain ⟨e, he, h⟩ := bind_eq_ok h
  dsimp only at h
  split at h
  · obtain ⟨rfl, -⟩ := Prod.mk.inj (Except.ok.inj h)
    exact .refl _
  · obtain ⟨db₁, hadd, h⟩ := bind_eq_ok h
    obtain ⟨rfl, -⟩ := Prod.mk.inj (Except.ok.inj h)
    obtain ⟨hstored, rfl⟩ := writableEngagement_stored he
    obtain ⟨scopeItems, ids, hknown, hother, rfl⟩ := addRows_eq_ok hadd
    exact amended_scope hstored hknown hother

/-! ## Authorizations -/

theorem addAuthorization_changes {db db' : Db} {e : Engagement} {row : Authorization}
    (he : db.engagements.get? e.id = some e) (hrow : row.programId = e.id)
    (h : (db.putEngagement e.advance).addAuthorization row = .ok db') :
    Changes rt db [] db' := by
  obtain ⟨authorizations, -, hinsert, rfl⟩ := addAuthorization_eq_ok h
  refine amended_authorizations (e := e) he (List.subset_cons_self _ _) fun id hid => ?_
  exact Table.select_insert hinsert (by simpa [hrow] using Ne.symm hid)

theorem createAuthorization_changes {p : Platform} {request : HttpRequest} {programId : String}
    {c : AuthorizationCreate} {db db' : Db} {reply : Reply}
    (h : createAuthorization p request programId c db = .ok (db', reply)) :
    Changes rt db [] db' := by
  obtain ⟨user, -, h⟩ := bind_eq_ok h
  obtain ⟨e, he, h⟩ := bind_eq_ok h
  obtain ⟨db₁, hadd, h⟩ := bind_eq_ok h
  obtain ⟨rfl, -⟩ := Prod.mk.inj (Except.ok.inj h)
  obtain ⟨hstored, hid⟩ := writableEngagement_stored he
  exact addAuthorization_changes hstored hid.symm hadd

omit [Unicode] in
theorem assignDate_of_not_differs {p : Platform} {stored : Option DateTime}
    {value : Option (Option DateTime)} (h : differs sameDate stored value = false) :
    assignDate p stored value = stored := by
  simp [assignDate, h]

omit [Unicode] in
/-- An update without a change leaves the authorization as it is stored. -/
theorem update_of_not_changedBy {p : Platform} {a : Authorization} {u : AuthorizationUpdate}
    (h : a.changedBy u = false) : a.update p u = a := by
  simp only [Authorization.changedBy, Bool.or_eq_false_iff] at h
  obtain ⟨⟨⟨⟨⟨⟨hpermits, hby⟩, hat⟩, href⟩, hstart⟩, hend⟩, hstatus⟩ := h
  simp only [Authorization.update, assign_of_not_differs hpermits, assign_of_not_differs hby,
    assign_of_not_differs href, assign_of_not_differs hstatus, assignDate_of_not_differs hat,
    assignDate_of_not_differs hstart, assignDate_of_not_differs hend]

theorem updateAuthorization_changes {p : Platform} {request : HttpRequest}
    {programId authorizationId : String} {u : AuthorizationUpdate} {db db' : Db} {reply : Reply}
    (h : updateAuthorization p request programId authorizationId u db = .ok (db', reply)) :
    Changes rt db [] db' := by
  obtain ⟨user, -, h⟩ := bind_eq_ok h
  obtain ⟨e, he, h⟩ := bind_eq_ok h
  obtain ⟨a, ha, h⟩ := bind_eq_ok h
  obtain ⟨rfl, -⟩ := Prod.mk.inj (Except.ok.inj h)
  obtain ⟨hstored, rfl⟩ := writableEngagement_stored he
  obtain ⟨hget, hprogram⟩ := Option.filter_eq_some_iff.mp (found_eq_ok ha)
  obtain rfl : a.id = authorizationId := Table.key_of_get? hget
  cases hchanged : a.changedBy u with
  | false =>
    rw [update_of_not_changedBy hchanged, Table.put_of_get? hget]
    exact amended_columns (.bumped hstored rfl rfl rfl rfl (.inl rfl) (.inr rfl) (.inr rfl) (.inr rfl)
      fun _ => rfl)
  | true =>
    refine amended_authorizations hstored (List.Subset.refl _) fun id hid => ?_
    have hother : (a.programId == id) = false := by
      rw [eq_of_beq hprogram]
      simpa using Ne.symm hid
    exact Table.select_put (r := a.update p u) hget hother hother

/-! ## Proposals -/

theorem createProposal_changes {p : Platform} {request : HttpRequest} {programId id : String}
    {change : ProposedChange} {db db' : Db} {reply : Reply}
    (h : createProposal p request programId id change db = .ok (db', reply)) :
    Changes rt db [] db' := by
  obtain ⟨user, -, h⟩ := bind_eq_ok h
  obtain ⟨e, -, h⟩ := bind_eq_ok h
  obtain ⟨_, -, h⟩ := bind_eq_ok h
  obtain ⟨_, -, h⟩ := bind_eq_ok h
  obtain ⟨proposals, -, h⟩ := bind_eq_ok h
  obtain ⟨rfl, -⟩ := Prod.mk.inj (Except.ok.inj h)
  exact changes_trans (changes_minted db id) (changes_proposals _ proposals)

theorem applyProposal_changes {p : Platform} {db db' : Db} {e : Engagement}
    {newId applied : String} {change : ProposedChange}
    (he : db.engagements.get? e.id = some e)
    (h : applyProposal p db e newId change = .ok (db', applied)) : Changes rt db [] db' := by
  cases change with
  | scope =>
    obtain ⟨db₁, hadd, h⟩ := bind_eq_ok h
    obtain ⟨rfl, -⟩ := Prod.mk.inj (Except.ok.inj h)
    exact addScopeItem_changes he rfl hadd
  | authorization =>
    obtain ⟨db₁, hadd, h⟩ := bind_eq_ok h
    obtain ⟨rfl, -⟩ := Prod.mk.inj (Except.ok.inj h)
    exact addAuthorization_changes he rfl hadd
  | rateCeiling rate =>
    obtain ⟨rfl, -⟩ := Prod.mk.inj (Except.ok.inj h)
    have hamends : Amends db (db.putEngagement ({ e with maxRequestRate := some rate }.bump true)) e
        ({ e with maxRequestRate := some rate }.bump true) :=
      .bumped he rfl rfl rfl rfl (.inl rfl) (.inr rfl) (.inr rfl) (.inr rfl) nofun
    exact amended_columns hamends

theorem approveProposal_changes {p : Platform} {clocks : Clocks} {request : HttpRequest}
    {programId proposalId newId : String} {db db' : Db} {reply : Reply}
    (h : approveProposal p clocks request programId proposalId newId db = .ok (db', reply)) :
    Changes rt db [] db' := by
  obtain ⟨user, e, c, db₁, applied, he, -, -, happly, rfl⟩ := approveProposal_eq_ok h
  obtain rfl : e.id = programId := Table.key_of_get? he
  exact changes_trans (applyProposal_changes he happly) (changes_proposals db₁ _)

theorem rejectProposal_changes {p : Platform} {clocks : Clocks} {request : HttpRequest}
    {programId proposalId : String} {db db' : Db} {reply : Reply}
    (h : rejectProposal p clocks request programId proposalId db = .ok (db', reply)) :
    Changes rt db [] db' := by
  obtain ⟨user, c, -, -, rfl⟩ := rejectProposal_eq_ok h
  exact changes_proposals db _

/-! ## Test cases -/

theorem addTestCase_changes {p : Platform} {programId : String} {createdAt : Instant}
    {c : TestCaseCreate} {db db' : Db} {e : Engagement} (he : db.engagements.get? e.id = some e)
    (h : db.addTestCase p programId createdAt c = .ok db') :
    Changes rt db [] db' ∧ db'.engagements = db.engagements := by
  obtain ⟨spec, -, h⟩ := bind_eq_ok h
  obtain ⟨testCaseId, -, h⟩ := bind_eq_ok h
  obtain ⟨_, hmint, h⟩ := bind_eq_ok h
  obtain ⟨testCases, hinsert, h⟩ := bind_eq_ok h
  obtain rfl := Except.ok.inj h
  obtain ⟨hnew, hstrip⟩ := mint_eq_ok hmint
  have hget := Table.get?_insert (found_eq_ok hinsert)
  refine ⟨?_, rfl⟩
  have hamends : Amends db { db with
      engagements := db.engagements.put e, scopeItems := db.scopeItems
      authorizations := db.authorizations, testCases, ids := c.id :: db.ids } e e := {
    stored := he
    id_eq := rfl
    targetsSpent_eq := rfl
    durationAllocated_eq := rfl
    stopWork := .inl rfl
    targets_le := .inr rfl
    duration_le := .inr rfl
    idle := .inr rfl
    revision_le := le_rfl
    facts_eq := fun _ => rfl
    others := fun _ _ => ⟨rfl, rfl⟩
    cases := fun id k hspent hne => by
      have hk : c.id ≠ k := by
        rintro rfl
        exact hspent.elim hnew fun h => h hstrip
      refine absurd ?_ hne
      simp [Db.specOf, hget, Keyed.key, hk]
    cases_known := fun k row hrow => by
      rw [hget] at hrow
      split at hrow
      · rename_i hk
        exact .inl (hk ▸ List.mem_cons_self ..)
      · exact .inr ⟨row, hrow⟩ }
  have hchange : Change rt db [] _ := .amended (List.subset_cons_self c.id _) hamends
  rw [Table.put_of_get? he] at hchange
  exact .single hchange

theorem addTestCases_changes {p : Platform} {programId : String} {createdAt : Instant}
    {cases : List TestCaseCreate} {db db' : Db} {e : Engagement}
    (he : db.engagements.get? e.id = some e)
    (h : addTestCases p programId createdAt cases db = .ok db') : Changes rt db [] db' := by
  induction cases generalizing db with
  | nil =>
    obtain rfl := Except.ok.inj h
    exact .refl _
  | cons c cases ih =>
    obtain ⟨db₁, hadd, h⟩ := bind_eq_ok h
    obtain ⟨hchanges, hsame⟩ := addTestCase_changes he hadd
    exact changes_trans hchanges (ih (hsame ▸ he) h)

theorem createTestCase_changes {p : Platform} {clocks : Clocks} {request : HttpRequest}
    {programId : String} {c : TestCaseCreate} {db db' : Db} {reply : Reply}
    (h : createTestCase p clocks request programId c db = .ok (db', reply)) :
    Changes rt db [] db' := by
  obtain ⟨user, -, h⟩ := bind_eq_ok h
  obtain ⟨e, he, h⟩ := bind_eq_ok h
  obtain ⟨db₁, hadd, h⟩ := bind_eq_ok h
  obtain ⟨rfl, -⟩ := Prod.mk.inj (Except.ok.inj h)
  exact (addTestCase_changes (writableEngagement_stored he).1 hadd).1

theorem saveReviewedCases_changes {p : Platform} {clocks : Clocks} {request : HttpRequest}
    {programId : String} {cases : List TestCaseCreate} {db db' : Db} {reply : Reply}
    (h : saveReviewedCases p clocks request programId cases db = .ok (db', reply)) :
    Changes rt db [] db' := by
  obtain ⟨user, -, h⟩ := bind_eq_ok h
  obtain ⟨e, he, h⟩ := bind_eq_ok h
  obtain ⟨db₁, hadd, h⟩ := bind_eq_ok h
  obtain ⟨rfl, -⟩ := Prod.mk.inj (Except.ok.inj h)
  exact addTestCases_changes (writableEngagement_stored he).1 hadd

omit [Unicode] in
theorem caseOf_eq_ok {db : Db} {programId testCaseId : String} {row : AuthorizationTestCase}
    (h : caseOf db programId testCaseId = .ok row) :
    db.testCases.get? row.id = some row ∧ row.programId = programId := by
  obtain ⟨hget, hprogram⟩ := Option.filter_eq_some_iff.mp (found_eq_ok h)
  obtain rfl : row.id = testCaseId := Table.key_of_get? hget
  exact ⟨hget, by simpa using hprogram⟩

/-- An updated case keeps its identifier and engagement, and a specification that does not
differ stays. -/
theorem updatedCase_eq_ok {p : Platform} {row updated : AuthorizationTestCase}
    {name : Option String} {spec : Option Json} {changed : Bool}
    (hchanged : specDiffers p row spec = .ok changed)
    (h : updatedCase p row name spec = .ok updated) :
    updated.id = row.id ∧ updated.programId = row.programId ∧
      (changed = false → updated.spec = row.spec) := by
  cases spec with
  | none =>
    obtain rfl := Except.ok.inj h
    exact ⟨rfl, rfl, fun _ => rfl⟩
  | some document =>
    obtain ⟨spec, hspec, h⟩ := bind_eq_ok h
    obtain ⟨testCaseId, -, h⟩ := bind_eq_ok h
    obtain rfl := Except.ok.inj h
    obtain ⟨spec', hspec', hchanged⟩ := bind_eq_ok hchanged
    obtain rfl : spec = spec' := Except.ok.inj (hspec.symm.trans hspec')
    obtain rfl := Except.ok.inj hchanged
    exact ⟨rfl, rfl, fun hsame => by simp at hsame; simp [hsame]⟩

theorem updateTestCase_changes {p : Platform} {request : HttpRequest}
    {programId testCaseId : String} {name : Option String} {spec : Option Json} {db db' : Db}
    {reply : Reply}
    (h : updateTestCase p request programId testCaseId name spec db = .ok (db', reply)) :
    Changes rt db [] db' := by
  obtain ⟨user, -, h⟩ := bind_eq_ok h
  obtain ⟨e, he, h⟩ := bind_eq_ok h
  obtain ⟨row, hrow, h⟩ := bind_eq_ok h
  obtain ⟨changed, hchanged, h⟩ := bind_eq_ok h
  obtain ⟨updated, hupdated, h⟩ := bind_eq_ok h
  obtain ⟨rfl, -⟩ := Prod.mk.inj (Except.ok.inj h)
  obtain ⟨hstored, rfl⟩ := writableEngagement_stored he
  obtain ⟨hget, hprogram⟩ := caseOf_eq_ok hrow
  obtain ⟨hid, hsameProgram, hsame⟩ := updatedCase_eq_ok hchanged hupdated
  have hput : ∀ k, (db.testCases.put updated).get? k =
      if row.id = k then some updated else db.testCases.get? k := fun k => by
    have hkey : db.testCases.get? (Keyed.key updated) = some row := by
      change db.testCases.get? updated.id = _
      rw [hid]
      exact hget
    rw [Table.get?_put hkey, ← hid]
    rfl
  have hcases : ∀ id k, id ≠ e.id ∨ changed = false →
      (((db.testCases.put updated).get? k).filter fun c => c.programId == id).map
        AuthorizationTestCase.spec = db.specOf id k := fun id k hkept => by
    rw [hput]
    split
    · rename_i hk
      subst hk
      rcases hkept with hkept | hkept
      · simp [Db.specOf, hget, Option.filter, hsameProgram, hprogram, Ne.symm hkept]
      · by_cases hid : e.id = id
        · simp [Db.specOf, hget, Option.filter, hsameProgram, hprogram, hid, hsame hkept]
        · simp [Db.specOf, hget, Option.filter, hsameProgram, hprogram, hid]
    · rfl
  have hknown : ∀ k c, (db.testCases.put updated).get? k = some c →
      k ∈ db.ids ∨ ∃ c, db.testCases.get? k = some c := fun k c hc => by
    rw [hput] at hc
    split at hc
    · rename_i hk
      exact .inr ⟨row, hk ▸ hget⟩
    · exact .inr ⟨c, hc⟩
  cases changed with
  | true =>
    exact .single (.amended (List.Subset.refl _) (.advance hstored (fun _ _ => rfl) (fun _ _ => rfl)
      (fun id k hid => hcases id k (.inl hid)) hknown))
  | false =>
    exact .single (.amended (List.Subset.refl _) {
      stored := hstored
      id_eq := rfl
      targetsSpent_eq := rfl
      durationAllocated_eq := rfl
      stopWork := .inl rfl
      targets_le := .inr rfl
      duration_le := .inr rfl
      idle := .inr rfl
      revision_le := le_rfl
      facts_eq := fun _ => rfl
      others := fun _ _ => ⟨rfl, rfl⟩
      cases := fun id k _ hne => absurd (hcases id k (.inr rfl)) hne
      cases_known := hknown })

theorem deleteTestCase_changes {p : Platform} {request : HttpRequest}
    {programId testCaseId : String} {db db' : Db} {reply : Reply}
    (h : deleteTestCase p request programId testCaseId db = .ok (db', reply)) :
    Changes rt db [] db' := by
  obtain ⟨user, -, h⟩ := bind_eq_ok h
  obtain ⟨e, he, h⟩ := bind_eq_ok h
  obtain ⟨row, hrow, h⟩ := bind_eq_ok h
  obtain ⟨rfl, -⟩ := Prod.mk.inj (Except.ok.inj h)
  obtain ⟨hstored, rfl⟩ := writableEngagement_stored he
  obtain ⟨hget, hprogram⟩ := caseOf_eq_ok hrow
  refine .single (.amended (List.Subset.refl _) (.advance hstored (fun _ _ => rfl) (fun _ _ => rfl)
    (fun id k hid => ?_) fun k c hc => ?_))
  · rw [Table.get?_filter]
    unfold Db.specOf
    cases hc : db.testCases.get? k with
    | none => rfl
    | some c =>
      by_cases hprog : c.programId = id
      · have hne : c.id ≠ row.id := fun hk => by
          obtain rfl : c.id = k := Table.key_of_get? hc
          rw [hk, hget, Option.some.injEq] at hc
          exact hid (hprog.symm.trans (hc ▸ hprogram))
        simp [Option.filter, hprog, hne]
      · by_cases hk : c.id = row.id <;> simp [Option.filter, hprog, hk]
  · rw [Table.get?_filter, Option.filter_eq_some_iff] at hc
    exact .inr ⟨c, hc.1⟩

end VardrMap
